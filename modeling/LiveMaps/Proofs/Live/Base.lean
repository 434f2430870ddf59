import LiveMaps.Proofs.Ids.Table
import LiveMaps.World.State

namespace LiveMaps

-- Changes that leave alone what a running map is, and never bring one back.
structure LiveMap.Steady (f : LiveMap → LiveMap) : Prop where
  serial : ∀ m, (f m).serial = m.serial
  definition : ∀ m, (f m).definition = m.definition
  instanceId : ∀ m, (f m).instanceId = m.instanceId
  maxPlayers : ∀ m, (f m).maxPlayers = m.maxPlayers
  unloaded : ∀ m, m.unloaded = true → (f m).unloaded = true

namespace LiveMap

theorem advance_steady (diff : UInt32) : Steady (advance diff) :=
  ⟨fun _ => rfl,fun _ => rfl,fun _ => rfl,fun _ => rfl,fun _ => id⟩

theorem settle_steady : Steady settle := ⟨fun _ => rfl,fun _ => rfl,fun _ => rfl,fun _ => rfl,fun _ => id⟩

theorem unload_steady : Steady unload := ⟨fun _ => rfl,fun _ => rfl,fun _ => rfl,fun _ => rfl,fun _ _ => rfl⟩

theorem queue_steady (t : Transfer) : Steady (queue · t) :=
  ⟨fun _ => rfl,fun _ => rfl,fun _ => rfl,fun _ => rfl,fun _ => id⟩

theorem setEncounter_steady (running : Bool) : Steady (setEncounter · running) :=
  ⟨fun _ => rfl,fun _ => rfl,fun _ => rfl,fun _ => rfl,fun _ => id⟩

theorem attach_steady (child : Nat) : Steady (attach child) :=
  ⟨fun _ => rfl,fun _ => rfl,fun _ => rfl,fun _ => rfl,fun _ => id⟩

theorem load_steady (saved : SavedState) : Steady (load saved) :=
  ⟨fun _ => rfl,fun _ => rfl,fun _ => rfl,fun _ => rfl,fun _ => id⟩

theorem discover_steady (source : Terrain.TileSource) : Steady (discover source) :=
  ⟨fun _ => rfl,fun _ => rfl,fun _ => rfl,fun _ => rfl,fun _ => id⟩

theorem id_steady : Steady id := ⟨fun _ => rfl,fun _ => rfl,fun _ => rfl,fun _ => rfl,fun _ => id⟩

theorem Steady.comp {f g : LiveMap → LiveMap} (last : Steady g) (first : Steady f) :
    Steady fun m => g (f m) where
  serial m := (last.serial (f m)).trans (first.serial m)
  definition m := (last.definition (f m)).trans (first.definition m)
  instanceId m := (last.instanceId (f m)).trans (first.instanceId m)
  maxPlayers m := (last.maxPlayers (f m)).trans (first.maxPlayers m)
  unloaded m gone := last.unloaded (f m) (first.unloaded m gone)

theorem Steady.of_each {f : LiveMap → LiveMap} (each : ∀ m, ∃ g, Steady g ∧ f m = g m) : Steady f := by
  refine ⟨fun m => ?_,fun m => ?_,fun m => ?_,fun m => ?_,fun m gone => ?_⟩ <;>
    obtain ⟨g,steady,same⟩ := each m <;> rw [same]
  · exact steady.serial m
  · exact steady.definition m
  · exact steady.instanceId m
  · exact steady.maxPlayers m
  · exact steady.unloaded m gone

theorem Steady.atSerial {f : LiveMap → LiveMap} (steady : Steady f) (serial : Nat) :
    Steady (World.atSerial serial f) := by
  apply Steady.of_each
  intro m
  unfold World.atSerial
  split
  · exact ⟨f,steady,rfl⟩
  · exact ⟨id,id_steady,rfl⟩

end LiveMap

namespace BaseMap
open Ordered
variable {c : Catalog} {b : BaseMap} {f : LiveMap → LiveMap} {copy : LiveMap} {map : MapId}

-- A base map is what its definition says, and so are its copies.
structure Sound (c : Catalog) (b : BaseMap) : Prop where
  base : b.own.instanceId = .base
  defined : c.definition? b.map = some b.own.definition
  tabled : b.isInstanceable = b.own.definition.kind.instanceable
  ascending : Ascending LiveMap.order b.copies
  copies : ∀ copy ∈ b.copies, copy.definition = b.own.definition ∧ copy.instanceId ≠ .base

@[simp] theorem copies_mapCopies (b : BaseMap) (change : List LiveMap → List LiveMap) :
    (b.mapCopies change).copies = (if b.isInstanceable then change b.copies else []) := by
  cases b with
  | mk own table => cases table <;> rfl

theorem isInstanceable_of_table {table : CopyTable} (tabled : b.table = some table) : b.isInstanceable = true := by
  unfold isInstanceable
  rw [tabled]
  rfl

theorem isInstanceable_of_copy (among : copy ∈ b.copies) : b.isInstanceable = true := by
  cases tabled : b.table with
  | none =>
    unfold copies at among
    rw [tabled] at among
    cases among
  | some table => exact isInstanceable_of_table tabled

@[simp] theorem copies_mapAll (b : BaseMap) (f : LiveMap → LiveMap) :
    (b.mapAll f).copies = b.copies.map f := by
  cases b with
  | mk own table => cases table <;> rfl

@[simp] theorem all_mapAll (b : BaseMap) (f : LiveMap → LiveMap) : (b.mapAll f).all = b.all.map f := by
  unfold all
  rw [copies_mapAll]
  rfl

@[simp] theorem copies_primary (b : BaseMap) (delay diff : UInt32) :
    (b.primary delay diff).copies = (b.surviving delay).map (LiveMap.advance diff) := by
  cases b with
  | mk own table => cases table <;> rfl

@[simp] theorem copies_unload (b : BaseMap) : b.unload.copies = [] := by
  cases b with
  | mk own table => cases table <;> rfl

@[simp] theorem isInstanceable_mapCopies (b : BaseMap) (change : List LiveMap → List LiveMap) :
    (b.mapCopies change).isInstanceable = b.isInstanceable := Option.isSome_map

@[simp] theorem isInstanceable_mapAll (b : BaseMap) (f : LiveMap → LiveMap) :
    (b.mapAll f).isInstanceable = b.isInstanceable := Option.isSome_map

@[simp] theorem isInstanceable_primary (b : BaseMap) (delay diff : UInt32) :
    (b.primary delay diff).isInstanceable = b.isInstanceable := Option.isSome_map

@[simp] theorem isInstanceable_unload (b : BaseMap) : b.unload.isInstanceable = b.isInstanceable :=
  Option.isSome_map

theorem map_mapAll (b : BaseMap) (steady : LiveMap.Steady f) : (b.mapAll f).map = b.map :=
  congrArg MapDefinition.id (steady.definition b.own)

theorem Sound.of_kept (sound : b.Sound c) {after : BaseMap}
    (own : after.own.definition = b.own.definition ∧ after.own.instanceId = b.own.instanceId)
    (tabled : after.isInstanceable = b.isInstanceable) (kept : LiveMap → Bool)
    (steady : LiveMap.Steady f) (copies : after.copies = (b.copies.filter kept).map f) :
    after.Sound c := by
  obtain ⟨definition,instanceId⟩ := own
  refine ⟨instanceId.trans sound.base,?_,?_,?_,?_⟩
  · rw [show after.map = b.map from congrArg MapDefinition.id definition,definition]
    exact sound.defined
  · rw [tabled,definition]
    exact sound.tabled
  · rw [copies]
    exact (sound.ascending.filter kept).map fun m => congrArg InstanceId.order (steady.instanceId m)
  · rw [copies]
    intro copy member
    obtain ⟨old,among,rfl⟩ := List.mem_map.mp member
    obtain ⟨same,apart⟩ := sound.copies old ((List.mem_filter.mp among).1)
    rw [steady.definition,steady.instanceId,definition]
    exact ⟨same,apart⟩

theorem Sound.mapAll (sound : b.Sound c) (steady : LiveMap.Steady f) : (b.mapAll f).Sound c := by
  refine sound.of_kept ⟨steady.definition b.own,steady.instanceId b.own⟩ (isInstanceable_mapAll b f)
    (fun _ => true) steady ?_
  rw [copies_mapAll,List.filter_eq_self.mpr fun _ _ => rfl]

theorem Sound.primary (sound : b.Sound c) (delay diff : UInt32) : (b.primary delay diff).Sound c :=
  sound.of_kept ⟨rfl,rfl⟩ (isInstanceable_primary b delay diff) _ (LiveMap.advance_steady diff)
    (copies_primary b delay diff)

theorem Sound.unload (sound : b.Sound c) : b.unload.Sound c := by
  refine sound.of_kept ⟨rfl,rfl⟩ (isInstanceable_unload b) (fun _ => false)
    LiveMap.unload_steady ?_
  simp

theorem Sound.insert (sound : b.Sound c) (tabled : b.isInstanceable = true)
    (definition : copy.definition = b.own.definition) (apart : copy.instanceId ≠ .base) :
    (b.mapCopies (Ordered.insert LiveMap.order copy)).Sound c := by
  refine ⟨sound.base,sound.defined,?_,?_,?_⟩
  · rw [isInstanceable_mapCopies]
    exact sound.tabled
  · rw [copies_mapCopies,if_pos tabled]
    exact insert_ascending sound.ascending
  · rw [copies_mapCopies,if_pos tabled]
    intro other member
    rcases mem_of_insert member with rfl | old
    · exact ⟨definition,apart⟩
    · exact sound.copies other old

def serials (b : BaseMap) : List Nat := b.all.map LiveMap.serial

theorem serials_eq (b : BaseMap) : b.serials = b.serial :: b.copies.map LiveMap.serial := rfl

theorem serials_mapAll (b : BaseMap) (steady : LiveMap.Steady f) : (b.mapAll f).serials = b.serials := by
  unfold serials
  rw [all_mapAll,List.map_map]
  exact List.map_congr_left fun m _ => steady.serial m

theorem serials_primary (b : BaseMap) (delay diff : UInt32) :
    ((b.primary delay diff).serials ++ ((b.expired delay).map LiveMap.unload).map LiveMap.serial).Perm
      b.serials := by
  have split : (b.surviving delay ++ b.expired delay).Perm b.copies := by
    refine List.perm_append_comm.trans ?_
    exact List.filter_append_perm (LiveMap.isExpired delay) b.copies
  have kept := (split.map LiveMap.serial).cons b.serial
  rw [serials_eq,serials_eq,copies_primary,List.map_map,List.map_map]
  rw [List.map_append] at kept
  exact kept

theorem serials_unload (b : BaseMap) :
    (b.unload.serials ++ (b.copies.map LiveMap.unload).map LiveMap.serial).Perm b.serials := by
  rw [serials_eq,serials_eq,copies_unload,List.map_map]
  exact .refl _

theorem copy?_toList (ascending : Ascending LiveMap.order b.copies) (id : InstanceId) :
    (b.copy? id).toList = b.copies.filter (fun copy => copy.order == id.order) := by
  unfold copy?
  rw [ascending.find?_toList fun one two first second => by simp_all [LiveMap.order]]
  congr 1
  funext copy
  rw [Bool.eq_iff_iff]
  simp [LiveMap.order,InstanceId.order_inj]

theorem copy?_iff (ascending : Ascending LiveMap.order b.copies) {id : InstanceId} :
    b.copy? id = some copy ↔ copy ∈ b.copies ∧ copy.instanceId = id := by
  unfold copy?
  rw [ascending.find?_iff fun one two first second => by simp_all [LiveMap.order]]
  simp

theorem serials_insert (copy : LiveMap) (ascending : Ascending LiveMap.order b.copies)
    (tabled : b.isInstanceable = true) :
    ((b.mapCopies (Ordered.insert LiveMap.order copy)).serials ++
        (b.copy? copy.instanceId).toList.map LiveMap.serial).Perm (copy.serial :: b.serials) := by
  have placed := (insert_perm copy ascending).map LiveMap.serial
  rw [copy?_toList ascending,serials_eq,serials_eq,copies_mapCopies,if_pos tabled]
  rw [List.map_append] at placed
  exact (placed.cons b.serial).trans (.swap _ _ _)

theorem mem_serials_insert {serial : Nat}
    (held : serial ∈ (b.mapCopies (Ordered.insert LiveMap.order copy)).serials) :
    serial = copy.serial ∨ serial ∈ b.serials := by
  obtain ⟨m,inside,rfl⟩ := List.mem_map.mp held
  rcases List.mem_cons.mp inside with rfl | among
  · exact .inr List.mem_cons_self
  · rw [copies_mapCopies] at among
    split at among
    · rcases mem_of_insert among with rfl | old
      · exact .inl rfl
      · exact .inr (List.mem_map_of_mem (List.mem_cons_of_mem _ old))
    · cases among

end BaseMap
end LiveMaps
