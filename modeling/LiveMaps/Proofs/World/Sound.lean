import LiveMaps.Proofs.Catalog.Family
import LiveMaps.Proofs.Live.Base
import LiveMaps.World.Tick

namespace LiveMaps.World
open Ordered
variable {w after : World} {b : BaseMap} {m : LiveMap} {map : MapId} {serial : Nat}

def registeredIds (w : World) : List MapId := w.maps.map BaseMap.map

def serials (w : World) : List Nat := w.live.map LiveMap.serial

-- What holds of a world whatever is called on it, in whatever order. Serials tell
-- running maps apart; the maps of a terrain family are registered together.
structure Sound (w : World) : Prop where
  forest : w.catalog.Forest
  ascending : Ascending BaseMap.order w.maps
  bases : ∀ b ∈ w.hosts, b.Sound w.catalog
  families : ∀ one ∈ w.registeredIds, ∀ two, w.catalog.SameFamily one two → two ∈ w.registeredIds
  distinct : w.serials.Nodup
  born : ∀ serial ∈ w.serials, serial < w.born
  ids : w.ids.Valid

theorem start_sound {catalog : Catalog} (forest : catalog.Forest) (config : WorldConfig)
    (tiles : Terrain.TileSource) (saved : SavedState) : (start catalog config tiles saved).Sound where
  forest := forest
  ascending := .nil
  bases := fun b member => by cases member
  families := fun one member => by cases member
  distinct := .nil
  born := fun serial member => by cases member
  ids := IdTable.sized_valid (by decide)

theorem mem_registeredIds : map ∈ w.registeredIds ↔ ∃ b ∈ w.maps, b.map = map := List.mem_map

theorem base?_parts (found : w.base? map = some b) : b ∈ w.maps ∧ b.map = map :=
  ⟨List.mem_of_find?_eq_some found,by simpa using List.find?_some found⟩

theorem base?_isSome : (w.base? map).isSome ↔ map ∈ w.registeredIds := by
  simp [base?,mem_registeredIds]

theorem base?_iff (ascending : Ascending BaseMap.order w.maps) :
    w.base? map = some b ↔ b ∈ w.maps ∧ b.map = map := by
  unfold base?
  rw [ascending.find?_iff fun one two first second => by simp_all [BaseMap.order,BaseMap.map]]
  simp

-- An address leads to a copy where the kind has copies, and to the map itself where not.
theorem find?_iff (sound : w.Sound) {id : InstanceId} : w.find? map id = some m ↔ m.instanceId = id ∧
    ∃ b ∈ w.maps, b.map = map ∧ (m ∈ b.copies ∨ b.isInstanceable = false ∧ m = b.own) := by
  have copied {b : BaseMap} (member : b ∈ w.maps) : b.copy? id = some m ↔ m ∈ b.copies ∧ m.instanceId = id :=
    BaseMap.copy?_iff (sound.bases b (List.mem_append_left _ member)).ascending
  constructor
  · intro found
    unfold find? at found
    split at found
    · cases found
    · rename_i b based
      obtain ⟨member,named⟩ := base?_parts based
      split at found
      · obtain ⟨among,same⟩ := (copied member).mp found
        exact ⟨same,b,member,named,.inl among⟩
      · rename_i plain
        split at found
        · rename_i base
          cases found
          have own := (sound.bases b (List.mem_append_left _ member)).base
          exact ⟨own.trans (InstanceId.isBase_iff.mp base).symm,b,member,named,.inr ⟨by simpa using plain,rfl⟩⟩
        · cases found
  · rintro ⟨same,b,member,named,inside⟩
    have based : w.base? map = some b := (base?_iff sound.ascending).mpr ⟨member,named⟩
    unfold find?
    rw [based]
    rcases inside with among | ⟨plain,rfl⟩
    · simp only [BaseMap.isInstanceable_of_copy among,if_true]
      exact (copied member).mpr ⟨among,same⟩
    · have own := (sound.bases b (List.mem_append_left _ member)).base
      simp [plain,←same,own]

theorem host?_parts (found : w.host? serial = some b) : b ∈ w.hosts ∧ b.serial = serial :=
  ⟨List.mem_of_find?_eq_some found,by simpa using List.find?_some found⟩

theorem serials_eq (w : World) :
    w.serials = w.hosts.flatMap BaseMap.serials ++ w.retiredCopies.map LiveMap.serial := by
  unfold serials live
  rw [List.map_append,List.map_flatMap]
  rfl

-- No two hosts share a serial; so a change of the host with a serial is a change
-- at one place.

theorem host_apart (distinct : w.serials.Nodup) {front back : List BaseMap}
    (split : w.hosts = front ++ b :: back) {other : BaseMap} (among : other ∈ front ∨ other ∈ back) :
    other.serial ≠ b.serial := by
  rw [serials_eq,split,List.nodup_append] at distinct
  exact flatMap_apart distinct.1 among List.mem_cons_self List.mem_cons_self

theorem host?_serial (distinct : w.serials.Nodup) (member : b ∈ w.hosts) : w.host? b.serial = some b := by
  obtain ⟨front,back,split⟩ := List.append_of_mem member
  have passed : front.find? (fun other => other.serial == b.serial) = none := by
    refine List.find?_eq_none.mpr fun other among => ?_
    simpa using host_apart distinct split (.inl among)
  unfold host?
  rw [split,List.find?_append,passed]
  simp

theorem host_inj (distinct : w.serials.Nodup) {other : BaseMap} (one : b ∈ w.hosts) (two : other ∈ w.hosts)
    (same : other.serial = b.serial) : other = b := by
  have found := host?_serial distinct two
  rw [same,host?_serial distinct one] at found
  cases found
  rfl

theorem not_retired (distinct : w.serials.Nodup) (registered : b ∈ w.maps) : b ∉ w.retiredMaps := by
  intro retired
  rw [serials_eq,hosts,List.flatMap_append,List.nodup_append,List.nodup_append] at distinct
  have inside {l : List BaseMap} (among : b ∈ l) : b.serial ∈ l.flatMap BaseMap.serials :=
    List.mem_flatMap.mpr ⟨b,among,List.mem_cons_self⟩
  exact distinct.1.2.2 _ (inside registered) _ (inside retired) rfl

theorem change_apart {f : BaseMap → BaseMap} {maps : List BaseMap}
    (apart : ∀ other ∈ maps, other.serial ≠ serial) :
    maps.map (fun other => if other.serial = serial then f other else other) = maps := by
  refine (List.map_congr_left fun other among => ?_).trans (List.map_id maps)
  exact if_neg (apart other among)

theorem hosts_modifyHost (w : World) (serial : Nat) (f : BaseMap → BaseMap) :
    (w.modifyHost serial f).hosts = w.hosts.map (fun b => if b.serial = serial then f b else b) := by
  simp [modifyHost,hosts]

theorem modifyHost_split (distinct : w.serials.Nodup) (member : b ∈ w.hosts) (f : BaseMap → BaseMap) :
    ∃ front back, w.hosts = front ++ b :: back ∧
      (w.modifyHost b.serial f).hosts = front ++ f b :: back := by
  obtain ⟨front,back,split⟩ := List.append_of_mem member
  refine ⟨front,back,split,?_⟩
  rw [hosts_modifyHost,split,List.map_append,List.map_cons,if_pos rfl,
    change_apart fun other among => host_apart distinct split (.inl among),
    change_apart fun other among => host_apart distinct split (.inr among)]

-- A registered map that changes leaves the maps before and after it where they are.
theorem modifyHost_registered (distinct : w.serials.Nodup) {front back : List BaseMap}
    (split : w.maps = front ++ b :: back) (f : BaseMap → BaseMap) :
    (w.modifyHost b.serial f).maps = front ++ f b :: back ∧
      (w.modifyHost b.serial f).retiredMaps = w.retiredMaps := by
  have hosts : w.hosts = front ++ b :: (back ++ w.retiredMaps) := by
    rw [World.hosts,split,List.append_assoc,List.cons_append]
  have apart {other : BaseMap} (among : other ∈ front ∨ other ∈ back ++ w.retiredMaps) :
      other.serial ≠ b.serial := host_apart distinct hosts among
  constructor
  · change w.maps.map _ = _
    rw [split,List.map_append,List.map_cons,if_pos rfl,
      change_apart fun other among => apart (.inl among),
      change_apart fun other among => apart (.inr (List.mem_append_left _ among))]
  · exact change_apart fun other among => apart (.inr (List.mem_append_right _ among))

theorem mem_modifyHost (distinct : w.serials.Nodup) (member : b ∈ w.hosts) {f : BaseMap → BaseMap}
    {other : BaseMap} (among : other ∈ (w.modifyHost b.serial f).hosts) : other = f b ∨ other ∈ w.hosts := by
  obtain ⟨front,back,split,changed⟩ := modifyHost_split distinct member f
  rw [changed,mem_around] at among
  rw [split,mem_around]
  exact among.imp_right .inr

theorem registeredIds_modifyHost (serial : Nat) {f : BaseMap → BaseMap}
    (same : ∀ b, (f b).map = b.map) : (w.modifyHost serial f).registeredIds = w.registeredIds := by
  unfold registeredIds modifyHost
  rw [List.map_map]
  refine List.map_congr_left fun other _ => ?_
  simp only [Function.comp_apply]
  split
  · exact same other
  · rfl

structure Alike (w after : World) : Prop where
  catalog : after.catalog = w.catalog
  maps : after.maps = w.maps
  retiredMaps : after.retiredMaps = w.retiredMaps
  retiredCopies : after.retiredCopies = w.retiredCopies
  born : after.born = w.born
  ids : after.ids = w.ids

theorem Alike.of_records (w : World) (saved : SavedState) (shutdown : Bool) (schedule : PassSchedule)
    (journal : List Event) : Alike w
      {w with saved := saved, shutdown := shutdown, schedule := schedule, journal := journal} :=
  ⟨rfl,rfl,rfl,rfl,rfl,rfl⟩

theorem Alike.hosts (alike : Alike w after) : after.hosts = w.hosts := by
  unfold World.hosts
  rw [alike.maps,alike.retiredMaps]

theorem Alike.registeredIds (alike : Alike w after) : after.registeredIds = w.registeredIds := by
  unfold World.registeredIds
  rw [alike.maps]

theorem Alike.serials (alike : Alike w after) : after.serials = w.serials := by
  rw [serials_eq,serials_eq,alike.hosts,alike.retiredCopies]

theorem Sound.alike (sound : w.Sound) (alike : Alike w after) : after.Sound where
  forest := alike.catalog ▸ sound.forest
  ascending := alike.maps ▸ sound.ascending
  bases := by
    rw [alike.hosts,alike.catalog]
    exact sound.bases
  families := by
    rw [alike.registeredIds,alike.catalog]
    exact sound.families
  distinct := alike.serials ▸ sound.distinct
  born := by
    rw [alike.serials,alike.born]
    exact sound.born
  ids := alike.ids ▸ sound.ids

theorem Sound.setIds (sound : w.Sound) {ids : IdTable} (valid : ids.Valid) : {w with ids := ids}.Sound :=
  {sound with ids := valid}

theorem hosts_modify (w : World) (serial : Nat) (f : LiveMap → LiveMap) :
    (w.modify serial f).hosts = w.hosts.map (BaseMap.mapAll (atSerial serial f)) := by
  simp [modify,hosts]

theorem serials_modify {f : LiveMap → LiveMap} (steady : LiveMap.Steady f) (w : World) (serial : Nat) :
    (w.modify serial f).serials = w.serials := by
  have steady := steady.atSerial serial
  rw [serials_eq,serials_eq,hosts_modify,List.flatMap_map]
  congr 1
  · exact List.flatMap_congr fun b _ => BaseMap.serials_mapAll b steady
  · simp only [modify,List.map_map]
    exact List.map_congr_left fun m _ => steady.serial m

theorem registeredIds_modify {f : LiveMap → LiveMap} (steady : LiveMap.Steady f) (w : World)
    (serial : Nat) : (w.modify serial f).registeredIds = w.registeredIds := by
  unfold registeredIds modify
  rw [List.map_map]
  exact List.map_congr_left fun b _ => b.map_mapAll (steady.atSerial serial)

theorem Sound.modify (sound : w.Sound) {f : LiveMap → LiveMap} (steady : LiveMap.Steady f)
    (serial : Nat) : (w.modify serial f).Sound where
  forest := sound.forest
  ascending := sound.ascending.map fun b =>
    congrArg MapId.order (b.map_mapAll (steady.atSerial serial))
  bases := by
    rw [hosts_modify]
    intro b member
    obtain ⟨old,among,rfl⟩ := List.mem_map.mp member
    exact (sound.bases old among).mapAll (steady.atSerial serial)
  families := by
    rw [registeredIds_modify steady]
    exact sound.families
  distinct := by
    rw [serials_modify steady]
    exact sound.distinct
  born := by
    rw [serials_modify steady]
    exact sound.born
  ids := sound.ids

-- Changes of a base map together with its copies. What leaves its table goes to
-- the retired copies; serials that come in are new.

theorem rehost_serials (distinct : w.serials.Nodup) (member : b ∈ w.hosts) {f : BaseMap → BaseMap}
    {gone : List LiveMap} (fresh : List Nat) (born : Nat) (ids : IdTable)
    (kept : ((f b).serials ++ gone.map LiveMap.serial).Perm (fresh ++ b.serials)) :
    (serials {w.modifyHost b.serial f with
      ids := ids, born := born, retiredCopies := w.retiredCopies ++ gone}).Perm (fresh ++ w.serials) := by
  obtain ⟨front,back,split,changed⟩ := modifyHost_split distinct member f
  have hosts : hosts {w.modifyHost b.serial f with
      ids := ids, born := born, retiredCopies := w.retiredCopies ++ gone} = front ++ f b :: back := changed
  rw [serials_eq,serials_eq,split,hosts]
  rw [List.perm_iff_count] at kept ⊢
  intro serial
  have := kept serial
  simp only [List.count_append,List.map_append,List.flatMap_append,List.flatMap_cons] at this ⊢
  omega

theorem Sound.rehost (sound : w.Sound) (member : b ∈ w.hosts) (f : BaseMap → BaseMap)
    (gone : List LiveMap) (fresh : List Nat) (born : Nat) (ids : IdTable)
    (same : ∀ b, (f b).map = b.map) (fine : (f b).Sound w.catalog)
    (kept : ((f b).serials ++ gone.map LiveMap.serial).Perm (fresh ++ b.serials))
    (apart : fresh.Nodup) (grown : w.born ≤ born) (newer : ∀ serial ∈ fresh, w.born ≤ serial ∧ serial < born)
    (valid : ids.Valid) :
    Sound {w.modifyHost b.serial f with
      ids := ids, born := born, retiredCopies := w.retiredCopies ++ gone} := by
  have together := rehost_serials sound.distinct member fresh born ids kept
  refine ⟨sound.forest,?_,?_,?_,?_,?_,valid⟩
  · refine sound.ascending.map fun other => ?_
    split
    · exact congrArg MapId.order (same other)
    · rfl
  · intro other among
    rcases mem_modifyHost sound.distinct member among with rfl | old
    · exact fine
    · exact sound.bases other old
  · have ids := registeredIds_modifyHost (w := w) b.serial same
    exact (show registeredIds _ = _ from ids) ▸ sound.families
  · rw [together.nodup_iff,List.nodup_append]
    refine ⟨apart,sound.distinct,?_⟩
    rintro serial new _ old rfl
    have := newer serial new
    have := sound.born serial old
    omega
  · intro serial member
    rcases List.mem_append.mp (together.mem_iff.mp member) with new | old
    · exact (newer serial new).2
    · exact Nat.lt_of_lt_of_le (sound.born serial old) grown

theorem unloadAll_serials (w : World) : w.unloadAll.serials.Perm w.serials := by
  have each (maps : List BaseMap) : ((maps.map BaseMap.unload).flatMap BaseMap.serials ++
      ((maps.flatMap BaseMap.copies).map LiveMap.unload).map LiveMap.serial).Perm
        (maps.flatMap BaseMap.serials) := by
    induction maps with
    | nil => exact .refl _
    | cons b rest ih =>
      have first := BaseMap.serials_unload b
      rw [List.perm_iff_count] at first ih ⊢
      intro serial
      have := first serial
      have := ih serial
      simp only [List.map_cons,List.flatMap_cons,List.map_append,List.count_append] at *
      omega
  have moved := each w.maps
  rw [serials_eq,serials_eq]
  simp only [World.unloadAll,hosts,List.nil_append,List.flatMap_append]
  rw [List.perm_iff_count] at moved ⊢
  intro serial
  have := moved serial
  simp only [List.map_append,List.count_append] at this ⊢
  omega

theorem Sound.unloadAll (sound : w.Sound) : w.unloadAll.Sound := by
  have together := unloadAll_serials w
  refine ⟨sound.forest,.nil,?_,?_,?_,?_,sound.ids⟩
  · intro b member
    simp only [World.unloadAll,hosts,List.nil_append] at member
    rcases List.mem_append.mp member with retired | dropped
    · exact sound.bases b (List.mem_append_right _ retired)
    · obtain ⟨old,among,rfl⟩ := List.mem_map.mp dropped
      exact (sound.bases old (List.mem_append_left _ among)).unload
  · intro one member
    cases member
  · exact together.nodup_iff.mpr sound.distinct
  · exact fun serial member => sound.born serial (together.mem_iff.mp member)

end LiveMaps.World
