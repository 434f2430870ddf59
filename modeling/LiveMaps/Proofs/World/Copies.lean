import LiveMaps.Proofs.World.Runs

namespace LiveMaps

namespace BaseMap

def copyIds (b : BaseMap) : List InstanceId := b.copies.map LiveMap.instanceId

theorem mem_copyIds {b : BaseMap} {copy : LiveMap} (among : copy ∈ b.copies) :
    copy.instanceId ∈ b.copyIds := List.mem_map_of_mem among

theorem copyIds_mapAll {f : LiveMap → LiveMap} (steady : LiveMap.Steady f) (b : BaseMap) :
    (b.mapAll f).copyIds = b.copyIds := by
  unfold copyIds
  rw [copies_mapAll,List.map_map]
  exact List.map_congr_left fun copy _ => steady.instanceId copy

theorem copyIds_primary (b : BaseMap) (delay diff : UInt32) :
    (b.primary delay diff).copyIds = (b.surviving delay).map LiveMap.instanceId := by
  rw [copyIds,copies_primary,List.map_map]
  rfl

theorem copyIds_unload (b : BaseMap) : b.unload.copyIds = [] := by
  rw [copyIds,copies_unload]
  rfl

end BaseMap

namespace World
open Ordered
variable {w after : World} {b : BaseMap} {copy : LiveMap} {id : InstanceId} {root : MapId}

-- The copies in all tables together, against the identifiers. Identifiers that are
-- claimed beyond those of the copies do no harm; a copy whose identifier is not
-- claimed could be handed out a second time.
structure Accounted (w : World) : Prop where
  distinct : (w.hosts.flatMap BaseMap.copyIds).Nodup
  claimed : ∀ b ∈ w.hosts, ∀ id ∈ b.copyIds, id ∈ w.ids.claimed
  standing : ∀ b ∈ w.hosts, ∀ copy ∈ b.copies, copy.unloaded = false
  dropped : ∀ b ∈ w.retiredMaps, b.copies = []
  gone : ∀ copy ∈ w.retiredCopies, copy.unloaded = true

theorem start_accounted (catalog : Catalog) (config : WorldConfig) (tiles : Terrain.TileSource)
    (saved : SavedState) : (start catalog config tiles saved).Accounted where
  distinct := .nil
  claimed := fun b member => by cases member
  standing := fun b member => by cases member
  dropped := fun b member => by cases member
  gone := fun copy member => by cases member

theorem liveCopies_eq (sound : w.Sound) (accounted : w.Accounted) :
    w.liveCopies = w.hosts.flatMap BaseMap.copies := by
  have each : ∀ b ∈ w.hosts, b.all.filter (fun m => !m.instanceId.isBase && !m.unloaded) = b.copies := by
    intro b member
    have base := sound.bases b member
    rw [BaseMap.all,List.filter_cons,base.base]
    refine List.filter_eq_self.mpr fun copy among => ?_
    rw [InstanceId.isBase_eq_false.mpr (base.copies copy among).2,accounted.standing b member copy among]
    rfl
  have retired : w.retiredCopies.filter (fun m => !m.instanceId.isBase && !m.unloaded) = [] := by
    refine List.filter_eq_nil_iff.mpr fun copy member => ?_
    simp [accounted.gone copy member]
  unfold liveCopies live
  rw [List.filter_append,retired,List.append_nil,List.filter_flatMap]
  exact List.flatMap_congr each

theorem mem_liveCopies_host (sound : w.Sound) (accounted : w.Accounted) :
    copy ∈ w.liveCopies ↔ ∃ b ∈ w.hosts, copy ∈ b.copies := by
  rw [liveCopies_eq sound accounted,List.mem_flatMap]

theorem Accounted.registered (accounted : w.Accounted) (member : b ∈ w.hosts) (among : copy ∈ b.copies) :
    b ∈ w.maps := by
  rcases List.mem_append.mp member with current | retired
  · exact current
  · rw [accounted.dropped b retired] at among
    cases among

theorem Accounted.one_host (accounted : w.Accounted) {other : BaseMap} (first : b ∈ w.hosts)
    (among : id ∈ b.copyIds) (second : other ∈ w.hosts) (among' : id ∈ other.copyIds) : other = b := by
  obtain ⟨front,back,split⟩ := List.append_of_mem first
  have distinct := accounted.distinct
  rw [split] at second distinct
  rcases mem_around.mp second with same | elsewhere
  · exact same
  · exact absurd rfl (flatMap_apart distinct elsewhere among among')

theorem Accounted.alike (accounted : w.Accounted) (alike : Alike w after) : after.Accounted where
  distinct := alike.hosts ▸ accounted.distinct
  claimed := by
    rw [alike.hosts,alike.ids]
    exact accounted.claimed
  standing := alike.hosts ▸ accounted.standing
  dropped := alike.retiredMaps ▸ accounted.dropped
  gone := alike.retiredCopies ▸ accounted.gone

theorem Accounted.setIds (accounted : w.Accounted) (sound : w.Sound) {ids : IdTable}
    (kept : ∀ copy ∈ w.liveCopies, copy.instanceId ∈ w.ids.claimed → copy.instanceId ∈ ids.claimed) :
    Accounted {w with ids := ids} := by
  refine {accounted with claimed := fun b member id among => ?_}
  have held := accounted.claimed b member id among
  obtain ⟨copy,inside,rfl⟩ := List.mem_map.mp among
  exact kept copy ((mem_liveCopies_host sound accounted).mpr ⟨b,member,inside⟩) held

theorem Accounted.change (accounted : w.Accounted) (sound : w.Sound) {f : LiveMap → LiveMap} {serial : Nat}
    (steady : LiveMap.Steady f)
    (spared : ∀ copy ∈ w.liveCopies, copy.serial = serial → (f copy).unloaded = false) :
    (w.modify serial f).Accounted := by
  have steady' := steady.atSerial serial
  have ids (b : BaseMap) : (b.mapAll (atSerial serial f)).copyIds = b.copyIds := b.copyIds_mapAll steady'
  refine ⟨?_,?_,?_,?_,?_⟩
  · rw [hosts_modify,List.flatMap_map,List.flatMap_congr fun b _ => ids b]
    exact accounted.distinct
  · rw [hosts_modify]
    intro b member id among
    obtain ⟨old,inside,rfl⟩ := List.mem_map.mp member
    rw [ids] at among
    exact accounted.claimed old inside id among
  · rw [hosts_modify]
    intro b member copy among
    obtain ⟨old,inside,rfl⟩ := List.mem_map.mp member
    rw [BaseMap.copies_mapAll] at among
    obtain ⟨copy,held,rfl⟩ := List.mem_map.mp among
    unfold atSerial
    split
    · rename_i same
      exact spared copy ((mem_liveCopies_host sound accounted).mpr ⟨old,inside,held⟩) same
    · exact accounted.standing old inside copy held
  · intro b member
    obtain ⟨old,inside,rfl⟩ := List.mem_map.mp member
    rw [BaseMap.copies_mapAll,accounted.dropped old inside]
    rfl
  · intro copy member
    obtain ⟨old,inside,rfl⟩ := List.mem_map.mp member
    exact steady'.unloaded old (accounted.gone old inside)

-- A base map changes with its table: what the table holds after is an old copy of
-- it or has an identifier that nobody held.
theorem Accounted.rehost (accounted : w.Accounted) (sound : w.Sound) (member : b ∈ w.hosts)
    (f : BaseMap → BaseMap) (gone : List LiveMap) (born : Nat) (ids : IdTable)
    (distinct : (f b).copyIds.Nodup)
    (origin : ∀ id ∈ (f b).copyIds, id ∈ ids.claimed ∧ (id ∈ b.copyIds ∨ id ∉ w.ids.claimed))
    (standing : ∀ copy ∈ (f b).copies, copy.unloaded = false)
    (kept : ∀ id ∈ w.ids.claimed, id ∉ b.copyIds → id ∈ ids.claimed)
    (left : ∀ copy ∈ gone, copy.unloaded = true) (empty : b ∈ w.retiredMaps → (f b).copies = []) :
    Accounted {w.modifyHost b.serial f with
      ids := ids, born := born, retiredCopies := w.retiredCopies ++ gone} := by
  obtain ⟨front,back,split,changed⟩ := modifyHost_split sound.distinct member f
  have hosts : hosts {w.modifyHost b.serial f with
      ids := ids, born := born, retiredCopies := w.retiredCopies ++ gone} = front ++ f b :: back := changed
  have old := accounted.distinct
  rw [split] at old
  have inside {other : BaseMap} (among : other ∈ front ∨ other ∈ back) : other ∈ w.hosts := by
    rw [split]
    exact mem_around.mpr (.inr among)
  have apart {other : BaseMap} (among : other ∈ front ∨ other ∈ back) {id : InstanceId}
      (there : id ∈ other.copyIds) : id ∉ b.copyIds ∧ id ∉ (f b).copyIds := by
    have away : id ∉ b.copyIds := fun here => flatMap_apart old among here there rfl
    refine ⟨away,fun here => (origin id here).2.elim away fun unclaimed => ?_⟩
    exact unclaimed (accounted.claimed other (inside among) id there)
  refine ⟨?_,?_,?_,?_,?_⟩
  · rw [hosts]
    exact flatMap_replaced old distinct fun other among id there => (apart among there).2
  · rw [hosts]
    intro other among id there
    rcases mem_around.mp among with rfl | among
    · exact (origin id there).1
    · exact kept id (accounted.claimed other (inside among) id there) (apart among there).1
  · rw [hosts]
    intro other among copy there
    rcases mem_around.mp among with rfl | among
    · exact standing copy there
    · exact accounted.standing other (inside among) copy there
  · intro other among
    obtain ⟨old,retired,rfl⟩ := List.mem_map.mp among
    split
    · rename_i same
      cases host_inj sound.distinct member (List.mem_append_right w.maps retired) same
      exact empty retired
    · exact accounted.dropped old retired
  · intro copy among
    rcases List.mem_append.mp among with old | new
    · exact accounted.gone copy old
    · exact left copy new

theorem Accounted.unloadAll (accounted : w.Accounted) : w.unloadAll.Accounted := by
  have empty : ∀ b ∈ w.unloadAll.retiredMaps, b.copies = [] := by
    intro b member
    rcases List.mem_append.mp member with old | new
    · exact accounted.dropped b old
    · obtain ⟨dropped,_,rfl⟩ := List.mem_map.mp new
      exact BaseMap.copies_unload dropped
  have hosts : w.unloadAll.hosts = w.unloadAll.retiredMaps := rfl
  refine ⟨?_,?_,?_,empty,?_⟩
  · rw [hosts,List.flatMap_eq_nil_iff.mpr fun b member => by rw [BaseMap.copyIds,empty b member]; rfl]
    exact .nil
  · intro b member id among
    rw [BaseMap.copyIds,empty b (hosts ▸ member)] at among
    cases among
  · intro b member copy among
    rw [empty b (hosts ▸ member)] at among
    cases among
  · intro copy member
    rcases List.mem_append.mp member with old | new
    · exact accounted.gone copy old
    · obtain ⟨dropped,_,rfl⟩ := List.mem_map.mp new
      rfl

theorem Accounted.install (accounted : w.Accounted) (sound : w.Sound) (top : w.catalog.RootOf root root)
    (fresh : root ∉ w.registeredIds) : (w.install root).Accounted := by
  have placed := install_perm sound top fresh
  have empty : ∀ b ∈ w.newFamily root, b.copies = [] := by
    intro b member
    obtain ⟨d,_,_,rfl⟩ := mem_newFamily.mp member
    exact (w.build_parts _ d).2.2.2.2.1
  have together : ((w.install root).hosts).Perm (w.newFamily root ++ w.hosts) := by
    unfold hosts
    rw [←List.append_assoc]
    exact placed.append_right _
  have origin {b : BaseMap} (member : b ∈ (w.install root).hosts) : b.copies = [] ∨ b ∈ w.hosts :=
    (List.mem_append.mp (together.mem_iff.mp member)).imp_left (empty b)
  refine ⟨?_,?_,?_,accounted.dropped,accounted.gone⟩
  · rw [(together.flatMap_right BaseMap.copyIds).nodup_iff,List.flatMap_append,
      List.flatMap_eq_nil_iff.mpr fun b member => by rw [BaseMap.copyIds,empty b member]; rfl]
    exact accounted.distinct
  · intro b member id among
    rcases origin member with none | old
    · rw [BaseMap.copyIds,none] at among
      cases among
    · exact accounted.claimed b old id among
  · intro b member copy among
    rcases origin member with none | old
    · rw [none] at among
      cases among
    · exact accounted.standing b old copy among

theorem dismissAll_claimed {ids : IdTable} (held : id ∈ ids.claimed) (map : MapId) {copies : List LiveMap}
    (spared : ∀ copy ∈ copies, copy.instanceId ≠ id) :
    id ∈ (BaseMap.dismissAll map ids copies).1.claimed := by
  induction copies generalizing ids with
  | nil => exact held
  | cons copy rest ih =>
    have first : id ∈ (BaseMap.dismiss map ids copy).1.claimed := by
      rcases dismiss_cases map ids copy with done | same
      · obtain ⟨_,_,_,claimed,_⟩ := IdTable.release_parts done
        rw [claimed,List.mem_filter]
        exact ⟨held,bne_iff_ne.mpr (spared copy List.mem_cons_self).symm⟩
      · rwa [same]
    exact ih first fun later member => spared later (List.mem_cons_of_mem _ member)

theorem copyIds_nodup (sound : w.Sound) (member : b ∈ w.hosts) : b.copyIds.Nodup := by
  unfold BaseMap.copyIds List.Nodup
  rw [List.pairwise_map]
  refine (sound.bases b member).ascending.imp ?_
  intro one two below same
  rw [LiveMap.order,LiveMap.order,same] at below
  exact Nat.lt_irrefl _ below

theorem Accounted.turn (accounted : w.Accounted) (sound : w.Sound) (member : b ∈ w.hosts) (diff : UInt32) :
    Accounted {w.modifyHost b.serial (BaseMap.primary w.config.unloadDelay diff) with
      ids := (BaseMap.dismissAll b.map w.ids (b.expired w.config.unloadDelay)).1
      retiredCopies := w.retiredCopies ++ (b.expired w.config.unloadDelay).map LiveMap.unload } := by
  have surviving := b.copyIds_primary w.config.unloadDelay diff
  have distinct := copyIds_nodup sound member
  refine accounted.rehost sound member (BaseMap.primary w.config.unloadDelay diff) _ w.born _
    ?_ ?_ ?_ ?_ ?_ ?_
  · rw [surviving]
    exact distinct.sublist (List.filter_sublist.map _)
  · rw [surviving]
    intro id among
    obtain ⟨copy,kept,rfl⟩ := List.mem_map.mp among
    obtain ⟨inside,alive⟩ := List.mem_filter.mp kept
    have own := BaseMap.mem_copyIds inside
    refine ⟨dismissAll_claimed (accounted.claimed b member _ own) b.map ?_,.inl own⟩
    intro other gone same
    obtain ⟨inside',expired⟩ := List.mem_filter.mp gone
    rw [(sound.bases b member).ascending.same_entry inside' inside (congrArg InstanceId.order same)] at expired
    simp [expired] at alive
  · rw [BaseMap.copies_primary]
    intro copy among
    obtain ⟨old,kept,rfl⟩ := List.mem_map.mp among
    exact accounted.standing b member old (List.mem_filter.mp kept).1
  · intro id held away
    refine dismissAll_claimed held b.map fun copy gone same => away ?_
    rw [←same]
    exact BaseMap.mem_copyIds (List.mem_filter.mp gone).1
  · intro copy among
    obtain ⟨old,_,rfl⟩ := List.mem_map.mp among
    rfl
  · intro retired
    rw [BaseMap.copies_primary,BaseMap.surviving,accounted.dropped b retired]
    rfl

theorem Accounted.settle (accounted : w.Accounted) (sound : w.Sound) (member : b ∈ w.hosts) :
    (w.modifyHost b.serial BaseMap.delayed).Accounted := by
  have ids : b.delayed.copyIds = b.copyIds := b.copyIds_mapAll LiveMap.settle_steady
  have done := accounted.rehost sound member BaseMap.delayed [] w.born w.ids
    (ids ▸ copyIds_nodup sound member)
    (fun id among => by rw [ids] at among; exact ⟨accounted.claimed b member id among,.inl among⟩)
    (fun copy among => by
      rw [BaseMap.delayed,BaseMap.copies_mapAll] at among
      obtain ⟨old,inside,rfl⟩ := List.mem_map.mp among
      exact accounted.standing b member old inside)
    (fun id held _ => held) (fun copy none => by cases none)
    (fun retired => by rw [BaseMap.delayed,BaseMap.copies_mapAll,accounted.dropped b retired]; rfl)
  exact done.alike ⟨rfl,rfl,rfl,(List.append_nil _).symm,rfl,rfl⟩

theorem Accounted.clear (accounted : w.Accounted) (sound : w.Sound) (member : b ∈ w.hosts) :
    Accounted {w.modifyHost b.serial BaseMap.unload with
      retiredCopies := w.retiredCopies ++ b.copies.map LiveMap.unload } := by
  have none := b.copyIds_unload
  refine accounted.rehost sound member BaseMap.unload _ w.born w.ids ?_ ?_ ?_ ?_ ?_ ?_
  · rw [none]
    exact .nil
  · rw [none]
    intro id among
    cases among
  · rw [BaseMap.copies_unload]
    intro copy among
    cases among
  · exact fun id held _ => held
  · intro copy among
    obtain ⟨old,_,rfl⟩ := List.mem_map.mp among
    rfl
  · exact fun _ => BaseMap.copies_unload b

theorem Accounted.vacant (accounted : w.Accounted) (member : b ∈ w.hosts)
    (unclaimed : id ∉ w.ids.claimed) (among : copy ∈ b.copies) : copy.order ≠ id.order := by
  intro same
  rw [←InstanceId.order_inj.mp same] at unclaimed
  exact unclaimed (accounted.claimed b member _ (BaseMap.mem_copyIds among))

theorem Accounted.copy?_none (accounted : w.Accounted) (member : b ∈ w.hosts)
    (unclaimed : id ∉ w.ids.claimed) : b.copy? id = none := by
  refine List.find?_eq_none.mpr fun copy among same => ?_
  exact accounted.vacant member unclaimed among (congrArg InstanceId.order (beq_iff_eq.mp same))

theorem Accounted.openCopy (accounted : w.Accounted) (sound : w.Sound) {host : BaseMap} {table : CopyTable}
    {request : InstanceRequest} {ids : IdTable} (registered : host ∈ w.maps) (tabled : host.table = some table)
    (unclaimed : id ∉ w.ids.claimed)
    (claimed : ∀ other, other ∈ ids.claimed ↔ other = id ∨ other ∈ w.ids.claimed) :
    ({w with ids := ids}.addCopy host table.template id request).1.Accounted := by
  have member : host ∈ w.hosts := List.mem_append_left _ registered
  have tabled := BaseMap.isInstanceable_of_table tabled
  let copy := ({w with ids := ids}.addCopy host table.template id request).2
  have copies : (host.mapCopies (insert LiveMap.order copy)).copies = insert LiveMap.order copy host.copies := by
    rw [BaseMap.copies_mapCopies,if_pos tabled]
  have within {other : LiveMap} (among : other ∈ insert LiveMap.order copy host.copies) :
      other = copy ∨ other ∈ host.copies := mem_of_insert among
  have done := accounted.rehost sound member (BaseMap.mapCopies (insert LiveMap.order copy))
    (host.copy? id).toList (w.born + 1) ids ?_ ?_ ?_ ?_ ?_ ?_
  · exact done.alike ⟨rfl,rfl,rfl,rfl,rfl,rfl⟩
  · have placed := insert_perm_of_fresh copy (sound.bases host member).ascending
      fun old among => accounted.vacant member unclaimed among
    rw [BaseMap.copyIds,copies,(placed.map LiveMap.instanceId).nodup_iff]
    refine List.nodup_cons.mpr ⟨fun held => ?_,copyIds_nodup sound member⟩
    exact unclaimed (accounted.claimed host member id held)
  · rw [BaseMap.copyIds,copies]
    intro other among
    obtain ⟨entry,inside,rfl⟩ := List.mem_map.mp among
    rw [claimed]
    rcases within inside with rfl | old
    · exact ⟨.inl rfl,.inr unclaimed⟩
    · have own := BaseMap.mem_copyIds old
      exact ⟨.inr (accounted.claimed host member _ own),.inl own⟩
  · rw [copies]
    intro other among
    rcases within among with rfl | old
    · rfl
    · exact accounted.standing host member other old
  · exact fun other held _ => (claimed other).mpr (.inr held)
  · rw [accounted.copy?_none member unclaimed]
    intro other none
    cases none
  · exact fun retired => absurd retired (not_retired sound.distinct registered)

theorem Gentle.accounted (part : Gentle True w after) (sound : w.Sound) (accounted : w.Accounted) :
    after.Accounted := by
  cases part with
  | alike alike _ => exact accounted.alike alike
  | setIds kept => exact accounted.setIds sound ((kept sound.ids).2.2 trivial)
  | install top fresh => exact accounted.install sound top fresh
  | openCopy member registered tabled apart kept =>
    obtain ⟨_,unclaimed,claimed⟩ := kept sound.ids
    exact accounted.openCopy sound (registered trivial) tabled unclaimed claimed

theorem Step.accounted (step : Step True w after) (sound : w.Sound) (accounted : w.Accounted) :
    after.Accounted := by
  cases step with
  | gentle part => exact part.accounted sound accounted
  | reschedule => exact accounted.alike (.of_records ..)
  | claim done => exact accounted.setIds sound fun _ _ held => (IdTable.claim_claimed done).mpr (.inr held)
  | change serial steady spared => exact accounted.change sound steady (spared trivial)
  | turn diff member => exact accounted.turn sound member diff
  | settle member => exact accounted.settle sound member
  | clear member => exact accounted.clear sound member
  | unloadAll => exact accounted.unloadAll

theorem Steps.accounted (steps : Steps True w after) (sound : w.Sound) (accounted : w.Accounted) :
    after.Accounted := by
  induction steps with
  | refl => exact accounted
  | tail before step ih => exact step.accounted (Steps.sound before sound) ih

theorem Reached.accounted {origin : World} (sound : origin.Sound) (accounted : origin.Accounted)
    (path : Reached Managed origin w) : w.Accounted := by
  induction path with
  | start => exact accounted
  | step before call allowed ih =>
    have sound := Reached.sound sound before
    have steps : Steps True _ _ := perform_steps sound call fun _ => allowed
    exact steps.accounted sound ih

theorem createCopy_kept (sound : w.Sound) (accounted : w.Accounted) {host : BaseMap}
    (registered : host ∈ w.maps) (request : InstanceRequest) :
    (w.createCopy host request).1.retiredCopies = w.retiredCopies ∧
      ∀ b ∈ w.maps, ∃ later ∈ (w.createCopy host request).1.maps, later.map = b.map ∧
        ∀ copy ∈ b.copies, copy ∈ later.copies := by
  rcases (createCopy_route w host request).parts with ⟨ids,_,alike,_⟩ | ⟨table,id,ids,_,_,kept,opened⟩
  · refine ⟨alike.retiredCopies,fun b member => ⟨b,?_,rfl,fun _ => id⟩⟩
    rw [alike.maps]
    exact member
  · obtain ⟨_,unclaimed,_⟩ := kept sound.ids
    have member : host ∈ w.hosts := List.mem_append_left _ registered
    rw [opened]
    refine ⟨?_,fun b among => ⟨_,List.mem_map.mpr ⟨b,among,rfl⟩,?_,?_⟩⟩
    · change w.retiredCopies ++ (host.copy? id).toList = w.retiredCopies
      rw [accounted.copy?_none member unclaimed]
      exact List.append_nil _
    · dsimp only
      split
      · rfl
      · rfl
    · dsimp only
      intro copy inside
      split
      · rw [BaseMap.copies_mapCopies,if_pos (BaseMap.isInstanceable_of_copy inside)]
        exact mem_insert_of_ne inside (accounted.vacant (List.mem_append_left _ among) unclaimed inside)
      · exact inside

-- Every world that calls lead to, in whatever order, while identifiers are managed:
-- a live copy stands in one table, and no other live copy has its identifier.
theorem managed_copies {data : CatalogData} {c : Catalog} (built : Catalog.build data = .ok c)
    (config : WorldConfig) (tiles : Terrain.TileSource) (saved : SavedState)
    (path : Reached Managed (start c config tiles saved) w) :
    (w.liveCopies.map LiveMap.instanceId).Nodup ∧
    (∀ copy ∈ w.liveCopies, copy.instanceId ≠ .base ∧ copy.instanceId ∈ w.ids.claimed ∧
      w.ids.isFree copy.instanceId = false ∧
      ∃ b ∈ w.maps, b.own.definition.kind.instanceable = true ∧
        c.definition? b.map = some b.own.definition ∧ copy.definition = b.own.definition ∧
        b.copy? copy.instanceId = some copy ∧ ∀ other ∈ w.hosts, copy ∈ other.copies → other = b) ∧
    (∀ b ∈ w.hosts, ∀ copy ∈ b.copies, copy ∈ w.liveCopies) ∧
    ∀ host ∈ w.maps, ∀ request, (w.createCopy host request).1.retiredCopies = w.retiredCopies ∧
      ∀ b ∈ w.maps, ∃ later ∈ (w.createCopy host request).1.maps, later.map = b.map ∧
        ∀ copy ∈ b.copies, copy ∈ later.copies := by
  have started := start_sound (Catalog.build_forest built) config tiles saved
  have sound := Reached.sound started path
  have accounted := Reached.accounted started (start_accounted c config tiles saved) path
  refine ⟨?_,?_,?_,fun host registered request => createCopy_kept sound accounted registered request⟩
  · rw [liveCopies_eq sound accounted,List.map_flatMap]
    exact accounted.distinct
  · intro copy live
    obtain ⟨b,member,among⟩ := (mem_liveCopies_host sound accounted).mp live
    have base := sound.bases b member
    have own := BaseMap.mem_copyIds among
    have claimed := accounted.claimed b member _ own
    obtain ⟨definition,apart⟩ := base.copies copy among
    refine ⟨apart,claimed,(sound.ids.held _ claimed).2.2,b,accounted.registered member among,?_,?_,
      definition,?_,?_⟩
    · rw [←base.tabled]
      exact BaseMap.isInstanceable_of_copy among
    · have catalog : w.catalog = c := Reached.catalog started path
      rw [←catalog]
      exact base.defined
    · unfold BaseMap.copy?
      rw [base.ascending.find?_iff fun one two first second => by simp_all [LiveMap.order]]
      exact ⟨among,beq_self_eq_true _⟩
    · intro other elsewhere there
      exact accounted.one_host member own elsewhere (BaseMap.mem_copyIds there)
  · exact fun b member copy among => (mem_liveCopies_host sound accounted).mpr ⟨b,member,among⟩

-- A copy under a fresh identifier, another map's copy under a bound one, and a
-- generated identifier that is given back.
theorem managed_copies_two :
    let data : CatalogData := {maps := [{id := ⟨36⟩, kind := .dungeon},{id := ⟨37⟩, kind := .raid}]}
    ∃ c w, Catalog.build data = .ok c ∧ Reached Managed (start c {} .none .empty) w ∧
      w.liveCopies.map LiveMap.instanceId = [⟨1⟩,⟨5⟩] ∧ (w.liveCopies.map LiveMap.instanceId).Nodup := by
  intro data
  obtain ⟨c,built⟩ : ∃ c, Catalog.build data = .ok c := ⟨_,rfl⟩
  have started : Reached Managed (start c {} .none .empty) _ := .start
  have generated := started
    |>.step (.createMap ⟨36⟩ {participant := .nil, difficulty := .normal}) trivial
    |>.step (.createMap ⟨37⟩ {participant := .nil, difficulty := .normal, bound := some ⟨5⟩}) trivial
    |>.step (.createMap ⟨36⟩ {participant := .nil, difficulty := .normal, bound := some ⟨5⟩}) trivial
    |>.step .generateId trivial
  have path := generated.step (.freeId ⟨2⟩) (by
    cases built
    show ∀ copy ∈ _, _
    decide)
  refine ⟨c,_,built,path,?_,(managed_copies built {} .none .empty path).1⟩
  cases built
  decide

end World
end LiveMaps
