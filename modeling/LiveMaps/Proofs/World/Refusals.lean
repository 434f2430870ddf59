import LiveMaps.Proofs.Ids.Limits
import LiveMaps.Proofs.World.Claims

namespace LiveMaps.World
variable {w middle after : World} {host : BaseMap} {map : MapId} {request : InstanceRequest}

-- What a call for a map leaves alone if it fails. It can have brought the map's family,
-- with nobody inside and without copies; all else is as it was, identifiers included.
structure Untouched (w : World) (map : MapId) (after : World) : Prop where
  ids : after.ids = w.ids
  kept : ∀ b ∈ w.maps, b ∈ after.maps
  brought : ∀ b ∈ after.maps, b ∈ w.maps ∨ w.catalog.SameFamily b.map map ∧ b.copies = [] ∧ b.own.New
  retiredMaps : after.retiredMaps = w.retiredMaps
  retiredCopies : after.retiredCopies = w.retiredCopies

theorem Untouched.of_records (untouched : w.Untouched map after) (shutdown : Bool) (journal : List Event) :
    w.Untouched map {after with shutdown := shutdown, journal := journal} := {untouched with}

theorem untouched_self (w : World) (map : MapId) : w.Untouched map w :=
  ⟨rfl,fun _ => id,fun _ => .inl,rfl,rfl⟩

theorem Ensured.ids (ensured : Ensured w map middle host) : middle.ids = w.ids := by rw [ensured.records]

theorem Ensured.untouched (ensured : Ensured w map middle host) (sound : w.Sound) : w.Untouched map middle where
  ids := ensured.ids
  kept _ := ensured.kept sound
  brought b member := by
    rcases ensured.origin sound member with old | ⟨root,d,path,below,rfl⟩
    · exact .inl old
    · obtain ⟨id,_,_,_,copies,_⟩ := w.build_parts (w.catalog.family root) d
      exact .inr ⟨⟨root,id.symm ▸ below,path⟩,copies,w.build_new _ d⟩
  retiredMaps := by rw [ensured.records]
  retiredCopies := by rw [ensured.records]

-- What the same call does where no identifier is spare and the cursor does not stand on the limit: the
-- cursor starts again at zero. Nothing comes to be used or claimed, and all else is as after any failure.
structure Wrapped (w : World) (map : MapId) (after : World) : Prop where
  cursor : after.ids.next = 0
  space : after.ids.space = {w.ids.space with length := IdTable.word + 1}
  rest : w.Untouched map {after with ids := w.ids}

-- A base map that is asked for a copy in vain has only told about it, unless it took the identifier of
-- the base maps for a fresh one and then could not claim it.
theorem CopyRoute.vain {e : MapError} (route : CopyRoute w host request (after,.error e)) (valid : w.ids.Valid) :
    (∃ journal, after = {w with journal := journal}) ∨
      request.boundCopy? = none ∧ ¬ w.ids.Spare ∧ w.ids.next ≠ w.ids.limit ∧ e = .instanceId .sentinel ∧
      after = {w with ids := w.ids.wrapped} := by
  cases route with
  | plain | refused => exact .inl ⟨w.journal,rfl⟩
  | spent journal => exact .inl ⟨journal,rfl⟩
  | stuck asked allocated failed =>
    have room := IdTable.allocate_room allocated
    rcases IdTable.allocate_cases valid allocated with ⟨_,_,_,_,ids,claimed⟩ | ⟨rfl,none,rfl,_,sentinel⟩
    · rw [failed] at claimed
      cases claimed
    · rw [failed] at sentinel
      cases sentinel
      exact .inr ⟨asked,none,room,rfl,rfl⟩

theorem Ensured.wrapped (ensured : Ensured w map middle host) (sound : w.Sound) (none : ¬ w.ids.Spare)
    (room : w.ids.next ≠ w.ids.limit) (shutdown : Bool) (journal : List Event) :
    w.Wrapped map {middle with ids := w.ids.wrapped, shutdown := shutdown, journal := journal} where
  cursor := rfl
  space := (IdTable.allocate_spent sound.ids none room).2.2.2.1
  rest := {(ensured.untouched sound).of_records shutdown journal with ids := rfl}

theorem MapRoute.failed_parts {e : MapError} (route : MapRoute w map request (after,.error e)) (sound : w.Sound) :
    w.Untouched map after ∨ request.boundCopy? = none ∧ ¬ w.ids.Spare ∧ w.ids.next ≠ w.ids.limit ∧
      e = .instanceId .sentinel ∧ w.Wrapped map after := by
  cases route with
  | unknown shutdown journal => exact .inl ((untouched_self w map).of_records shutdown journal)
  | failed shutdown journal ensured _ route =>
    rcases route.vain (ensured.sound sound).ids with ⟨told,rfl⟩ | ⟨asked,none,room,cause,rfl⟩
    · exact .inl ((ensured.untouched sound).of_records shutdown journal)
    · rw [ensured.ids] at none room ⊢
      exact .inr ⟨asked,none,room,cause,ensured.wrapped sound none room shutdown journal⟩

-- In every world that calls lead to: a call for a map that fails leaves everything as it was but the map's
-- family, and a fresh identifier can be claimed, unless all identifiers are in use and the cursor is astray.
theorem createMap_failed {data : CatalogData} {c : Catalog} (built : Catalog.build data = .ok c)
    (config : WorldConfig) (tiles : Terrain.TileSource) (saved : SavedState)
    (path : Reached (fun _ _ => True) (start c config tiles saved) w) (map : MapId) (request : InstanceRequest) :
    (∀ after e, w.createMap map request = (after,.error e) → w.Untouched map after ∨
      request.boundCopy? = none ∧ ¬ w.ids.Spare ∧ w.ids.next ≠ w.ids.limit ∧
      e = .instanceId .sentinel ∧ w.Wrapped map after) ∧
    (request.boundCopy? = none → ∀ id used, w.ids.allocate = .ok (id,used) →
      (w.ids.Spare → id ∉ w.ids.claimed ∧ ∃ ids, used.claim id = .ok ids) ∧
      (¬ w.ids.Spare → id = .base ∧ used.claim id = .error .sentinel)) := by
  have sound := Reached.sound (start_sound (Catalog.build_forest built) config tiles saved) path
  refine ⟨fun after e failed => ?_,fun asked id used allocated => ⟨fun spare => ?_,fun none => ?_⟩⟩
  · have route := createMap_route sound map request
    rw [failed] at route
    exact route.failed_parts sound
  · obtain ⟨_,least,_,_,claimed⟩ := IdTable.allocate_spare sound.ids spare allocated
    exact ⟨sound.ids.unclaimed least.1.2,claimed⟩
  · obtain ⟨ran,_,_,_,failed⟩ := IdTable.allocate_spent sound.ids none (IdTable.allocate_room allocated)
    rw [allocated] at ran
    cases ran
    exact ⟨rfl,failed⟩

-- Another map's copy is asked for, on a map that comes with the call. A fresh copy would
-- get an identifier.
theorem createMap_failed_inUse :
    let data : CatalogData := {maps := [{id := ⟨36⟩, kind := .dungeon},{id := ⟨37⟩, kind := .raid}]}
    let fresh : InstanceRequest := {participant := .nil, difficulty := .normal}
    let request := {fresh with bound := some ⟨1⟩}
    ∃ c w after, Catalog.build data = .ok c ∧ Reached (fun _ _ => True) (start c {} .none .empty) w ∧
      w.createMap ⟨37⟩ request = (after,.error (.instanceId (.inUse ⟨1⟩))) ∧
      w.registeredIds = [⟨36⟩] ∧ after.registeredIds = [⟨36⟩,⟨37⟩] ∧ w.Untouched ⟨37⟩ after ∧
      ∀ id used, w.ids.allocate = .ok (id,used) → id ∉ w.ids.claimed ∧ ∃ ids, used.claim id = .ok ids := by
  intro data fresh request
  obtain ⟨c,built⟩ : ∃ c, Catalog.build data = .ok c := ⟨_,rfl⟩
  have started : Reached (fun _ _ => True) (start c {} .none .empty) _ := .start
  have path := started
    |>.step (.createMap ⟨36⟩ fresh) trivial
    |>.step (.queue 1 (.enter .nil)) trivial
  have sound := Reached.sound (start_sound (Catalog.build_forest built) {} .none .empty) path
  obtain ⟨w,path,sound,claimed,⟨_,defined,instanceable⟩,elsewhere,before,afterwards,left⟩ : ∃ w,
      Reached (fun _ _ => True) (start c {} .none .empty) w ∧ w.Sound ∧ ⟨1⟩ ∈ w.ids.claimed ∧
      (∃ d, w.catalog.definition? ⟨37⟩ = some d ∧ d.kind.instanceable = true) ∧
      (∀ b ∈ w.maps, b.map = ⟨37⟩ → (⟨1⟩ : InstanceId) ∉ b.copyIds) ∧
      w.registeredIds = [⟨36⟩] ∧ (w.createMap ⟨37⟩ request).1.registeredIds = [⟨36⟩,⟨37⟩] ∧
      2 ∉ w.ids.space.used := by
    cases built
    exact ⟨_,path,sound,by decide,⟨_,rfl,rfl⟩,by decide,by decide,by decide,by decide⟩
  have failed : w.createMap ⟨37⟩ request = ((w.createMap ⟨37⟩ request).1,.error (.instanceId (.inUse ⟨1⟩))) :=
    Prod.ext rfl ((createMap_inUse sound defined instanceable rfl (by decide)).mpr ⟨claimed,elsewhere⟩)
  obtain ⟨refused,_⟩ := createMap_failed built {} .none .empty path ⟨37⟩ request
  obtain ⟨_,unlost⟩ := createMap_failed built {} .none .empty path ⟨36⟩ fresh
  refine ⟨c,w,_,built,path,failed,before,afterwards,?_,fun id used allocated => ?_⟩
  · rcases refused _ _ failed with untouched | ⟨asked,_⟩
    · exact untouched
    · cases asked
  · exact (unlost rfl id used allocated).1 ⟨⟨2⟩,by decide,left⟩

theorem createCopy_astray (w : World) (tabled : host.isInstanceable = true) (asked : request.boundCopy? = none)
    (valid : w.ids.Valid) (none : ¬ w.ids.Spare) (room : w.ids.next ≠ w.ids.limit) :
    w.createCopy host request = ({w with ids := w.ids.wrapped},.error (.instanceId .sentinel)) := by
  obtain ⟨allocated,_,_,_,failed⟩ := IdTable.allocate_spent valid none room
  unfold createCopy
  cases table : host.table with
  | none => simp [BaseMap.isInstanceable,table] at tabled
  | some table => simp only [asked,takeFreshId,allocated,failed]

theorem createMap_astray (sound : w.Sound) {d : MapDefinition} (defined : w.catalog.definition? map = some d)
    (instanceable : d.kind.instanceable = true) (asked : request.boundCopy? = none) (none : ¬ w.ids.Spare)
    (room : w.ids.next ≠ w.ids.limit) :
    ∃ after, w.createMap map request = (after,.error (.instanceId .sentinel)) ∧ w.Wrapped map after := by
  obtain ⟨middle,host,ran,ensured⟩ := createBase_ensured sound defined
  obtain ⟨known,same,kind⟩ := ensured.kind sound
  rw [defined] at same
  cases same
  have tabled : host.isInstanceable = true := kind.symm.trans instanceable
  have wrapped := ensured.wrapped sound none room middle.shutdown middle.journal
  refine ⟨_,?_,wrapped⟩
  rw [←ensured.ids] at none room ⊢
  let offered : InstanceRequest := {request with
    difficulty := (middle.catalog.downscale map request.difficulty).getD request.difficulty }
  have failed : middle.createCopy host offered = _ :=
    createCopy_astray middle tabled asked (ensured.sound sound).ids none room
  unfold createMap resolve
  rw [ran]
  simp only [tabled,if_true]
  rw [failed]
  rfl

theorem perform_registerId (w : World) (id : InstanceId) :
    w.perform (.registerId id) = {w with ids := (w.ids.call (.reserve id)).1} := by
  simp only [perform,registerId,IdTable.call]
  cases w.ids.reserve id <;> rfl

theorem Reached.countdown {origin : World} (path : Reached (fun _ _ => True) origin w) (n : Nat) :
    Reached (fun _ _ => True) origin {w with ids := (IdCall.run IdTable.call w.ids (IdCall.countdown n)).1} := by
  induction n generalizing w with
  | zero => exact path
  | succ n ih =>
    have next := path.step (.registerId (.ofNat (n + 1))) trivial
    rw [perform_registerId] at next
    exact ih next

-- The table is sized for the largest identifier, and all are reserved from that one down: the cursor is
-- left on the second, which is in use.
theorem Reached.used_up {origin : World} (path : Reached (fun _ _ => True) origin w) :
    ∃ t, Reached (fun _ _ => True) origin {w with ids := t} ∧ t.limit = IdTable.largestId ∧ t.next = 2 ∧ ¬ t.Spare := by
  have small : IdTable.largestId < IdTable.word := by decide
  have inside : IdTable.largestId < (IdTable.sized IdTable.largestId).capacity := by
    rw [IdTable.sized,IdTable.limited_capacity]
    omega
  obtain ⟨t,answers,ran,limit,_,cursor,all⟩ := IdTable.countdown_run (IdTable.sized_valid small) rfl inside small
  have next := (path.step (.initIds 0xffffffff) trivial).countdown IdTable.largestId
  rw [show w.perform (.initIds 0xffffffff) = {w with ids := .sized IdTable.largestId} from rfl,ran] at next
  refine ⟨t,next,limit,cursor (by decide),?_⟩
  rintro ⟨id,proper,unused⟩
  have named := id.order_lt
  exact unused (all id.order (.inr ⟨InstanceId.order_pos.mpr proper,Nat.le_of_lt_succ named⟩))

theorem createMap_failed_wrapped :
    let data : CatalogData := {maps := [{id := ⟨36⟩, kind := .dungeon}]}
    let fresh : InstanceRequest := {participant := .nil, difficulty := .normal}
    ∃ c w after used, Catalog.build data = .ok c ∧ Reached (fun _ _ => True) (start c {} .none .empty) w ∧
      w.createMap ⟨36⟩ fresh = (after,.error (.instanceId .sentinel)) ∧ w.ids.next = 2 ∧ after.ids.next = 0 ∧
      w.ids.allocate = .ok (.base,used) ∧ used.claim .base = .error .sentinel := by
  intro data fresh
  obtain ⟨c,built,defined⟩ : ∃ c, Catalog.build data = .ok c ∧ ∃ d, c.definition? ⟨36⟩ = some d ∧ d.kind = .dungeon :=
    ⟨_,rfl,_,rfl,rfl⟩
  obtain ⟨d,defined,kind⟩ := defined
  have started : Reached (fun _ _ => True) (start c {} .none .empty) _ := .start
  obtain ⟨t,path,limit,cursor,none⟩ := started.used_up
  have sound := Reached.sound (start_sound (Catalog.build_forest built) {} .none .empty) path
  have room : t.next ≠ t.limit := by
    rw [cursor,limit]
    decide
  obtain ⟨after,failed,wrapped⟩ :=
    createMap_astray sound defined (by rw [kind]; rfl) (show fresh.boundCopy? = _ from rfl) none room
  obtain ⟨allocated,_,_,_,unclaimed⟩ := IdTable.allocate_spent sound.ids none room
  exact ⟨c,_,after,_,built,path,failed,cursor,wrapped.cursor,allocated,unclaimed⟩

end LiveMaps.World
