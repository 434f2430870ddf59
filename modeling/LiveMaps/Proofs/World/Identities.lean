import LiveMaps.Proofs.World.Orders
import LiveMaps.Proofs.World.Replay
import LiveMaps.Proofs.World.Runs

namespace LiveMaps

namespace IdTable
variable {t after : IdTable} {id : InstanceId}

theorem returned_used (held : id.order ∈ t.space.used) (other : InstanceId) :
    id.order ∈ (t.returned other).space.used ∨ id = other := by
  unfold returned
  cases done : t.release other with
  | error e => exact .inl held
  | ok after =>
    by_cases same : id = other
    · exact .inr same
    · left
      rw [release_space done]
      exact Finset.mem_erase.mpr ⟨fun equal => same (InstanceId.order_inj.mp equal),held⟩

theorem returnedAll_used (held : id.order ∈ t.space.used) (given : List InstanceId) :
    id.order ∈ (given.foldl returned t).space.used ∨ id ∈ given := by
  induction given generalizing t with
  | nil => exact .inl held
  | cons other rest ih =>
    rcases returned_used held other with still | rfl
    · exact (ih still).imp_right (List.mem_cons_of_mem _)
    · exact .inr List.mem_cons_self

end IdTable

-- What sets an identifier of a saved copy free for others: a copy under it was destroyed
-- as idle, or the record was saved while the identifier was not in use.
inductive Exposure where
  | destroyed (id : InstanceId)
  | unused (id : InstanceId)
  deriving DecidableEq

namespace World
open IdTable
variable {w middle after : World} {host : BaseMap} {m : LiveMap} {call : WorldCall} {map : MapId}
  {request : InstanceRequest} {given : List InstanceId} {past : List Exposure}

def vacated (w : World) : WorldCall → List InstanceId
  | .update serial _ =>
    match w.host? serial with
    | some b => (b.expired w.config.unloadDelay).map LiveMap.instanceId
    | none => []
  | .advance elapsed _ =>
    if (w.schedule.timer.add elapsed).passed then
      (w.maps.flatMap (BaseMap.expired w.config.unloadDelay)).map LiveMap.instanceId
    else []
  | _ => []

def exposed (w : World) : WorldCall → List Exposure
  | .save saved =>
    (saved.instances.filter (fun r => r.order ∉ w.ids.space.used)).map (fun r => .unused r.id)
  | call => (w.vacated call).map .destroyed

def Lasting (_ : World) : WorldCall → Prop
  | .initIds _ => False
  | .freeId _ => False
  | .replay _ _ => False
  | _ => True

-- What goes on: settings, records, and what is in use but for the identifiers given back.
structure Retains (w : World) (given : List InstanceId) (after : World) : Prop where
  config : after.config = w.config
  saved : after.saved = w.saved
  used : ∀ id : InstanceId, id.order ∈ w.ids.space.used → id.order ∈ after.ids.space.used ∨ id ∈ given

theorem retains_self (w : World) : w.Retains [] w := ⟨rfl,rfl,fun _ => .inl⟩

theorem Retains.trans (first : w.Retains [] middle) (second : middle.Retains given after) : w.Retains given after where
  config := second.config.trans first.config
  saved := second.saved.trans first.saved
  used id held := second.used id ((first.used id held).resolve_right List.not_mem_nil)

theorem Retains.of_records (retains : w.Retains given after) (shutdown : Bool) (schedule : PassSchedule)
    (journal : List Event) :
    w.Retains given {after with shutdown := shutdown, schedule := schedule, journal := journal} := {retains with}

theorem retains_setIds {t : IdTable} (more : w.ids.space.used ⊆ t.space.used) :
    w.Retains [] {w with ids := t} := ⟨rfl,rfl,fun _ held => .inl (more held)⟩

theorem Touch.retains {serial : Nat} {f : LiveMap → LiveMap} (touch : Touch w serial f after) :
    w.Retains [] after := by
  cases touch with
  | absent => exact retains_self w
  | change => exact ⟨rfl,rfl,fun _ => .inl⟩

theorem Ensured.retains (ensured : Ensured w map middle host) : w.Retains [] middle := by
  rw [ensured.records]
  exact ⟨rfl,rfl,fun _ => .inl⟩

theorem CopyRoute.retains {answer : World × Except MapError LiveMap} (route : CopyRoute w host request answer)
    (valid : w.ids.Valid) : w.Retains [] answer.1 := by
  have opened {ids : IdTable} (more : w.ids.space.used ⊆ ids.space.used) (table : CopyTable) (id : InstanceId) :
      w.Retains [] ({w with ids := ids}.addCopy host table.template id request).1 :=
    ⟨rfl,rfl,fun _ held => .inl (more held)⟩
  cases route with
  | plain | joined | refused | spent => exact ⟨rfl,rfl,fun _ => .inl⟩
  | stuck _ allocated _ => exact retains_setIds (allocate_grows valid allocated)
  | bound _ _ _ claimed => exact opened (claim_grows valid claimed) _ _
  | fresh _ _ allocated claimed =>
    have taken := claim_grows (allocate_valid valid allocated) claimed
    exact opened (Finset.Subset.trans (allocate_grows valid allocated) taken) _ _

theorem createMap_retains (sound : w.Sound) (map : MapId) (request : InstanceRequest) :
    w.Retains [] (w.createMap map request).1 := by
  have route := createMap_route sound map request
  generalize w.createMap map request = answer at route ⊢
  cases route with
  | unknown => exact (retains_self w).of_records ..
  | plain ensured | nowhere ensured => exact ensured.retains
  | copy ensured _ route => exact ensured.retains.trans (route.retains (ensured.sound sound).ids)
  | failed _ _ ensured _ route =>
    exact (ensured.retains.trans (route.retains (ensured.sound sound).ids)).of_records ..

theorem createCopyOf_retains (valid : w.ids.Valid) (serial : Nat) (request : InstanceRequest) :
    w.Retains [] (w.createCopyOf serial request) := by
  unfold createCopyOf
  split
  · exact retains_self w
  · unfold createCopyAt
    split
    · exact (createCopy_route w _ request).retains valid
    · exact retains_self w

theorem generateId_retains (valid : w.ids.Valid) : w.Retains [] w.generateId.1 := by
  unfold generateId
  split
  · rename_i allocated
    exact retains_setIds (allocate_grows valid allocated)
  · dsimp only
    split
    · exact (retains_self w).of_records ..
    · exact (retains_self w).of_records ..

theorem update_retains (w : World) (serial : Nat) (diff : UInt32) :
    w.Retains (w.vacated (.update serial diff)) (w.update serial diff) := by
  simp only [vacated]
  cases found : w.host? serial with
  | some b =>
    simp only [update,found,BaseMap.primaryEffects,BaseMap.dismissAll_ids]
    exact ⟨rfl,rfl,fun _ held => returnedAll_used held _⟩
  | none => exact (update_touch found diff).retains

theorem advance_retains (sound : w.Sound) (elapsed : UInt32) (times : PassTimes) :
    w.Retains (w.vacated (.advance elapsed times)) (w.advance elapsed times).1 := by
  unfold advance
  simp only [vacated]
  split
  · rw [pass_exact sound]
    exact ⟨rfl,rfl,fun _ held => returnedAll_used held _⟩
  · exact (retains_self w).of_records ..

theorem perform_retains (sound : w.Sound) (lasting : w.Lasting call) (unsaved : ∀ saved, call ≠ .save saved) :
    w.Retains (w.vacated call) (w.perform call) := by
  cases call with
  | createMap map request => exact createMap_retains sound map request
  | createBase map =>
    simp only [perform]
    rcases createBase_cases sound map with same | ⟨root,_,_,installed⟩
    · rw [same]
      exact retains_self w
    · rw [installed]
      exact ⟨rfl,rfl,fun _ => .inl⟩
  | createCopy serial request => exact createCopyOf_retains sound.ids serial request
  | queue | setEncounter | attach | discover | load => exact (perform_touch rfl).retains
  | stopWorkers | judge | unloadAll => exact ⟨rfl,rfl,fun _ => .inl⟩
  | update serial diff => exact update_retains w serial diff
  | settle serial diff =>
    cases found : w.host? serial with
    | some b =>
      simp only [perform,settle,found]
      exact ⟨rfl,rfl,fun _ => .inl⟩
    | none => exact (settle_touch found diff).retains
  | unload serial =>
    simp only [perform,unload]
    split
    · exact ⟨rfl,rfl,fun _ => .inl⟩
    · exact ⟨rfl,rfl,fun _ => .inl⟩
  | advance elapsed times => exact advance_retains sound elapsed times
  | registerId id =>
    simp only [perform,registerId]
    split
    · exact retains_self w
    · rename_i done
      exact retains_setIds (reserve_grows done)
  | claimId id =>
    simp only [perform,claimId]
    split
    · exact retains_self w
    · rename_i done
      exact retains_setIds (claim_grows sound.ids done)
  | generateId => exact generateId_retains sound.ids
  | save saved => exact absurd rfl (unsaved saved)
  | initIds | freeId | replay => exact lasting.elim

-- Identifiers of saved copies are in use, but for those that were exposed.
def Secured (w : World) (past : List Exposure) : Prop :=
  ∀ r ∈ w.saved.instances, r.order ∈ w.ids.space.used ∨ .destroyed r.id ∈ past ∨ .unused r.id ∈ past

theorem Secured.retained (secured : w.Secured past) (retains : w.Retains given after) :
    after.Secured (given.map .destroyed ++ past) := by
  intro r member
  rw [retains.saved] at member
  rcases secured r member with held | destroyed | unused
  · refine (retains.used r.id held).imp_right fun back => .inl ?_
    exact List.mem_append_left _ (List.mem_map_of_mem back)
  · exact .inr (.inl (List.mem_append_right _ destroyed))
  · exact .inr (.inr (List.mem_append_right _ unused))

theorem perform_secured (sound : w.Sound) (secured : w.Secured past) (lasting : w.Lasting call) :
    (w.perform call).Secured (w.exposed call ++ past) := by
  cases call with
  | save saved =>
    intro r member
    by_cases held : r.order ∈ w.ids.space.used
    · exact .inl held
    · refine .inr (.inr (List.mem_append_left _ (List.mem_map.mpr ⟨r,?_,rfl⟩)))
      exact List.mem_filter.mpr ⟨member,decide_eq_true held⟩
  | _ => exact secured.retained (perform_retains sound lasting nofun)

theorem exposed_never (never : w.config.unloadDelay = 0) (call : WorldCall) (id : InstanceId) :
    .destroyed id ∉ w.exposed call := by
  have none (b : BaseMap) : b.expired w.config.unloadDelay = [] := by
    simp [BaseMap.expired,LiveMap.isExpired,never]
  have kept : w.vacated call = [] := by
    cases call with
    | update serial diff =>
      simp only [vacated]
      split
      · rw [none]
        rfl
      · rfl
    | advance elapsed times => simp [vacated,none]
    | _ => rfl
  cases call with
  | save saved => simp [exposed]
  | _ => simp [exposed,kept]

theorem CopyRoute.least (route : CopyRoute w host request (after,.ok m)) (valid : w.ids.Valid)
    (unbound : request.boundCopy? = none) : IsLeast {n | 0 < n ∧ n ∉ w.ids.space.used} m.instanceId.order := by
  cases route with
  | joined asked | bound _ asked =>
    rw [unbound] at asked
    cases asked
  | fresh _ _ allocated claimed =>
    rcases allocate_cases valid allocated with ⟨_,least,_⟩ | ⟨_,_,_,_,failed⟩
    · exact least
    · cases claimed.symm.trans failed

theorem MapRoute.least (route : MapRoute w map request (after,.ok (some m))) (sound : w.Sound)
    (unbound : request.boundCopy? = none) (copy : m.instanceId ≠ .base) :
    IsLeast {n | 0 < n ∧ n ∉ w.ids.space.used} m.instanceId.order := by
  cases route with
  | plain ensured =>
    have base := (ensured.sound sound).bases _ (List.mem_append_left _ (base?_parts ensured.found).1)
    exact absurd base.base copy
  | @copy middle host _ _ _ ensured _ route =>
    have same : middle.ids = w.ids := by rw [ensured.records]
    rw [←same]
    exact route.least (ensured.sound sound).ids unbound

-- From the replay of whatever a store can hold, along every run that goes on with the same
-- identifier table: a copy that nobody was bound to gets the least identifier that is not in
-- use, and that of a saved copy only once it was exposed.
theorem createMap_unrecorded {data : CatalogData} {c : Catalog} (built : Catalog.build data = .ok c)
    (config : WorldConfig) (tiles : Terrain.TileSource) {saved : SavedState} (stored : saved.Stored)
    (run : Noted exposed Lasting (start c config tiles saved).replaySaved.1 w past) :
    (∀ r ∈ w.saved.instances, r.order ∈ w.ids.space.used ∨ .destroyed r.id ∈ past ∨ .unused r.id ∈ past) ∧
    (∀ map request after m, request.boundCopy? = none →
      w.createMap map request = (after,.ok (some m)) → m.instanceId ≠ .base →
      IsLeast {n | 0 < n ∧ n ∉ w.ids.space.used} m.instanceId.order ∧
      ∀ r ∈ w.saved.instances, r.id = m.instanceId → .destroyed r.id ∈ past ∨ .unused r.id ∈ past) ∧
    (config.unloadDelay = 0 → ∀ id, .destroyed id ∉ past) := by
  have started := start_sound (Catalog.build_forest built) config tiles saved
  obtain ⟨t,replayed,valid,_,space⟩ := replaySaved_marks (w := start c config tiles saved) stored.numbered
  have numbered : (start c config tiles saved).replaySaved.1.Sound := by
    have parts : Gently False (start c config tiles saved) (start c config tiles saved).replaySaved.1 :=
      replay_gently _ _ (SavedState.highestId_lt _) False.elim
    exact parts.steps.sound started
  have held : w.Secured past ∧ w.config = config ∧ (config.unloadDelay = 0 → ∀ id, .destroyed id ∉ past) := by
    apply run.kept numbered
    · rw [replayed]
      refine ⟨fun r member => .inl ?_,rfl,fun _ _ => List.not_mem_nil⟩
      rw [space]
      exact List.mem_toFinset.mpr (List.mem_map_of_mem member)
    · intro w past call sound held lasting
      obtain ⟨secured,rfl,never⟩ := held
      refine ⟨perform_secured sound secured lasting,?_,fun zero id among => ?_⟩
      · cases call with
        | save => rfl
        | _ => exact (perform_retains sound lasting nofun).config
      · exact (List.mem_append.mp among).elim (exposed_never zero call id) (never zero id)
  obtain ⟨secured,_,never⟩ := held
  refine ⟨secured,fun map request after m unbound answered copy => ?_,never⟩
  have route := createMap_route (Reached.sound numbered run.reached) map request
  rw [answered] at route
  have least := route.least (Reached.sound numbered run.reached) unbound copy
  refine ⟨least,fun r member same => (secured r member).resolve_left fun used => least.1.2 ?_⟩
  rw [←same]
  exact used

theorem answered_copy {answer : World × Except MapError (Option LiveMap)} {id : InstanceId}
    (named : answer.2.map (Option.map LiveMap.instanceId) = .ok (some id)) :
    ∃ m, answer = (answer.1,.ok (some m)) ∧ m.instanceId = id := by
  obtain ⟨after,outcome⟩ := answer
  cases outcome with
  | error e => cases named
  | ok found =>
    cases found with
    | none => cases named
    | some m =>
      cases named
      exact ⟨m,rfl,rfl⟩

-- Beside a saved copy with somebody on the way in, copies come and go: their identifiers
-- are handed out again, and that of the saved copy is passed over.
theorem createMap_unrecorded_beside :
    let data : CatalogData := {maps := [{id := ⟨36⟩, kind := .dungeon}]}
    let saved := (SavedState.empty.call (.saveInstance ⟨⟨2⟩,⟨36⟩,.normal,0⟩)).1
    let request : InstanceRequest := {participant := .nil, difficulty := .normal}
    ∃ c w after m, Catalog.build data = .ok c ∧
      Noted exposed Lasting (start c {unloadDelay := 5} .none saved).replaySaved.1 w [.destroyed ⟨1⟩] ∧
      w.saved.instances = saved.instances ∧ w.createMap ⟨36⟩ request = (after,.ok (some m)) ∧ m.instanceId = ⟨3⟩ ∧
      ∀ r ∈ saved.instances, r.id ≠ m.instanceId := by
  intro data saved request
  obtain ⟨c,built⟩ : ∃ c, Catalog.build data = .ok c := ⟨_,rfl⟩
  have stored : saved.Stored := .call _ .empty
  have started : Noted exposed Lasting (start c {unloadDelay := 5} .none saved).replaySaved.1 _ _ := .start
  have run := started
    |>.step (.createMap ⟨36⟩ {request with bound := some ⟨2⟩}) trivial
    |>.step (.createMap ⟨36⟩ request) trivial
    |>.step (.queue 1 (.enter .nil)) trivial
    |>.step (.advance 10 ⟨0,0⟩) trivial
    |>.step (.advance 10 ⟨0,0⟩) trivial
    |>.step (.createMap ⟨36⟩ request) trivial
  obtain ⟨w,past,run,exposures,kept,named⟩ : ∃ w past,
      Noted exposed Lasting (start c {unloadDelay := 5} .none saved).replaySaved.1 w past ∧
      past = [.destroyed ⟨1⟩] ∧ w.saved.instances = saved.instances ∧
      (w.createMap ⟨36⟩ request).2.map (Option.map LiveMap.instanceId) = .ok (some ⟨3⟩) := by
    cases built
    exact ⟨_,_,run,by decide,by decide,by decide⟩
  subst exposures
  obtain ⟨m,answered,number⟩ := answered_copy named
  obtain ⟨_,fresh,_⟩ := createMap_unrecorded built {unloadDelay := 5} .none stored run
  obtain ⟨_,spared⟩ := fresh ⟨36⟩ request _ m rfl answered (by rw [number]; decide)
  refine ⟨c,w,_,m,built,run,kept,answered,number,fun r member same => ?_⟩
  have others : ∀ r ∈ saved.instances, r.id ≠ ⟨1⟩ := by decide
  rcases spared r (kept.symm ▸ member) same with destroyed | unused
  · exact others r member (by simpa using destroyed)
  · simp at unused

-- A saved copy that somebody went back to and that was destroyed as idle: the next copy
-- that nobody was bound to gets its identifier, with its record as it was.
theorem createMap_succeeds_saved :
    let data : CatalogData := {maps := [{id := ⟨36⟩, kind := .dungeon}]}
    let saved := (SavedState.empty.call (.saveInstance ⟨⟨1⟩,⟨36⟩,.normal,0⟩)).1
    let request : InstanceRequest := {participant := .nil, difficulty := .normal}
    ∃ c, Catalog.build data = .ok c ∧
      let w := (start c {unloadDelay := 5} .none saved).replaySaved.1
        |>.perform (.createMap ⟨36⟩ {request with bound := some ⟨1⟩})
        |>.perform (.advance 10 ⟨0,0⟩)
        |>.perform (.advance 10 ⟨0,0⟩)
      w.saved.instances = saved.instances ∧ ∃ after m, w.createMap ⟨36⟩ request = (after,.ok (some m)) ∧
        ∃ r ∈ w.saved.instances, r.id = m.instanceId := by
  intro data saved request
  obtain ⟨c,built⟩ : ∃ c, Catalog.build data = .ok c := ⟨_,rfl⟩
  refine ⟨c,built,?_⟩
  intro w
  have named : (w.createMap ⟨36⟩ request).2.map (Option.map LiveMap.instanceId) = .ok (some ⟨1⟩) := by
    cases built
    decide
  obtain ⟨m,answered,number⟩ := answered_copy named
  refine ⟨by cases built; decide,_,m,answered,?_⟩
  rw [number]
  cases built
  decide

end World
end LiveMaps
