import LiveMaps.Proofs.World.Runs

namespace LiveMaps

structure Fault where
  call : WorldCall
  error : MapError

namespace Fault

-- The calls that look at the errors they are answered with.
def heeded (f : Fault) : Bool :=
  match f.call with
  | .createMap _ _ => true
  | .generateId => true
  | _ => false

def stops (f : Fault) : Bool := f.heeded && f.error.isFatal

end Fault

namespace World

def failure? : Except ε α → Option ε
  | .error e => some e
  | .ok _ => none

def fault? (w : World) : WorldCall → Option MapError
  | .createBase map => failure? (w.createBase map).2
  | .createMap map request => failure? (w.createMap map request).2
  | .generateId => (failure? w.generateId.2).map .instanceId
  | _ => none

def faults (w : World) (call : WorldCall) : List Fault := ((w.fault? call).map (Fault.mk call)).toList

variable {w : World} {call : WorldCall} {past : List Fault}

theorem mem_faults {f : Fault} : f ∈ w.faults call ↔ f.call = call ∧ w.fault? call = some f.error := by
  obtain ⟨own,error⟩ := f
  simp only [faults,Option.mem_toList,Option.map_eq_some_iff,Fault.mk.injEq]
  constructor
  · rintro ⟨e,failed,rfl,rfl⟩
    exact ⟨rfl,failed⟩
  · rintro ⟨rfl,failed⟩
    exact ⟨error,failed,rfl,rfl⟩

theorem ensure_shutdown (depth : Nat) (w : World) (map : MapId) : (ensure depth w map).1.shutdown = w.shutdown := by
  induction depth generalizing map with
  | zero =>
    unfold ensure
    split
    · rfl
    · split
      · rfl
      · split <;> rfl
  | succ depth ih =>
    unfold ensure
    split
    · rfl
    · split
      · rfl
      · split
        · rfl
        · rename_i parent _
          have above := ih parent
          dsimp only
          split
          · rename_i ran
            rwa [ran] at above
          · rename_i ran
            rw [ran] at above
            split <;> exact above

theorem createBase_shutdown (w : World) (map : MapId) : (w.createBase map).1.shutdown = w.shutdown := by
  have ensured := ensure_shutdown w.catalog.definitions.length w map
  unfold createBase
  split
  · rename_i ran
    rwa [ran] at ensured
  · rename_i ran
    rw [ran] at ensured
    split <;> exact ensured

theorem createCopy_shutdown (w : World) (host : BaseMap) (request : InstanceRequest) :
    (w.createCopy host request).1.shutdown = w.shutdown := by
  have route := createCopy_route w host request
  generalize w.createCopy host request = answer at route ⊢
  cases route with
  | plain | joined | refused | bound | spent | stuck | fresh => rfl

theorem resolve_shutdown (w : World) (map : MapId) (request : InstanceRequest) :
    (w.resolve map request).1.shutdown = w.shutdown := by
  have based := createBase_shutdown w map
  unfold resolve
  split
  · rename_i ran
    rwa [ran] at based
  · rename_i middle b ran
    rw [ran] at based
    split
    · have copied := createCopy_shutdown middle b
        {request with difficulty := (middle.catalog.downscale map request.difficulty).getD request.difficulty}
      dsimp only
      split
      · rename_i ran
        rw [ran] at copied
        exact copied.trans based
      · rename_i ran
        rw [ran] at copied
        exact copied.trans based
    · exact based

theorem createMap_shutdown (w : World) (map : MapId) (request : InstanceRequest) :
    (w.createMap map request).1.shutdown =
      (w.shutdown || (failure? (w.createMap map request).2).any MapError.isFatal) := by
  have resolved := resolve_shutdown w map request
  unfold createMap
  split
  · rename_i e ran
    rw [ran] at resolved
    cases fatal : e.isFatal with
    | true => simp [requestShutdown,tell,failure?,fatal]
    | false => simpa [failure?,fatal] using resolved
  · rename_i ran
    rw [ran] at resolved
    simpa [failure?] using resolved

theorem generateId_shutdown (w : World) :
    w.generateId.1.shutdown = (w.shutdown || ((failure? w.generateId.2).map MapError.instanceId).any MapError.isFatal) := by
  unfold generateId
  cases allocated : w.ids.allocate with
  | ok fresh => simp [failure?]
  | error e =>
    have exhausted : e = .exhausted := by
      unfold IdTable.allocate at allocated
      split at allocated
      · exact (Except.error.inj allocated).symm
      · cases allocated
    subst exhausted
    simp [requestShutdown,tell,failure?,MapError.isFatal]

theorem update_shutdown (w : World) (serial : Nat) (diff : UInt32) : (w.update serial diff).shutdown = w.shutdown := by
  unfold update
  split
  · rfl
  · split <;> rfl

theorem settle_shutdown (w : World) (serial : Nat) (diff : UInt32) : (w.settle serial diff).shutdown = w.shutdown := by
  unfold settle
  split
  · rfl
  · split <;> rfl

theorem foldl_shutdown {visit : World → α → World} (each : ∀ w entry, (visit w entry).shutdown = w.shutdown)
    (entries : List α) (w : World) : (entries.foldl visit w).shutdown = w.shutdown := by
  induction entries generalizing w with
  | nil => rfl
  | cons entry rest ih => exact (ih _).trans (each w entry)

theorem advance_shutdown (w : World) (elapsed : UInt32) (times : PassTimes) :
    (w.advance elapsed times).1.shutdown = w.shutdown := by
  unfold advance
  dsimp only
  split
  · apply Eq.trans (foldl_shutdown (fun w serial => settle_shutdown w serial _) _ _)
    exact foldl_shutdown (fun w serial => update_shutdown w serial _) _ _
  · rfl

theorem registerId_shutdown (w : World) (id : InstanceId) : (w.registerId id).1.shutdown = w.shutdown := by
  unfold registerId
  split <;> rfl

theorem registerAll_shutdown (saved : List InstanceId) (w : World) :
    (w.registerAll saved).1.shutdown = w.shutdown := by
  induction saved generalizing w with
  | nil => rfl
  | cons id rest ih =>
    have first := registerId_shutdown w id
    unfold registerAll
    split
    · rename_i ran
      rwa [ran] at first
    · rename_i ran
      rw [ran] at first
      exact (ih _).trans first

theorem replay_shutdown (w : World) (saved : List InstanceId) (highest : Nat) :
    (w.replay saved highest).1.shutdown = w.shutdown := by
  have marked := registerAll_shutdown saved (w.initIds highest)
  unfold replay
  split
  · rename_i ran
    rwa [ran] at marked
  · rename_i ran
    rw [ran] at marked
    exact marked

theorem createCopyOf_shutdown (w : World) (serial : Nat) (request : InstanceRequest) :
    (w.createCopyOf serial request).shutdown = w.shutdown := by
  unfold createCopyOf
  split
  · rfl
  · unfold createCopyAt
    split
    · exact createCopy_shutdown w _ request
    · rfl

-- The request comes with an error that is heeded and fatal, and with nothing else. Nothing takes it back.
theorem perform_shutdown (w : World) (call : WorldCall) :
    (w.perform call).shutdown = (w.shutdown || (w.faults call).any Fault.stops) := by
  have unheeded (same : (w.perform call).shutdown = w.shutdown)
      (careless : ∀ error, (Fault.mk call error).stops = false) :
      (w.perform call).shutdown = (w.shutdown || (w.faults call).any Fault.stops) := by
    rw [same]
    cases failed : w.fault? call with
    | none => simp [faults,failed]
    | some e => simp [faults,failed,careless]
  cases call with
  | createMap map request =>
    have stopped := createMap_shutdown w map request
    cases failed : failure? (w.createMap map request).2 with
    | none => simpa [perform,faults,fault?,failed] using stopped
    | some e => simpa [perform,faults,fault?,failed,Fault.stops,Fault.heeded] using stopped
  | generateId =>
    have stopped := generateId_shutdown w
    cases failed : failure? w.generateId.2 with
    | none => simpa [perform,faults,fault?,failed] using stopped
    | some e => simpa [perform,faults,fault?,failed,Fault.stops,Fault.heeded] using stopped
  | createBase map => exact unheeded (createBase_shutdown w map) fun _ => rfl
  | createCopy serial request => exact unheeded (createCopyOf_shutdown w serial request) fun _ => rfl
  | queue | setEncounter | attach | stopWorkers | judge | initIds | save | unloadAll =>
    exact unheeded rfl fun _ => rfl
  | discover serial =>
    refine unheeded ?_ fun _ => rfl
    simp only [perform,discover]
    split <;> rfl
  | load serial =>
    refine unheeded ?_ fun _ => rfl
    simp only [perform,load]
    split <;> rfl
  | update serial diff => exact unheeded (update_shutdown w serial diff) fun _ => rfl
  | settle serial diff => exact unheeded (settle_shutdown w serial diff) fun _ => rfl
  | unload serial =>
    refine unheeded ?_ fun _ => rfl
    simp only [perform,unload]
    split <;> rfl
  | advance elapsed times => exact unheeded (advance_shutdown w elapsed times) fun _ => rfl
  | registerId id => exact unheeded (registerId_shutdown w id) fun _ => rfl
  | claimId id =>
    refine unheeded ?_ fun _ => rfl
    simp only [perform,claimId]
    split <;> rfl
  | freeId id =>
    refine unheeded ?_ fun _ => rfl
    simp only [perform,freeId]
    split <;> rfl
  | replay saved highest => exact unheeded (replay_shutdown w saved highest.toNat) fun _ => rfl

theorem Reached.shutdown {allowed : World → WorldCall → Prop} {later : World} (path : Reached allowed w later)
    (stopped : w.shutdown = true) : later.shutdown = true := by
  induction path with
  | start => exact stopped
  | step _ call _ ih => rw [perform_shutdown,ih,Bool.true_or]

theorem createBase_fault (sound : w.Sound) {map : MapId} {e : MapError}
    (failed : w.fault? (.createBase map) = some e) :
    e = .catalog (.unknownMap map) ∧ w.catalog.definition? map = none := by
  cases defined : w.catalog.definition? map with
  | none =>
    simp only [fault?,createBase_unknown sound defined,failure?,Option.some.injEq] at failed
    exact ⟨failed.symm,rfl⟩
  | some d =>
    obtain ⟨middle,host,ran,_⟩ := createBase_ensured sound defined
    simp [fault?,ran,failure?] at failed

theorem Noted.shutdown {allowed : World → WorldCall → Prop} {origin : World}
    (run : Noted faults allowed origin w past) (running : origin.shutdown = false) :
    w.shutdown = past.any Fault.stops := by
  induction run with
  | start => exact running
  | step _ call _ ih => rw [perform_shutdown,ih,List.any_append,Bool.or_comm]

-- The errors that nobody looks at are those of base maps without a definition.
theorem Noted.unheeded {allowed : World → WorldCall → Prop} {origin : World}
    (run : Noted faults allowed origin w past) (sound : origin.Sound) :
    ∀ f ∈ past, f.heeded = false → ∃ map, f = ⟨.createBase map,.catalog (.unknownMap map)⟩ ∧
      origin.catalog.definition? map = none := by
  induction run with
  | start => exact List.forall_mem_nil _
  | @step w past before call _ ih =>
    intro f member careless
    rcases List.mem_append.mp member with new | old
    · obtain ⟨rfl,failed⟩ := mem_faults.mp new
      obtain ⟨call,e⟩ := f
      cases call with
      | createBase map =>
        obtain ⟨rfl,undefined⟩ := createBase_fault (Reached.sound sound before.reached) failed
        rw [Reached.catalog sound before.reached] at undefined
        exact ⟨map,rfl,undefined⟩
      | createMap | generateId => cases careless
      | _ => cases failed
    · exact ih f old careless

-- The world is to stop exactly if an earlier call for a map or for an identifier was answered with a fatal
-- error, and stays so whatever is called later.
theorem shutdown_latched {data : CatalogData} {c : Catalog} (built : Catalog.build data = .ok c)
    (config : WorldConfig) (tiles : Terrain.TileSource) (saved : SavedState)
    (run : Noted faults (fun _ _ => True) (start c config tiles saved) w past) :
    (w.shutdown = true ↔ ∃ f ∈ past, f.heeded = true ∧ f.error.isFatal = true) ∧
    w.exitCode? = (if ∃ f ∈ past, f.heeded = true ∧ f.error.isFatal = true then some 1 else none) ∧
    (w.shutdown = true → ∀ later, Reached (fun _ _ => True) w later → later.shutdown = true) ∧
    ∀ f ∈ past, f.heeded = false ↔ ∃ map, f = ⟨.createBase map,.catalog (.unknownMap map)⟩ ∧
      f.error.isFatal = true ∧ c.definition? map = none := by
  have stopped : w.shutdown = true ↔ ∃ f ∈ past, f.heeded = true ∧ f.error.isFatal = true := by
    rw [run.shutdown rfl,List.any_eq_true]
    simp only [Fault.stops,Bool.and_eq_true]
  refine ⟨stopped,?_,?_,?_⟩
  · simp only [exitCode?,stopped]
  · intro latched later path
    exact path.shutdown latched
  · intro f member
    constructor
    · intro careless
      have sound := start_sound (Catalog.build_forest built) config tiles saved
      obtain ⟨map,rfl,undefined⟩ := run.unheeded sound f member careless
      exact ⟨map,rfl,rfl,undefined⟩
    · rintro ⟨map,rfl,_⟩
      rfl

-- A base map without a definition, another map's identifier and a map without a definition are asked for
-- one after another. Only the last one stops the world.
theorem shutdown_latched_last :
    let data : CatalogData := {maps := [{id := ⟨36⟩, kind := .dungeon},{id := ⟨37⟩, kind := .raid}]}
    let fresh : InstanceRequest := {participant := .nil, difficulty := .normal}
    ∃ c early late past all, Catalog.build data = .ok c ∧
      early = ((((start c {} .none .empty).perform (.createBase ⟨99⟩)).perform (.createMap ⟨36⟩ fresh)).perform
        .generateId).perform (.createMap ⟨37⟩ {fresh with bound := some ⟨1⟩}) ∧
      late = ((early.perform (.createMap ⟨99⟩ fresh)).perform (.replay [⟨1⟩] 3)).perform .unloadAll ∧
      Noted faults (fun _ _ => True) (start c {} .none .empty) early past ∧
      past.map Fault.error = [.instanceId (.inUse ⟨1⟩),.catalog (.unknownMap ⟨99⟩)] ∧
      early.exitCode? = none ∧
      Noted faults (fun _ _ => True) (start c {} .none .empty) late all ∧
      all.map Fault.error =
        [.catalog (.unknownMap ⟨99⟩),.instanceId (.inUse ⟨1⟩),.catalog (.unknownMap ⟨99⟩)] ∧
      late.shutdown = true ∧ late.exitCode? = some 1 := by
  intro data fresh
  obtain ⟨c,built⟩ : ∃ c, Catalog.build data = .ok c := ⟨_,rfl⟩
  have started : Noted faults (fun _ _ => True) (start c {} .none .empty) _ _ := .start
  have early := started
    |>.step (.createBase ⟨99⟩) trivial
    |>.step (.createMap ⟨36⟩ fresh) trivial
    |>.step .generateId trivial
    |>.step (.createMap ⟨37⟩ {fresh with bound := some ⟨1⟩}) trivial
  have late := early
    |>.step (.createMap ⟨99⟩ fresh) trivial
    |>.step (.replay [⟨1⟩] 3) trivial
    |>.step .unloadAll trivial
  have running := (shutdown_latched built {} .none .empty early).2.1
  obtain ⟨latched,code,_⟩ := shutdown_latched built {} .none .empty late
  cases built
  refine ⟨_,_,_,_,_,rfl,rfl,rfl,early,by decide +kernel,?_,late,by decide +kernel,?_,?_⟩
  · exact running.trans (by decide +kernel)
  · exact latched.mpr (by decide +kernel)
  · exact code.trans (by decide +kernel)

-- Asking for a base map that has no definition is answered with a fatal error and stops nothing.
theorem createBase_unheeded :
    ∃ c w, Catalog.build {maps := [{id := ⟨0⟩, kind := .common}]} = .ok c ∧
      Noted faults (fun _ _ => True) (start c {} .none .empty) w
        [⟨.createBase ⟨99⟩,.catalog (.unknownMap ⟨99⟩)⟩] ∧
      MapError.isFatal (.catalog (.unknownMap ⟨99⟩)) = true ∧ w.shutdown = false ∧ w.exitCode? = none := by
  obtain ⟨c,built⟩ : ∃ c, Catalog.build {maps := [{id := ⟨0⟩, kind := .common}]} = .ok c := ⟨_,rfl⟩
  have started : Noted faults (fun _ _ => True) (start c {} .none .empty) _ _ := .start
  have path := started.step (.createBase ⟨99⟩) trivial
  cases built
  exact ⟨_,_,rfl,path,rfl,rfl,rfl⟩

end World
end LiveMaps
