import LiveMaps.Proofs.World.Routes
import LiveMaps.Admission.Rules
import Mathlib.Logic.Relation

namespace LiveMaps

-- Everything that can be called on a world. Running maps are named by serial, so
-- that maps which have been dropped are called as well.
inductive WorldCall where
  | createBase (map : MapId)
  | createMap (map : MapId) (request : InstanceRequest)
  | createCopy (serial : Nat) (request : InstanceRequest)
  | queue (serial : Nat) (transfer : Transfer)
  | setEncounter (serial : Nat) (running : Bool)
  | attach (serial child : Nat)
  | discover (serial : Nat)
  | load (serial : Nat)
  | update (serial : Nat) (diff : UInt32)
  | settle (serial : Nat) (diff : UInt32)
  | unload (serial : Nat)
  | advance (elapsed : UInt32) (times : PassTimes)
  | stopWorkers
  | judge (map : MapId) (participant : ParticipantState) (login : Bool)
  | initIds (highest : UInt32)
  | registerId (id : InstanceId)
  | claimId (id : InstanceId)
  | freeId (id : InstanceId)
  | generateId
  | replay (saved : List InstanceId) (highest : UInt32)
  | save (saved : SavedState)
  | unloadAll

namespace World
open Ordered

def createCopyOf (w : World) (serial : Nat) (request : InstanceRequest) : World :=
  match w.live? serial with
  | none => w
  | some m => (w.createCopyAt m request).1

def perform (w : World) : WorldCall → World
  | .createBase map => (w.createBase map).1
  | .createMap map request => (w.createMap map request).1
  | .createCopy serial request => w.createCopyOf serial request
  | .queue serial transfer => w.queue serial transfer
  | .setEncounter serial running => w.setEncounter serial running
  | .attach serial child => w.attach serial child
  | .discover serial => w.discover serial
  | .load serial => w.load serial
  | .update serial diff => w.update serial diff
  | .settle serial diff => w.settle serial diff
  | .unload serial => w.unload serial
  | .advance elapsed times => (w.advance elapsed times).1
  | .stopWorkers => w.stopWorkers
  | .judge map participant login => (w.judge map participant login).1
  | .initIds highest => w.initIds highest.toNat
  | .registerId id => (w.registerId id).1
  | .claimId id => (w.claimId id).1
  | .freeId id => (w.freeId id).1
  | .generateId => w.generateId.1
  | .replay saved highest => (w.replay saved highest.toNat).1
  | .save saved => {w with saved := saved}
  | .unloadAll => w.unloadAll

inductive Reached (allowed : World → WorldCall → Prop) (origin : World) : World → Prop where
  | start : Reached allowed origin origin
  | step {w} : Reached allowed origin w → ∀ call, allowed w call → Reached allowed origin (w.perform call)

inductive Noted {α : Type} (note : World → WorldCall → List α) (allowed : World → WorldCall → Prop)
    (origin : World) : World → List α → Prop where
  | start : Noted note allowed origin origin []
  | step {w : World} {past : List α} : Noted note allowed origin w past → ∀ call, allowed w call →
      Noted note allowed origin (w.perform call) (note w call ++ past)

-- Copies whose content has not gone, in a table or not.
def liveCopies (w : World) : List LiveMap :=
  w.live.filter (fun m => !m.instanceId.isBase && !m.unloaded)

-- Callers give an identifier back only once no live copy has it, size the table
-- anew only while no copy is live, and leave the unloading of a single copy to its
-- base map. Copies are asked for of registered maps.
def Managed (w : World) : WorldCall → Prop
  | .createCopy serial _ => ∀ b ∈ w.retiredMaps, b.serial ≠ serial
  | .unload serial => ∀ copy ∈ w.liveCopies, copy.serial ≠ serial
  | .initIds _ => w.liveCopies = []
  | .replay _ _ => w.liveCopies = []
  | .freeId id => ∀ copy ∈ w.liveCopies, copy.instanceId ≠ id
  | _ => True

-- The parts of a call by which no running map changes and no time goes by: what stands
-- beside the maps, a table with no more claims than before, a new family, a new copy. What
-- callers have to see to is asked for only if they are `managed`.
inductive Gentle (managed : Prop) (w : World) : World → Prop where
  | alike {after} : Alike w after → after.schedule.timer = w.schedule.timer → Gentle managed w after
  | setIds {ids} : (w.ids.Valid → ids.Valid ∧ (∀ id ∈ ids.claimed, id ∈ w.ids.claimed) ∧
      (managed → ∀ copy ∈ w.liveCopies, copy.instanceId ∈ w.ids.claimed → copy.instanceId ∈ ids.claimed)) →
      Gentle managed w {w with ids := ids}
  | install {root} : w.catalog.RootOf root root → root ∉ w.registeredIds →
      Gentle managed w (w.install root)
  | openCopy {host table id request ids} : host ∈ w.hosts → (managed → host ∈ w.maps) →
      host.table = some table → id ≠ .base →
      (w.ids.Valid → ids.Valid ∧ id ∉ w.ids.claimed ∧
        ∀ other, other ∈ ids.claimed ↔ other = id ∨ other ∈ w.ids.claimed) →
      Gentle managed w ({w with ids := ids}.addCopy host table.template id request).1

abbrev Gently (managed : Prop) : World → World → Prop := Relation.ReflTransGen (Gentle managed)

-- All that a call does to running maps and identifiers, in its parts.
inductive Step (managed : Prop) (w : World) : World → Prop where
  | gentle {after} : Gentle managed w after → Step managed w after
  | reschedule (schedule) : Step managed w {w with schedule := schedule}
  | claim {id ids} : w.ids.claim id = .ok ids → Step managed w {w with ids := ids}
  | change {f} (serial) : LiveMap.Steady f →
      (managed → ∀ copy ∈ w.liveCopies, copy.serial = serial → (f copy).unloaded = false) →
      Step managed w (w.modify serial f)
  | turn {b} (diff) : b ∈ w.hosts → Step managed w
      {w.modifyHost b.serial (BaseMap.primary w.config.unloadDelay diff) with
        ids := (BaseMap.dismissAll b.map w.ids (b.expired w.config.unloadDelay)).1
        retiredCopies := w.retiredCopies ++ (b.expired w.config.unloadDelay).map LiveMap.unload }
  | settle {b} : b ∈ w.hosts → Step managed w (w.modifyHost b.serial BaseMap.delayed)
  | clear {b} : b ∈ w.hosts → Step managed w
      {w.modifyHost b.serial BaseMap.unload with
        retiredCopies := w.retiredCopies ++ b.copies.map LiveMap.unload }
  | unloadAll : Step managed w w.unloadAll

abbrev Steps (managed : Prop) : World → World → Prop := Relation.ReflTransGen (Step managed)

def gentle : WorldCall → Bool
  | .createBase _ => true
  | .createMap _ _ => true
  | .createCopy _ _ => true
  | .stopWorkers => true
  | .judge _ _ _ => true
  | .initIds _ => true
  | .registerId _ => true
  | .freeId _ => true
  | .generateId => true
  | .replay _ _ => true
  | .save _ => true
  | _ => false

-- A map that is changed in place, which may be told. One that does not run is not changed.
inductive Touch (w : World) (serial : Nat) (f : LiveMap → LiveMap) : World → Prop where
  | absent : w.live? serial = none → Touch w serial f w
  | change (journal) : LiveMap.Steady f → (∀ m, (f m).unloaded = m.unloaded) →
      Touch w serial f {w.modify serial f with journal := journal}

def touch? (w : World) : WorldCall → Option (Nat × (LiveMap → LiveMap))
  | .queue serial transfer => some (serial,(LiveMap.queue · transfer))
  | .setEncounter serial running => some (serial,(LiveMap.setEncounter · running))
  | .attach serial child => some (serial,LiveMap.attach child)
  | .discover serial => some (serial,LiveMap.discover w.tiles)
  | .load serial => some (serial,LiveMap.load w.saved)
  | _ => none

variable {managed : Prop} {w after : World} {b : BaseMap} {call : WorldCall} {map root : MapId}
  {serial : Nat} {f : LiveMap → LiveMap}

theorem mem_liveCopies {copy : LiveMap} : copy ∈ w.liveCopies ↔
    copy ∈ w.live ∧ copy.instanceId ≠ .base ∧ copy.unloaded = false := by
  simp only [liveCopies,List.mem_filter,Bool.and_eq_true,Bool.not_eq_true',InstanceId.isBase_eq_false]

theorem dismiss_cases (map : MapId) (ids : IdTable) (copy : LiveMap) :
    ids.release copy.instanceId = .ok (BaseMap.dismiss map ids copy).1 ∨
      (BaseMap.dismiss map ids copy).1 = ids := by
  unfold BaseMap.dismiss
  split
  · rename_i done
    exact .inl done
  · exact .inr rfl

theorem dismissAll_valid {ids : IdTable} (valid : ids.Valid) (map : MapId) (copies : List LiveMap) :
    (BaseMap.dismissAll map ids copies).1.Valid := by
  induction copies generalizing ids with
  | nil => exact valid
  | cons copy rest ih =>
    rcases dismiss_cases map ids copy with done | same
    · exact ih (IdTable.release_valid valid done)
    · exact ih (same.symm ▸ valid)

theorem Gentle.sound (part : Gentle managed w after) (sound : w.Sound) : after.Sound := by
  cases part with
  | alike alike _ => exact sound.alike alike
  | setIds kept => exact sound.setIds (kept sound.ids).1
  | install top fresh => exact install_sound sound top fresh
  | @openCopy host table id request ids member _ tabled apart kept =>
    have base := sound.bases host member
    have tabled := BaseMap.isInstanceable_of_table tabled
    let copy := ({w with ids := ids}.addCopy host table.template id request).2
    have fine : (host.mapCopies (insert LiveMap.order copy)).Sound w.catalog :=
      base.insert tabled rfl apart
    have done := sound.rehost member (BaseMap.mapCopies (insert LiveMap.order copy)) _ [w.born]
      (w.born + 1) ids (fun _ => rfl) fine (BaseMap.serials_insert copy base.ascending tabled)
      (List.nodup_singleton _) (Nat.le_succ _) (fun serial new => by simp_all) (kept sound.ids).1
    exact done.alike ⟨rfl,rfl,rfl,rfl,rfl,rfl⟩

theorem Step.sound (step : Step managed w after) (sound : w.Sound) : after.Sound := by
  cases step with
  | gentle part => exact part.sound sound
  | reschedule => exact sound.alike (.of_records ..)
  | claim done => exact sound.setIds (IdTable.claim_valid sound.ids done)
  | change serial steady => exact sound.modify steady serial
  | @turn b diff member =>
    have kept := b.serials_primary w.config.unloadDelay diff
    exact sound.rehost member (BaseMap.primary w.config.unloadDelay diff) _ [] w.born _ (fun _ => rfl)
      ((sound.bases b member).primary _ diff) kept .nil (Nat.le_refl _) (fun _ none => by cases none)
      (dismissAll_valid sound.ids _ _)
  | @settle b member =>
    have kept : b.delayed.serials = b.serials := b.serials_mapAll LiveMap.settle_steady
    have done := sound.rehost member BaseMap.delayed [] [] w.born w.ids (fun _ => rfl)
      ((sound.bases b member).mapAll LiveMap.settle_steady) (by simp [kept]) .nil (Nat.le_refl _)
      (fun _ none => by cases none) sound.ids
    exact done.alike ⟨rfl,rfl,rfl,(List.append_nil _).symm,rfl,rfl⟩
  | @clear b member =>
    exact sound.rehost member BaseMap.unload _ [] w.born w.ids (fun _ => rfl)
      (sound.bases b member).unload b.serials_unload .nil (Nat.le_refl _) (fun _ none => by cases none)
      sound.ids
  | unloadAll => exact sound.unloadAll

theorem Steps.sound (steps : Steps managed w after) (sound : w.Sound) : after.Sound := by
  induction steps with
  | refl => exact sound
  | tail _ step ih => exact step.sound ih

theorem Step.catalog (step : Step managed w after) : after.catalog = w.catalog := by
  cases step with
  | gentle part =>
    cases part with
    | alike alike _ => exact alike.catalog
    | setIds | install | openCopy => rfl
  | reschedule | claim | change | turn | settle | clear | unloadAll => rfl

theorem Steps.catalog (steps : Steps managed w after) : after.catalog = w.catalog := by
  induction steps with
  | refl => rfl
  | tail _ step ih => exact step.catalog.trans ih

theorem Gently.steps (parts : Gently managed w after) : Steps managed w after := by
  induction parts with
  | refl => exact .refl
  | tail _ part ih => exact ih.tail (.gentle part)

theorem Gently.timer (parts : Gently managed w after) : after.schedule.timer = w.schedule.timer := by
  induction parts with
  | refl => rfl
  | tail _ part ih =>
    cases part with
    | alike _ same => exact same.trans ih
    | setIds | install | openCopy => exact ih

theorem CopyRoute.parts {host : BaseMap} {request : InstanceRequest} {answer : World × Except MapError LiveMap}
    (route : CopyRoute w host request answer) :
    (∃ ids, (w.ids.Valid → ids.Valid ∧ ids.claimed = w.ids.claimed) ∧ Alike {w with ids := ids} answer.1 ∧
      answer.1.schedule.timer = w.schedule.timer) ∨
    ∃ table id ids, host.table = some table ∧ id ≠ .base ∧
      (w.ids.Valid → ids.Valid ∧ id ∉ w.ids.claimed ∧
        ∀ other, other ∈ ids.claimed ↔ other = id ∨ other ∈ w.ids.claimed) ∧
      answer.1 = ({w with ids := ids}.addCopy host table.template id request).1 := by
  cases route with
  | plain | joined | refused | spent =>
    exact .inl ⟨w.ids,fun valid => ⟨valid,rfl⟩,.of_records ..,rfl⟩
  | @stuck _ used _ _ allocated =>
    refine .inl ⟨used,fun valid => ?_,.of_records ..,rfl⟩
    exact ⟨IdTable.allocate_valid valid allocated,IdTable.allocate_claimed valid allocated⟩
  | bound tabled _ _ claimed =>
    obtain ⟨untaken,apart,_⟩ := IdTable.claim_parts claimed
    refine .inr ⟨_,_,_,tabled,apart,fun valid => ?_,rfl⟩
    exact ⟨IdTable.claim_valid valid claimed,untaken,fun _ => IdTable.claim_claimed claimed⟩
  | fresh tabled _ allocated claimed =>
    obtain ⟨untaken,apart,_⟩ := IdTable.claim_parts claimed
    refine .inr ⟨_,_,_,tabled,apart,fun valid => ?_,rfl⟩
    have before := IdTable.allocate_claimed valid allocated
    rw [before] at untaken
    refine ⟨IdTable.claim_valid (IdTable.allocate_valid valid allocated) claimed,untaken,fun other => ?_⟩
    rw [IdTable.claim_claimed claimed,before]

theorem alike_gently (alike : Alike w after) (timer : after.schedule.timer = w.schedule.timer) :
    Gently managed w after := .single (.alike alike timer)

theorem setIds_gently {ids : IdTable} (kept : w.ids.Valid → ids.Valid ∧ ids.claimed = w.ids.claimed) :
    Gently managed w {w with ids := ids} := by
  apply Relation.ReflTransGen.single
  apply Gentle.setIds
  intro valid
  obtain ⟨fine,same⟩ := kept valid
  simp only [same]
  exact ⟨fine,fun _ => id,fun _ _ _ => id⟩

theorem Touch.steps (touch : Touch w serial f after) : Steps managed w after := by
  cases touch with
  | absent => exact .refl
  | change journal steady still =>
    have changed : Step managed w (w.modify serial f) := by
      refine .change serial steady fun _ copy member _ => ?_
      rw [still]
      exact (mem_liveCopies.mp member).2.2
    exact .tail (.single changed) (.gentle (.alike (.of_records ..) rfl))

theorem perform_touch (touches : w.touch? call = some (serial,f)) : Touch w serial f (w.perform call) := by
  cases call with
  | queue named transfer =>
    cases touches
    exact .change w.journal (LiveMap.queue_steady transfer) fun _ => rfl
  | setEncounter named running =>
    cases touches
    exact .change w.journal (LiveMap.setEncounter_steady running) fun _ => rfl
  | attach named child =>
    cases touches
    exact .change w.journal (LiveMap.attach_steady child) fun _ => rfl
  | discover named =>
    cases touches
    simp only [perform,discover]
    split
    · rename_i none
      exact .absent none
    · exact .change _ (LiveMap.discover_steady w.tiles) fun _ => rfl
  | load named =>
    cases touches
    simp only [perform,load]
    split
    · rename_i none
      exact .absent none
    · exact .change _ (LiveMap.load_steady w.saved) fun _ => rfl
  | _ => cases touches

theorem update_touch (other : w.host? serial = none) (diff : UInt32) :
    Touch w serial (LiveMap.advance diff) (w.update serial diff) := by
  unfold update
  rw [other]
  dsimp only
  split
  · exact .change _ (LiveMap.advance_steady diff) fun _ => rfl
  · rename_i none
    exact .absent none

theorem settle_touch (other : w.host? serial = none) (diff : UInt32) :
    Touch w serial LiveMap.settle (w.settle serial diff) := by
  unfold settle
  rw [other]
  dsimp only
  split
  · exact .change _ LiveMap.settle_steady fun _ => rfl
  · rename_i none
    exact .absent none

theorem CopyRoute.gently {host : BaseMap} {request : InstanceRequest} {answer : World × Except MapError LiveMap}
    (route : CopyRoute w host request answer) (member : host ∈ w.hosts)
    (registered : managed → host ∈ w.maps) : Gently managed w answer.1 := by
  rcases route.parts with ⟨ids,kept,alike,timer⟩ | ⟨table,id,ids,tabled,apart,kept,opened⟩
  · exact (setIds_gently kept).trans (alike_gently alike timer)
  · rw [opened]
    exact .single (.openCopy member registered tabled apart kept)

theorem createCopy_gently {host : BaseMap} (member : host ∈ w.hosts) (registered : managed → host ∈ w.maps)
    (request : InstanceRequest) : Gently managed w (w.createCopy host request).1 :=
  (createCopy_route w host request).gently member registered

theorem createBase_gently (sound : w.Sound) (map : MapId) : Gently managed w (w.createBase map).1 := by
  rcases createBase_cases sound map with same | ⟨root,top,fresh,installed⟩
  · rw [same]
  · rw [installed]
    exact .single (.install top fresh)

theorem Ensured.gently {middle : World} {host : BaseMap} (ensured : Ensured w map middle host) :
    Gently managed w middle := by
  cases ensured with
  | known => exact .refl
  | brought path fresh => exact .single (.install path.top fresh)

theorem createMap_gently (sound : w.Sound) (map : MapId) (request : InstanceRequest) :
    Gently managed w (w.createMap map request).1 := by
  have opened {middle : World} {host : BaseMap} {request : InstanceRequest}
      {answer : World × Except MapError LiveMap} (ensured : Ensured w map middle host)
      (route : CopyRoute middle host request answer) : Gently managed w answer.1 := by
    have member := (base?_parts ensured.found).1
    exact ensured.gently.trans (route.gently (List.mem_append_left _ member) fun _ => member)
  have route := createMap_route sound map request
  generalize w.createMap map request = answer at route ⊢
  cases route with
  | unknown => exact alike_gently (.of_records ..) rfl
  | plain ensured | nowhere ensured => exact ensured.gently
  | copy ensured _ route => exact opened ensured route
  | failed _ _ ensured _ route => exact (opened ensured route).trans (alike_gently (.of_records ..) rfl)

theorem update_steps (w : World) (serial : Nat) (diff : UInt32) :
    Steps managed w (w.update serial diff) := by
  cases found : w.host? serial with
  | some b =>
    obtain ⟨member,rfl⟩ := host?_parts found
    unfold update
    rw [found]
    exact .tail (.single (.turn diff member)) (.gentle (.alike (.of_records ..) rfl))
  | none => exact (update_touch found diff).steps

theorem settle_steps (w : World) (serial : Nat) (diff : UInt32) :
    Steps managed w (w.settle serial diff) := by
  cases found : w.host? serial with
  | some b =>
    obtain ⟨member,rfl⟩ := host?_parts found
    unfold settle
    rw [found]
    exact .tail (.single (.settle member)) (.gentle (.alike (.of_records ..) rfl))
  | none => exact (settle_touch found diff).steps

theorem foldl_steps {visit : World → α → World} (each : ∀ w entry, Steps managed w (visit w entry))
    (entries : List α) (w : World) : Steps managed w (entries.foldl visit w) := by
  induction entries generalizing w with
  | nil => exact .refl
  | cons entry rest ih => exact (each w entry).trans (ih _)

theorem pass_steps (w : World) (diff : UInt32) : Steps managed w (w.pass diff) := by
  unfold pass updateAll settleAll
  exact (foldl_steps (fun w serial => update_steps w serial diff) _ w).trans
    (foldl_steps (fun w serial => settle_steps w serial diff) _ _)

theorem advance_steps (w : World) (elapsed : UInt32) (times : PassTimes) :
    Steps managed w (w.advance elapsed times).1 := by
  unfold advance
  dsimp only
  split
  · exact (pass_steps w _).tail (.reschedule _)
  · exact .single (.reschedule _)

theorem unload_steps (w : World) (serial : Nat)
    (spared : managed → ∀ copy ∈ w.liveCopies, copy.serial ≠ serial) :
    Steps managed w (w.unload serial) := by
  unfold unload
  split
  · rename_i b found
    obtain ⟨member,rfl⟩ := host?_parts found
    exact .single (.clear member)
  · refine .single (.change serial LiveMap.unload_steady fun sees copy member same => ?_)
    exact absurd same (spared sees copy member)

theorem registerId_gently (w : World) (id : InstanceId) : Gently managed w (w.registerId id).1 := by
  unfold registerId
  split
  · exact .refl
  · rename_i done
    refine setIds_gently fun valid => ⟨IdTable.reserve_valid valid done,?_⟩
    obtain ⟨_,_,_,claimed,_⟩ := IdTable.reserve_parts done
    exact claimed

theorem registerAll_gently (saved : List InstanceId) (w : World) :
    Gently managed w (w.registerAll saved).1 := by
  induction saved generalizing w with
  | nil => exact .refl
  | cons id rest ih =>
    have first : Gently managed w (w.registerId id).1 := registerId_gently w id
    unfold registerAll
    split
    · rename_i ran
      rwa [ran] at first
    · rename_i ran
      rw [ran] at first
      exact first.trans (ih _)

theorem initIds_gently (w : World) {highest : Nat} (small : highest < IdTable.word) (idle : managed → w.liveCopies = []) :
    Gently managed w (w.initIds highest) := by
  apply Relation.ReflTransGen.single
  apply Gentle.setIds
  intro _
  refine ⟨IdTable.sized_valid small,?_,?_⟩
  · intro id none
    cases none
  · intro sees copy member
    rw [idle sees] at member
    cases member

theorem replay_gently (w : World) (saved : List InstanceId) {highest : Nat} (small : highest < IdTable.word)
    (idle : managed → w.liveCopies = []) : Gently managed w (w.replay saved highest).1 := by
  have marked := (initIds_gently w small idle).trans (registerAll_gently saved _)
  unfold replay
  split
  · rename_i ran
    rwa [ran] at marked
  · rename_i ran
    rw [ran] at marked
    exact marked.tail (.alike (.of_records ..) rfl)

theorem claimId_steps (w : World) (id : InstanceId) : Steps managed w (w.claimId id).1 := by
  unfold claimId
  split
  · exact .refl
  · rename_i done
    exact .single (.claim done)

theorem freeId_gently (w : World) (id : InstanceId)
    (spared : managed → ∀ copy ∈ w.liveCopies, copy.instanceId ≠ id) :
    Gently managed w (w.freeId id).1 := by
  unfold freeId
  split
  · exact .refl
  · rename_i done
    obtain ⟨_,_,_,claimed,_⟩ := IdTable.release_parts done
    apply Relation.ReflTransGen.single
    apply Gentle.setIds
    intro valid
    simp only [claimed,List.mem_filter]
    refine ⟨IdTable.release_valid valid done,fun _ held => held.1,?_⟩
    intro sees copy member held
    exact ⟨held,bne_iff_ne.mpr (spared sees copy member)⟩

theorem generateId_gently (w : World) : Gently managed w w.generateId.1 := by
  unfold generateId
  split
  · rename_i done
    exact setIds_gently fun valid =>
      ⟨IdTable.allocate_valid valid done,IdTable.allocate_claimed valid done⟩
  · dsimp only
    split
    · exact alike_gently (.of_records ..) rfl
    · exact alike_gently (.of_records ..) rfl

theorem createCopyOf_gently (w : World) (serial : Nat) (request : InstanceRequest)
    (registered : managed → ∀ b ∈ w.retiredMaps, b.serial ≠ serial) :
    Gently managed w (w.createCopyOf serial request) := by
  unfold createCopyOf
  split
  · exact .refl
  · rename_i m found
    have named : m.serial = serial := by simpa using List.find?_some found
    unfold createCopyAt
    split
    · rename_i host hosted
      obtain ⟨member,same⟩ := host?_parts hosted
      refine createCopy_gently member (fun sees => ?_) request
      rcases List.mem_append.mp member with current | retired
      · exact current
      · exact absurd (same.trans named) (registered sees host retired)
    · exact .refl

theorem perform_gently (sound : w.Sound) (only : gentle call = true)
    (allowed : managed → Managed w call) : Gently managed w (w.perform call) := by
  cases call with
  | createBase map => exact createBase_gently sound map
  | createMap map request => exact createMap_gently sound map request
  | createCopy serial request => exact createCopyOf_gently w serial request allowed
  | stopWorkers => exact alike_gently (.of_records ..) rfl
  | judge map participant login => exact alike_gently (.of_records ..) rfl
  | initIds highest => exact initIds_gently w highest.toNat_lt allowed
  | registerId id => exact registerId_gently w id
  | freeId id => exact freeId_gently w id allowed
  | generateId => exact generateId_gently w
  | replay saved highest => exact replay_gently w saved highest.toNat_lt allowed
  | save saved => exact alike_gently (.of_records ..) rfl
  | _ => cases only

theorem perform_steps (sound : w.Sound) (call : WorldCall) (allowed : managed → Managed w call) :
    Steps managed w (w.perform call) := by
  cases only : gentle call with
  | true => exact (perform_gently sound only allowed).steps
  | false =>
    cases call with
    | queue | setEncounter | attach | discover | load => exact (perform_touch rfl).steps
    | update serial diff => exact update_steps w serial diff
    | settle serial diff => exact settle_steps w serial diff
    | unload serial => exact unload_steps w serial allowed
    | advance elapsed times => exact advance_steps w elapsed times
    | claimId id => exact claimId_steps w id
    | unloadAll => exact .single .unloadAll
    | _ => cases only

theorem Reached.sound {allowed : World → WorldCall → Prop} {origin : World} (sound : origin.Sound)
    (path : Reached allowed origin w) : w.Sound := by
  induction path with
  | start => exact sound
  | step _ call _ ih =>
    have steps : Steps False _ _ := perform_steps ih call False.elim
    exact steps.sound ih

theorem Noted.reached {α : Type} {note : World → WorldCall → List α} {allowed : World → WorldCall → Prop}
    {origin : World} {past : List α} (run : Noted note allowed origin w past) : Reached allowed origin w := by
  induction run with
  | start => exact .start
  | step _ call permitted ih => exact ih.step call permitted

-- What each call keeps of a sound world and of the notes so far, a whole run keeps.
theorem Noted.kept {α : Type} {note : World → WorldCall → List α} {allowed : World → WorldCall → Prop}
    {origin : World} {holds : World → List α → Prop} (sound : origin.Sound) (first : holds origin [])
    (each : ∀ {w past} call, w.Sound → holds w past → allowed w call →
      holds (w.perform call) (note w call ++ past))
    {past : List α} (run : Noted note allowed origin w past) : holds w past := by
  induction run with
  | start => exact first
  | step before call permitted ih => exact each call (Reached.sound sound before.reached) ih permitted

theorem Reached.catalog {allowed : World → WorldCall → Prop} {origin : World} (sound : origin.Sound)
    (path : Reached allowed origin w) : w.catalog = origin.catalog := by
  induction path with
  | start => rfl
  | step before call _ ih =>
    have steps : Steps False _ _ := perform_steps (Reached.sound sound before) call False.elim
    exact steps.catalog.trans ih

end World
end LiveMaps
