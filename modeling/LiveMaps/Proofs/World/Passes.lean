import LiveMaps.Proofs.World.Runs
import Mathlib.Data.List.Perm.Basic

namespace LiveMaps

namespace Event

def turn? : Event → Option (MapId × InstanceId × Phase)
  | .started map id phase _ => some (map,id,phase)
  | .finished map id phase => some (map,id,phase)
  | _ => none

def isTurn (event : Event) : Bool := event.turn?.isSome

end Event

theorem IntervalTimer.toNat_add (t : IntervalTimer) (elapsed : UInt32) :
    (t.add elapsed).current.toNat = min (t.current.toNat + elapsed.toNat) 0xffffffff := by
  have := t.current.toNat_lt
  have := elapsed.toNat_lt
  unfold add
  dsimp only
  split
  · rename_i small
    rw [UInt32.toNat_add,Nat.mod_eq_of_lt small]
    omega
  · rw [show (0xffffffff : UInt32).toNat = 0xffffffff from rfl]
    omega

namespace BaseMap
variable {b : BaseMap} {m : LiveMap} {phase : Phase} {delay diff : UInt32}

-- Those of a base map that a pass reaches: the map itself, and the copies whose
-- time is not up.
def reachedBy (delay : UInt32) (b : BaseMap) : List LiveMap := b.own :: b.surviving delay

-- One phase of one base map: the turns of its copies stand inside its own.
def phaseTrace (phase : Phase) (delay diff : UInt32) (b : BaseMap) : List Event :=
  b.own.startEvent phase diff :: (b.surviving delay).flatMap (turn phase diff) ++
    [b.own.finishEvent phase]

theorem phaseTrace_perm (phase : Phase) (delay diff : UInt32) (b : BaseMap) :
    (b.phaseTrace phase delay diff).Perm ((b.reachedBy delay).flatMap (turn phase diff)) := by
  refine List.Perm.cons _ ?_
  exact List.perm_append_comm

theorem dismissAll_silent (map : MapId) (ids : IdTable) (copies : List LiveMap) :
    (dismissAll map ids copies).2.filter Event.isTurn = [] := by
  induction copies generalizing ids with
  | nil => rfl
  | cons copy rest ih =>
    have first : (dismiss map ids copy).2.filter Event.isTurn = [] := by
      unfold dismiss
      split <;> rfl
    simp only [dismissAll,List.filter_append,first,ih,List.append_nil]

theorem mem_turn {event : Event} : event ∈ turn phase diff m ↔
    event = m.startEvent phase diff ∨ event = m.finishEvent phase := by
  simp [turn]

theorem turn?_of_mem {event : Event} (member : event ∈ turn phase diff m) :
    event.turn? = some (m.map,m.instanceId,phase) := by
  rcases mem_turn.mp member with rfl | rfl
  · rfl
  · rfl

theorem turns_told (phase : Phase) (diff : UInt32) (copies : List LiveMap) :
    (copies.flatMap (turn phase diff)).filter Event.isTurn = copies.flatMap (turn phase diff) := by
  refine List.filter_eq_self.mpr fun event member => ?_
  obtain ⟨copy,_,among⟩ := List.mem_flatMap.mp member
  rw [Event.isTurn,turn?_of_mem among]
  rfl

theorem primaryEffects_told (delay diff : UInt32) (ids : IdTable) (b : BaseMap) :
    (b.primaryEffects delay diff ids).2.filter Event.isTurn = b.phaseTrace .primary delay diff := by
  simp only [primaryEffects,List.cons_append,List.filter_cons,List.filter_append,turns_told,
    dismissAll_silent,phaseTrace]
  simp [LiveMap.startEvent,LiveMap.finishEvent,Event.isTurn,Event.turn?]

theorem delayedEvents_told (delay diff : UInt32) (b : BaseMap) :
    ((b.primary delay diff).delayedEvents diff).filter Event.isTurn = b.phaseTrace .delayed delay diff := by
  have same : (b.primary delay diff).delayedEvents diff = b.phaseTrace .delayed delay diff := by
    unfold delayedEvents phaseTrace
    rw [copies_primary,List.flatMap_map]
    rfl
  rw [same]
  unfold phaseTrace
  rw [List.cons_append,List.filter_cons,List.filter_append,turns_told]
  rfl

end BaseMap

namespace World
open Ordered
variable {w after : World} {b : BaseMap} {m : LiveMap} {diff : UInt32} {front back todo done : List BaseMap}

structure Kept (w after : World) : Prop where
  config : after.config = w.config
  schedule : after.schedule = w.schedule
  shutdown : after.shutdown = w.shutdown
  retiredMaps : after.retiredMaps = w.retiredMaps

theorem update_parts (sound : w.Sound) (split : w.maps = front ++ b :: back) (diff : UInt32) :
    (w.update b.serial diff).maps = front ++ b.primary w.config.unloadDelay diff :: back ∧
      (w.update b.serial diff).journal.filter Event.isTurn =
        w.journal.filter Event.isTurn ++ b.phaseTrace .primary w.config.unloadDelay diff ∧
      Kept w (w.update b.serial diff) := by
  have member : b ∈ w.hosts := List.mem_append_left _ (split ▸ List.mem_append_right _ List.mem_cons_self)
  obtain ⟨maps,retired⟩ :=
    modifyHost_registered sound.distinct split (BaseMap.primary w.config.unloadDelay diff)
  unfold update
  rw [host?_serial sound.distinct member]
  refine ⟨maps,?_,rfl,rfl,rfl,retired⟩
  rw [←b.primaryEffects_told w.config.unloadDelay diff w.ids]
  exact List.filter_append ..

theorem settle_parts (sound : w.Sound) {fresh : BaseMap} (delay : UInt32)
    (split : w.maps = front ++ fresh.primary delay diff :: back) :
    (w.settle fresh.serial diff).maps = front ++ (fresh.primary delay diff).delayed :: back ∧
      (w.settle fresh.serial diff).journal.filter Event.isTurn =
        w.journal.filter Event.isTurn ++ fresh.phaseTrace .delayed delay diff ∧
      Kept w (w.settle fresh.serial diff) := by
  have member : fresh.primary delay diff ∈ w.hosts :=
    List.mem_append_left _ (split ▸ List.mem_append_right _ List.mem_cons_self)
  obtain ⟨maps,retired⟩ := modifyHost_registered sound.distinct split BaseMap.delayed
  have found : w.host? fresh.serial = some (fresh.primary delay diff) := host?_serial sound.distinct member
  unfold settle
  rw [found]
  refine ⟨maps,?_,rfl,rfl,rfl,retired⟩
  rw [←fresh.delayedEvents_told delay diff]
  exact List.filter_append ..

theorem Kept.trans {middle : World} (first : Kept w middle) (second : Kept middle after) : Kept w after :=
  ⟨second.config.trans first.config,second.schedule.trans first.schedule,
    second.shutdown.trans first.shutdown,second.retiredMaps.trans first.retiredMaps⟩

theorem updateAll_parts (sound : w.Sound) (split : w.maps = done ++ todo) (diff : UInt32) :
    (w.updateAll diff (todo.map BaseMap.serial)).maps =
        done ++ todo.map (BaseMap.primary w.config.unloadDelay diff) ∧
      (w.updateAll diff (todo.map BaseMap.serial)).journal.filter Event.isTurn =
        w.journal.filter Event.isTurn ++
          todo.flatMap (BaseMap.phaseTrace .primary w.config.unloadDelay diff) ∧
      Kept w (w.updateAll diff (todo.map BaseMap.serial)) ∧
      (w.updateAll diff (todo.map BaseMap.serial)).Sound := by
  induction todo generalizing w done with
  | nil => exact ⟨split,(List.append_nil _).symm,⟨rfl,rfl,rfl,rfl⟩,sound⟩
  | cons b rest ih =>
    obtain ⟨maps,told,kept⟩ := update_parts sound split diff
    have steps : Steps False w (w.update b.serial diff) := update_steps w b.serial diff
    rw [List.append_cons] at maps
    obtain ⟨maps',told',kept',sound'⟩ := ih (steps.sound sound) maps
    rw [kept.config,List.append_assoc] at maps'
    rw [kept.config,told,List.append_assoc] at told'
    exact ⟨maps',told',kept.trans kept',sound'⟩

theorem settleAll_parts (sound : w.Sound) (delay : UInt32)
    (split : w.maps = done ++ todo.map (BaseMap.primary delay diff)) :
    (w.settleAll diff (todo.map BaseMap.serial)).maps =
        done ++ todo.map (fun b => (b.primary delay diff).delayed) ∧
      (w.settleAll diff (todo.map BaseMap.serial)).journal.filter Event.isTurn =
        w.journal.filter Event.isTurn ++ todo.flatMap (BaseMap.phaseTrace .delayed delay diff) ∧
      Kept w (w.settleAll diff (todo.map BaseMap.serial)) := by
  induction todo generalizing w done with
  | nil => exact ⟨split,(List.append_nil _).symm,rfl,rfl,rfl,rfl⟩
  | cons b rest ih =>
    obtain ⟨maps,told,kept⟩ := settle_parts sound delay split
    have steps : Steps False w (w.settle b.serial diff) := settle_steps w b.serial diff
    rw [List.append_cons] at maps
    obtain ⟨maps',told',kept'⟩ := ih (steps.sound sound) maps
    rw [List.append_assoc] at maps'
    rw [told,List.append_assoc] at told'
    exact ⟨maps',told',kept.trans kept'⟩

-- What observers see of a pass: one phase of all registered maps, then the other.
def passTrace (w : World) (diff : UInt32) : List Event :=
  w.maps.flatMap (BaseMap.phaseTrace .primary w.config.unloadDelay diff) ++
    w.maps.flatMap (BaseMap.phaseTrace .delayed w.config.unloadDelay diff)

theorem pass_parts (sound : w.Sound) (diff : UInt32) :
    (w.pass diff).maps = w.maps.map (fun b => (b.primary w.config.unloadDelay diff).delayed) ∧
      (w.pass diff).journal.filter Event.isTurn = w.journal.filter Event.isTurn ++ w.passTrace diff ∧
      Kept w (w.pass diff) := by
  have split : w.maps = [] ++ w.maps := rfl
  obtain ⟨maps,told,kept,sound'⟩ := updateAll_parts sound split diff
  obtain ⟨maps',told',kept'⟩ := settleAll_parts sound' w.config.unloadDelay maps
  rw [told,List.append_assoc] at told'
  exact ⟨maps',told',kept.trans kept'⟩

def reached (w : World) : List LiveMap := w.maps.flatMap (BaseMap.reachedBy w.config.unloadDelay)

theorem reachedBy_parts (sound : w.Sound) (member : b ∈ w.maps) {delay : UInt32}
    (among : m ∈ b.reachedBy delay) : m.map = b.map ∧ m ∈ b.all := by
  rcases List.mem_cons.mp among with rfl | copy
  · exact ⟨rfl,List.mem_cons_self⟩
  · have inside := (List.mem_filter.mp copy).1
    have base := sound.bases b (List.mem_append_left _ member)
    exact ⟨congrArg MapDefinition.id (base.copies m inside).1,List.mem_cons_of_mem _ inside⟩

theorem reached_distinct (sound : w.Sound) :
    w.reached.Pairwise (fun one two => one.map ≠ two.map ∨ one.instanceId ≠ two.instanceId) := by
  unfold reached
  rw [List.pairwise_flatMap]
  constructor
  · intro b member
    have base := sound.bases b (List.mem_append_left _ member)
    refine List.pairwise_cons.mpr ⟨fun copy among => .inr fun same => ?_,?_⟩
    · rw [base.base] at same
      exact (base.copies copy (List.mem_filter.mp among).1).2 same.symm
    · refine (base.ascending.filter _).imp fun below => .inr fun same => ?_
      rw [LiveMap.order,LiveMap.order,same] at below
      exact Nat.lt_irrefl _ below
  · refine sound.ascending.imp_of_mem fun first second below one among two among' => .inl fun same => ?_
    rw [(reachedBy_parts sound first among).1,(reachedBy_parts sound second among').1] at same
    rw [BaseMap.order,BaseMap.order,show LiveMap.map _ = LiveMap.map _ from same] at below
    exact Nat.lt_irrefl _ below

theorem phase_perm (w : World) (phase : Phase) (diff : UInt32) :
    (w.maps.flatMap (BaseMap.phaseTrace phase w.config.unloadDelay diff)).Perm
      (w.reached.flatMap (BaseMap.turn phase diff)) := by
  unfold reached
  rw [List.flatMap_assoc]
  exact List.Perm.flatMap_left _ fun b _ => b.phaseTrace_perm phase w.config.unloadDelay diff

theorem turns_nodup (sound : w.Sound) (phase : Phase) (diff : UInt32) :
    (w.reached.flatMap (BaseMap.turn phase diff)).Nodup := by
  refine List.nodup_flatMap.mpr ⟨fun m _ => ?_,(reached_distinct sound).imp fun apart => ?_⟩
  · simp [BaseMap.turn,LiveMap.startEvent,LiveMap.finishEvent]
  · refine List.disjoint_left.mpr fun event first second => ?_
    have same := (BaseMap.turn?_of_mem first).symm.trans (BaseMap.turn?_of_mem second)
    simp only [Option.some.injEq,Prod.mk.injEq,and_true] at same
    exact apart.elim (absurd same.1) (absurd same.2)

theorem mem_passTrace {event : Event} : event ∈ w.passTrace diff ↔ ∃ b ∈ w.maps,
    ∃ m ∈ b.reachedBy w.config.unloadDelay, ∃ phase,
      event = m.startEvent phase diff ∨ event = m.finishEvent phase := by
  have phases (phase : Phase) :
      event ∈ w.maps.flatMap (BaseMap.phaseTrace phase w.config.unloadDelay diff) ↔
        ∃ b ∈ w.maps, ∃ m ∈ b.reachedBy w.config.unloadDelay,
          event = m.startEvent phase diff ∨ event = m.finishEvent phase := by
    rw [(w.phase_perm phase diff).mem_iff]
    simp only [reached,List.mem_flatMap,BaseMap.mem_turn]
    constructor
    · rintro ⟨m,⟨b,member,among⟩,told⟩
      exact ⟨b,member,m,among,told⟩
    · rintro ⟨b,member,m,among,told⟩
      exact ⟨m,⟨b,member,among⟩,told⟩
  rw [passTrace,List.mem_append,phases,phases]
  constructor
  · rintro (⟨b,member,m,among,told⟩ | ⟨b,member,m,among,told⟩)
    · exact ⟨b,member,m,among,.primary,told⟩
    · exact ⟨b,member,m,among,.delayed,told⟩
  · rintro ⟨b,member,m,among,phase,told⟩
    cases phase with
    | primary => exact .inl ⟨b,member,m,among,told⟩
    | delayed => exact .inr ⟨b,member,m,among,told⟩

theorem phase_of_mem {phase : Phase} {event : Event}
    (member : event ∈ w.maps.flatMap (BaseMap.phaseTrace phase w.config.unloadDelay diff)) :
    ∃ map id, event.turn? = some (map,id,phase) := by
  rw [(w.phase_perm phase diff).mem_iff,List.mem_flatMap] at member
  obtain ⟨m,_,among⟩ := member
  exact ⟨m.map,m.instanceId,BaseMap.turn?_of_mem among⟩

theorem passTrace_nodup (sound : w.Sound) (diff : UInt32) : (w.passTrace diff).Nodup := by
  unfold passTrace
  rw [List.nodup_append]
  refine ⟨?_,?_,?_⟩
  · exact (w.phase_perm .primary diff).nodup_iff.mpr (turns_nodup sound .primary diff)
  · exact (w.phase_perm .delayed diff).nodup_iff.mpr (turns_nodup sound .delayed diff)
  · rintro event first _ second rfl
    obtain ⟨_,_,primary⟩ := phase_of_mem first
    obtain ⟨_,_,delayed⟩ := phase_of_mem second
    rw [primary] at delayed
    cases delayed

-- No delayed turn of any map starts before every primary turn has ended.
theorem passTrace_barrier (w : World) (diff : UInt32) : (w.passTrace diff).Pairwise
    (fun earlier later => ∀ one id two id', earlier.turn? = some (one,id,.delayed) →
      later.turn? ≠ some (two,id',.primary)) := by
  refine List.pairwise_append.mpr ⟨?_,?_,?_⟩
  · refine List.pairwise_of_forall_mem_list fun earlier first later _ one id two id' delayed => ?_
    obtain ⟨_,_,primary⟩ := phase_of_mem first
    rw [primary] at delayed
    cases delayed
  · refine List.pairwise_of_forall_mem_list fun earlier _ later second one id two id' _ primary => ?_
    obtain ⟨_,_,delayed⟩ := phase_of_mem second
    rw [delayed] at primary
    cases primary
  · intro earlier first later _ one id two id' delayed
    obtain ⟨_,_,primary⟩ := phase_of_mem first
    rw [primary] at delayed
    cases delayed

theorem expired_unreached (sound : w.Sound) (member : b ∈ w.maps)
    (expired : m ∈ b.expired w.config.unloadDelay) {event : Event}
    (told : event ∈ w.passTrace diff) (phase : Phase) : event.turn? ≠ some (m.map,m.instanceId,phase) := by
  intro same
  obtain ⟨other,member',reached,among,phase',turn⟩ := mem_passTrace.mp told
  rw [BaseMap.turn?_of_mem (BaseMap.mem_turn.mpr turn)] at same
  simp only [Option.some.injEq,Prod.mk.injEq] at same
  obtain ⟨sameMap,sameId,_⟩ := same
  obtain ⟨inside,gone⟩ := List.mem_filter.mp expired
  have base := sound.bases b (List.mem_append_left _ member)
  obtain ⟨definition,apart⟩ := base.copies m inside
  have sameBase : other = b := by
    refine sound.ascending.same_entry member' member (congrArg MapId.order ?_)
    exact (reachedBy_parts sound member' among).1.symm.trans
      (sameMap.trans (congrArg MapDefinition.id definition))
  subst sameBase
  rcases List.mem_cons.mp among with rfl | survived
  · exact apart (sameId.symm.trans base.base)
  · obtain ⟨inside',alive⟩ := List.mem_filter.mp survived
    rw [base.ascending.same_entry inside' inside (congrArg InstanceId.order sameId),gone] at alive
    cases alive

theorem advance_passed (w : World) (elapsed : UInt32) (times : PassTimes) :
    (w.advance elapsed times).2 = (w.schedule.timer.add elapsed).passed := by
  unfold advance
  dsimp only
  split
  · rename_i passed
    exact passed.symm
  · rename_i early
    exact (Bool.eq_false_iff.mpr early).symm

-- Every call of the scheduler on every world that calls lead to, one map after
-- another: what observers see of it, and what becomes of the registered maps.
theorem advance_trace {data : CatalogData} {c : Catalog} (built : Catalog.build data = .ok c)
    (config : WorldConfig) (tiles : Terrain.TileSource) (saved : SavedState)
    (path : Reached (fun _ _ => True) (start c config tiles saved) w)
    (sequential : w.schedule.workers = 0) (elapsed : UInt32) (times : PassTimes) :
    let timer := w.schedule.timer.add elapsed
    let diff := timer.current
    let after := (w.advance elapsed times).1
    (w.advance elapsed times).2 = timer.passed ∧
    diff.toNat = min (w.schedule.timer.current.toNat + elapsed.toNat) 0xffffffff ∧
    (timer.passed = false → after = {w with schedule := {w.schedule with timer := timer}}) ∧
    (timer.passed = true →
      after.journal.filter Event.isTurn = w.journal.filter Event.isTurn ++ w.passTrace diff ∧
      after.maps = w.maps.map (fun b => (b.primary w.config.unloadDelay diff).delayed) ∧
      after.retiredMaps = w.retiredMaps ∧ after.schedule.timer.current = 0 ∧
      after.schedule.workers = 0) ∧
    Ascending BaseMap.order w.maps ∧ (∀ b ∈ w.maps, Ascending LiveMap.order b.copies) ∧
    (w.passTrace diff).Nodup ∧
    (∀ event, event ∈ w.passTrace diff ↔ ∃ b ∈ w.maps, ∃ m ∈ b.reachedBy w.config.unloadDelay,
      ∃ phase, event = m.startEvent phase diff ∨ event = m.finishEvent phase) ∧
    (∀ b ∈ w.maps, ∀ m ∈ b.expired w.config.unloadDelay, ∀ event ∈ w.passTrace diff, ∀ phase,
      event.turn? ≠ some (m.map,m.instanceId,phase)) ∧
    (w.passTrace diff).Pairwise (fun earlier later => ∀ one id two id',
      earlier.turn? = some (one,id,.delayed) → later.turn? ≠ some (two,id',.primary)) := by
  have sound := Reached.sound (start_sound (Catalog.build_forest built) config tiles saved) path
  intro timer diff after
  refine ⟨advance_passed w elapsed times,IntervalTimer.toNat_add _ _,fun early => ?_,fun passed => ?_,
    sound.ascending,?_,passTrace_nodup sound diff,fun event => mem_passTrace,?_,passTrace_barrier w diff⟩
  · have early : ¬ (w.schedule.timer.add elapsed).passed = true := Bool.eq_false_iff.mp early
    exact congrArg Prod.fst (if_neg early)
  · have passed : (w.schedule.timer.add elapsed).passed = true := passed
    have ran : after = _ := congrArg Prod.fst (if_pos passed)
    obtain ⟨maps,told,kept⟩ := pass_parts sound diff
    rw [ran]
    exact ⟨told,maps,kept.retiredMaps,rfl,sequential⟩
  · exact fun b member => (sound.bases b (List.mem_append_left _ member)).ascending
  · exact fun b member m expired event told phase => expired_unreached sound member expired told phase

-- Of two copies the second has a participant on the way in; the first one's time is
-- up by the second pass.
theorem advance_trace_expired :
    let data : CatalogData := {maps := [{id := ⟨36⟩, kind := .dungeon}]}
    let seen : List Event :=
      [.started ⟨36⟩ .base .primary 10,.started ⟨36⟩ ⟨2⟩ .primary 10,.finished ⟨36⟩ ⟨2⟩ .primary,
        .finished ⟨36⟩ .base .primary,.started ⟨36⟩ .base .delayed 10,.started ⟨36⟩ ⟨2⟩ .delayed 10,
        .finished ⟨36⟩ ⟨2⟩ .delayed,.finished ⟨36⟩ .base .delayed]
    ∃ c w, Catalog.build data = .ok c ∧
      Reached (fun _ _ => True) (start c {unloadDelay := 5} .none .empty) w ∧ w.schedule.workers = 0 ∧
      w.passTrace 10 = seen ∧ (w.advance 10 ⟨0,0⟩).1.journal.filter Event.isTurn =
        w.journal.filter Event.isTurn ++ w.passTrace 10 := by
  intro data seen
  obtain ⟨c,built⟩ : ∃ c, Catalog.build data = .ok c := ⟨_,rfl⟩
  have started : Reached (fun _ _ => True) (start c {unloadDelay := 5} .none .empty) _ := .start
  have path := started
    |>.step (.createMap ⟨36⟩ {participant := .nil, difficulty := .normal}) trivial
    |>.step (.createMap ⟨36⟩ {participant := .nil, difficulty := .normal}) trivial
    |>.step (.queue 2 (.enter .nil)) trivial
    |>.step (.advance 10 ⟨0,0⟩) trivial
  obtain ⟨w,path,sequential,timer,trace⟩ : ∃ w, Reached (fun _ _ => True)
      (start c {unloadDelay := 5} .none .empty) w ∧ w.schedule.workers = 0 ∧
      w.schedule.timer = ⟨10,0⟩ ∧ w.passTrace 10 = seen := by
    cases built
    exact ⟨_,path,by decide,by decide,by decide⟩
  obtain ⟨_,_,_,passed,_⟩ := advance_trace built {unloadDelay := 5} .none .empty path sequential 10 ⟨0,0⟩
  rw [timer] at passed
  exact ⟨c,w,built,path,sequential,trace,(passed (by decide)).1⟩

end World
end LiveMaps
