import LiveMaps.Proofs.Simulation.Hosting
import LiveMaps.Proofs.World.Passes

namespace LiveMaps

namespace Simulation

-- Ticks that it takes to gather the interval: as many as its division by the step gives, rounded up.
def beat (interval step : UInt32) : Nat := (interval.toNat + (step.toNat - 1)) / step.toNat

def passesIn (interval step : UInt32) (ticks : Nat) : Nat := if step = 0 then 0 else ticks / beat interval step

theorem passesIn_eq (interval step : UInt32) (ticks : Nat) :
    passesIn interval step ticks = ticks / beat interval step := by
  unfold passesIn
  split
  · rename_i still
    rw [still,beat,show UInt32.toNat 0 = 0 from rfl,Nat.div_zero,Nat.div_zero]
  · rfl

end Simulation

namespace World
open Simulation
variable {origin w : World} {interval step : UInt32} {ticks : Nat} {copy : LiveMap}
  {s : PassSchedule}

theorem pass_tabled (sound : w.Sound) (busy : ∀ copy ∈ w.tabled, copy.isQuiet = false) (diff : UInt32) :
    (w.pass diff).tabled = w.tabled.map (fun copy => (copy.advance diff).settle) := by
  obtain ⟨maps,_⟩ := pass_parts sound diff
  unfold tabled
  rw [maps,List.flatMap_map,List.map_flatMap]
  refine List.flatMap_congr fun b member => ?_
  have all : b.surviving w.config.unloadDelay = b.copies := by
    refine List.filter_eq_self.mpr fun copy among => ?_
    simp [LiveMap.isExpired,busy copy (List.mem_flatMap.mpr ⟨b,member,among⟩)]
  rw [BaseMap.delayed,BaseMap.copies_mapAll,BaseMap.copies_primary,all,List.map_map]
  rfl

structure Paced (interval step : UInt32) (ticks : Nat) (s : PassSchedule) : Prop where
  every : s.timer.interval = interval
  passes : s.passes = ticks / beat interval step
  gathered : s.timer.current.toNat = ticks % beat interval step * step.toNat

theorem beat_le (moves : 0 < step.toNat) {n : Nat} : beat interval step ≤ n ↔ interval.toNat ≤ n * step.toNat := by
  unfold beat
  rw [Nat.div_le_iff_le_mul_add_pred moves,Nat.mul_comm]
  omega

-- One more tick brings one more step. What the timer drops past the largest word lies beyond the interval.

theorem Paced.current (paced : Paced interval step ticks s) : (s.timer.add step).current.toNat =
    min ((ticks % beat interval step + 1) * step.toNat) 0xffffffff := by
  rw [s.timer.toNat_add step,paced.gathered,Nat.succ_mul]

theorem Paced.passed_iff (paced : Paced interval step ticks s) :
    (s.timer.add step).passed = true ↔ interval.toNat ≤ (ticks % beat interval step + 1) * step.toNat := by
  have bound := interval.toNat_lt
  unfold IntervalTimer.passed
  rw [decide_eq_true_iff,paced.current,show (s.timer.add step).interval = interval from paced.every]
  omega

theorem Paced.waits (paced : Paced interval step ticks s) (positive : 0 < interval.toNat)
    (early : (s.timer.add step).passed = false) :
    Paced interval step (ticks + 1) {s with timer := s.timer.add step} := by
  have short : ¬ interval.toNat ≤ (ticks % beat interval step + 1) * step.toNat := by
    rw [←paced.passed_iff,early]
    exact Bool.false_ne_true
  have bound := interval.toNat_lt
  have current := paced.current
  by_cases moves : 0 < step.toNat
  · obtain ⟨quotient,rest⟩ : (ticks + 1) / beat interval step = ticks / beat interval step ∧
        (ticks + 1) % beat interval step = ticks % beat interval step + 1 := by
      rw [←beat_le moves] at short
      refine (Nat.div_mod_unique (by omega)).mpr ⟨?_,by omega⟩
      have := Nat.mod_add_div ticks (beat interval step)
      omega
    refine ⟨paced.every,paced.passes.trans quotient.symm,?_⟩
    rw [rest]
    exact current.trans (by omega)
  · -- Nothing is ever gathered, and both divisions are by zero.
    have still : step.toNat = 0 := by omega
    have none : beat interval step = 0 := by rw [beat,still,Nat.div_zero]
    refine ⟨paced.every,?_,?_⟩
    · rw [none,Nat.div_zero]
      exact paced.passes.trans (by rw [none,Nat.div_zero])
    · rw [still,Nat.mul_zero] at current ⊢
      exact current

theorem Paced.strikes (paced : Paced interval step ticks s) (positive : 0 < interval.toNat)
    (due : (s.timer.add step).passed = true) (history : PassHistory) (last : PassRecord) :
    Paced interval step (ticks + 1)
      {s with timer := (s.timer.add step).reset, history := history, last := last, passes := s.passes + 1} := by
  have enough := paced.passed_iff.mp due
  have moves : 0 < step.toNat := Nat.pos_of_mul_pos_left (Nat.lt_of_lt_of_le positive enough)
  have full : ticks % beat interval step + 1 = beat interval step := by
    have some : ¬ beat interval step ≤ 0 := by
      rw [beat_le moves]
      omega
    have below := Nat.mod_lt ticks (Nat.pos_of_ne_zero fun zero => some (Nat.le_of_eq zero))
    exact Nat.le_antisymm below ((beat_le moves).mpr enough)
  obtain ⟨quotient,rest⟩ : (ticks + 1) / beat interval step = ticks / beat interval step + 1 ∧
      (ticks + 1) % beat interval step = 0 := by
    refine (Nat.div_mod_unique (by omega)).mpr ⟨?_,by omega⟩
    have := Nat.mod_add_div ticks (beat interval step)
    rw [Nat.mul_succ]
    omega
  refine ⟨paced.every,?_,?_⟩
  · rw [quotient,←paced.passes]
  · rw [rest,Nat.zero_mul]
    rfl

-- The one participant of a copy is on the way in until the first pass, and inside from then on.
def Attended (passes : Nat) (copy : LiveMap) : Prop := ∃ guest,
  if passes = 0 then copy.participants = [] ∧ copy.pending = [.enter guest]
  else copy.participants = [guest] ∧ copy.pending = []

theorem Attended.busy {passes : Nat} (attended : Attended passes copy) : copy.isQuiet = false := by
  obtain ⟨guest,place⟩ := attended
  unfold LiveMap.isQuiet
  split at place <;> simp [place]

theorem Attended.turned {passes : Nat} (attended : Attended passes copy) (diff : UInt32) :
    Attended (passes + 1) (copy.advance diff).settle := by
  obtain ⟨guest,place⟩ := attended
  refine ⟨guest,?_⟩
  rw [if_neg (Nat.succ_ne_zero passes)]
  unfold LiveMap.settle LiveMap.advance
  split at place <;> simp [place,LiveMap.applyTransfer,Ordered.insert]

structure Passing (origin : World) (interval step : UInt32) (ticks : Nat) (w : World) : Prop where
  sound : w.Sound
  running : w.shutdown = false
  paced : Paced interval step ticks w.schedule
  copies : w.tabled.map LiveMap.definition = origin.tabled.map LiveMap.definition
  attended : ∀ copy ∈ w.tabled, Attended w.schedule.passes copy

theorem Hosting.passing {records : List InstanceRecord} {opened : List MapDefinition} {config : WorldConfig}
    (hosting : Hosting origin records opened w) (schedule : origin.schedule = .ofConfig config) (step : UInt32) :
    Passing w config.updateInterval step 0 w := by
  refine ⟨hosting.sound,hosting.running,?_,rfl,fun copy among => ?_⟩
  · rw [hosting.schedule,schedule]
    exact ⟨rfl,(Nat.zero_div _).symm,by rw [Nat.zero_mod,Nat.zero_mul]; rfl⟩
  · obtain ⟨empty,guest,coming⟩ := hosting.awaited copy among
    rw [hosting.schedule,schedule]
    exact ⟨guest,empty,coming⟩

theorem Passing.tick (passing : Passing origin interval step ticks w) (positive : 0 < interval.toNat) :
    Passing origin interval step (ticks + 1) (tick step w) := by
  have sound : (w.advance step ⟨0,0⟩).1.Sound := by
    have parts : Steps False w (w.advance step ⟨0,0⟩).1 := advance_steps w step ⟨0,0⟩
    exact parts.sound passing.sound
  have stays : Simulation.tick step w = {(w.advance step ⟨0,0⟩).1 with journal := []} :=
    if_neg (by rw [passing.running]; exact Bool.false_ne_true)
  have sound : {(w.advance step ⟨0,0⟩).1 with journal := []}.Sound := sound.alike (.of_records ..)
  rw [stays]
  cases due : (w.schedule.timer.add step).passed with
  | false =>
    have early : (w.advance step ⟨0,0⟩).1 =
        {w with schedule := {w.schedule with timer := w.schedule.timer.add step}} := by
      simp [advance,due]
    rw [early] at sound ⊢
    exact ⟨sound,passing.running,passing.paced.waits positive due,passing.copies,passing.attended⟩
  | true =>
    let diff := (w.schedule.timer.add step).current
    obtain ⟨_,_,kept⟩ := pass_parts passing.sound diff
    have tabled := pass_tabled passing.sound (fun copy among => (passing.attended copy among).busy) diff
    have ran : (w.advance step ⟨0,0⟩).1 = {w.pass diff with schedule := {w.schedule with
        timer := (w.schedule.timer.add step).reset
        history := w.schedule.history.record ⟨w.maps.length,diff,0,0⟩
        last := ⟨w.maps.length,diff,0,0⟩
        passes := w.schedule.passes + 1 }} := by
      simp only [advance,due,if_true]
      rfl
    rw [ran] at sound ⊢
    refine ⟨sound,kept.shutdown.trans passing.running,passing.paced.strikes positive due _ _,?_,?_⟩
    · refine (congrArg (List.map LiveMap.definition) tabled).trans ?_
      rw [List.map_map,←passing.copies]
      rfl
    · intro copy among
      obtain ⟨old,before,rfl⟩ := List.mem_map.mp (tabled ▸ among)
      exact (passing.attended old before).turned diff

theorem Passing.ticked (passing : Passing origin interval step ticks w) (positive : 0 < interval.toNat)
    (count : Nat) : Passing origin interval step (ticks + count) (ticked step count w) := by
  induction count generalizing ticks w with
  | zero => exact passing
  | succ count ih =>
    have later := ih (passing.tick positive)
    rwa [Nat.add_assoc,Nat.add_comm 1 count] at later

end World
end LiveMaps
