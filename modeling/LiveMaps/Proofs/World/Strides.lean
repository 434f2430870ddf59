import LiveMaps.Proofs.World.Clocks

namespace LiveMaps

structure Stride where
  elapsed : UInt32
  pass : Option UInt32
  born : Nat
  deriving DecidableEq, Repr

namespace Stride
variable {past : List Stride} {s : Stride}

-- Strides stand latest first.

def brought (past : List Stride) : Nat := (past.map (·.elapsed.toNat)).sum

def passes (past : List Stride) : List Nat := past.filterMap (fun s => s.pass.map UInt32.toNat)

def gathered (past : List Stride) : Nat := brought (past.takeWhile (·.pass.isNone))

def passesOver (serial : Nat) (past : List Stride) : List Nat :=
  passes (past.filter (fun s => serial < s.born))

-- The time gathered never goes beyond the largest word.
def Bounded : List Stride → Prop
  | [] => True
  | s :: past => gathered past + s.elapsed.toNat ≤ 0xffffffff ∧ Bounded past

theorem brought_cons : brought (s :: past) = s.elapsed.toNat + brought past := List.sum_cons

theorem gathered_waiting (waits : s.pass = none) : gathered (s :: past) = s.elapsed.toNat + gathered past := by
  unfold gathered
  rw [List.takeWhile_cons,waits]
  exact brought_cons

theorem gathered_passed {diff : UInt32} (passes : s.pass = some diff) : gathered (s :: past) = 0 := by
  unfold gathered
  rw [List.takeWhile_cons,passes]
  rfl

theorem passes_waiting (waits : s.pass = none) : passes (s :: past) = passes past := by
  simp [passes,waits]

theorem passes_passed {diff : UInt32} (passed : s.pass = some diff) :
    passes (s :: past) = diff.toNat :: passes past := by
  simp [passes,passed]

theorem passes_append (later past : List Stride) : passes (later ++ past) = passes later ++ passes past :=
  List.filterMap_append

end Stride

def WorldCall.direct : WorldCall → Bool
  | .update _ _ => true
  | _ => false

namespace World
variable {w after : World} {b : BaseMap} {m : LiveMap} {call : WorldCall} {past : List Stride}

def strideOf (w : World) : WorldCall → List Stride
  | .advance elapsed times =>
    let (after,ran) := w.advance elapsed times
    [⟨elapsed,if ran then some after.schedule.last.diff else none,w.born⟩]
  | _ => []

theorem stride_early {elapsed : UInt32} (early : (w.schedule.timer.add elapsed).passed = false)
    (times : PassTimes) : w.strideOf (.advance elapsed times) = [⟨elapsed,none,w.born⟩] := by
  simp [strideOf,advance,early]

theorem stride_passed {elapsed : UInt32} (passed : (w.schedule.timer.add elapsed).passed = true)
    (times : PassTimes) : w.strideOf (.advance elapsed times) =
      [⟨elapsed,some (w.schedule.timer.add elapsed).current,w.born⟩] := by
  simp [strideOf,advance,passed]

theorem Touch.timer {serial : Nat} {f : LiveMap → LiveMap} (touch : Touch w serial f after) :
    after.schedule.timer = w.schedule.timer := by
  cases touch with
  | absent => rfl
  | change => rfl

theorem perform_timer (sound : w.Sound) (none : w.strideOf call = []) :
    (w.perform call).schedule.timer = w.schedule.timer := by
  cases only : gentle call with
  | true =>
    have parts : Gently False w (w.perform call) := perform_gently sound only False.elim
    exact parts.timer
  | false =>
    cases call with
    | advance => cases none
    | queue | setEncounter | attach | discover | load => exact (perform_touch rfl).timer
    | update serial diff =>
      cases found : w.host? serial with
      | some b => simp only [perform,update,found,modifyHost]
      | none => exact (update_touch found diff).timer
    | settle serial diff =>
      cases found : w.host? serial with
      | some b => simp only [perform,settle,found,tell,modifyHost]
      | none => exact (settle_touch found diff).timer
    | unload =>
      simp only [perform,unload]
      split <;> rfl
    | claimId =>
      simp only [perform,claimId]
      split <;> rfl
    | unloadAll => rfl
    | _ => cases only

-- The timer shows the time gathered, and no time that was brought is lost or counted twice.
structure Timed (interval : UInt32) (w : World) (past : List Stride) : Prop where
  interval : w.schedule.timer.interval = interval
  current : Stride.Bounded past → w.schedule.timer.current.toNat = Stride.gathered past
  whole : Stride.Bounded past → (Stride.passes past).sum + Stride.gathered past = Stride.brought past

theorem Timed.sum {interval elapsed : UInt32} (timed : w.Timed interval past) (bounded : Stride.Bounded past)
    (small : Stride.gathered past + elapsed.toNat ≤ 0xffffffff) :
    (w.schedule.timer.add elapsed).current.toNat = Stride.gathered past + elapsed.toNat := by
  rw [IntervalTimer.toNat_add,timed.current bounded]
  exact Nat.min_eq_left small

theorem perform_timed (sound : w.Sound) {interval : UInt32} (timed : w.Timed interval past)
    (call : WorldCall) : (w.perform call).Timed interval (w.strideOf call ++ past) := by
  by_cases timeless : w.strideOf call = []
  · have same := perform_timer sound timeless
    rw [timeless,List.nil_append]
    refine ⟨?_,?_,timed.whole⟩
    · rw [same]
      exact timed.interval
    · rw [same]
      exact timed.current
  · cases call with
    | advance elapsed times =>
      cases passed : (w.schedule.timer.add elapsed).passed with
      | true =>
        have stride := stride_passed passed times
        have timer : (w.perform (.advance elapsed times)).schedule.timer =
            (w.schedule.timer.add elapsed).reset := by
          simp [perform,advance,passed]
        rw [stride,List.singleton_append]
        refine ⟨?_,?_,?_⟩
        · rw [timer]
          exact timed.interval
        · intro _
          rw [timer,Stride.gathered_passed rfl]
          rfl
        · intro bounded
          obtain ⟨small,before⟩ := bounded
          have sum : (w.schedule.timer.add elapsed).current.toNat = Stride.gathered past + elapsed.toNat :=
            timed.sum before small
          have whole := timed.whole before
          rw [Stride.gathered_passed rfl,Stride.passes_passed rfl,Stride.brought_cons,List.sum_cons]
          dsimp only
          omega
      | false =>
        have stride := stride_early passed times
        have timer : (w.perform (.advance elapsed times)).schedule.timer = w.schedule.timer.add elapsed := by
          simp [perform,advance,passed]
        rw [stride,List.singleton_append]
        refine ⟨?_,?_,?_⟩
        · rw [timer]
          exact timed.interval
        · intro bounded
          obtain ⟨small,before⟩ := bounded
          rw [timer,timed.sum before small,Stride.gathered_waiting rfl]
          exact Nat.add_comm ..
        · intro bounded
          have whole := timed.whole bounded.2
          rw [Stride.gathered_waiting rfl,Stride.passes_waiting rfl,Stride.brought_cons]
          omega
    | _ => exact absurd rfl timeless

-- The maps in service after a pass are those before it that it reached.
theorem served_pass (sound : w.Sound) (diff : UInt32) (member : b ∈ (w.pass diff).maps) (inside : m ∈ b.all) :
    ∃ host ∈ w.maps, ∃ old ∈ host.all, m = (old.advance diff).settle := by
  rw [pass_exact sound] at member
  obtain ⟨host,registered,rfl⟩ := List.mem_map.mp member
  rw [BaseMap.delayed,BaseMap.all_mapAll] at inside
  obtain ⟨turned,held,rfl⟩ := List.mem_map.mp inside
  obtain ⟨old,reached,rfl⟩ := mem_primary held
  exact ⟨host,registered,old,reachedBy_all reached,rfl⟩

theorem served_still (sound : w.Sound) (still : ∀ m, (w.fate call m).clock = m.clock)
    (member : b ∈ (w.perform call).maps) (inside : m ∈ b.all) : w.born ≤ m.serial ∧ m.New ∨
      ∃ host ∈ w.maps, ∃ old ∈ host.all, m.serial = old.serial ∧ m.clock = old.clock := by
  have running : m ∈ (w.perform call).live := all_live (List.mem_append_left _ member) inside
  rcases (perform_fate sound call).maps m running with new | ⟨old,among,rfl⟩
  · exact .inl new
  · apply Or.inr
    have serial := (fate_steady w call).serial old
    have steps : Steps False w (w.perform call) := perform_steps sound call False.elim
    have serves : (w.perform call).InService old.serial := ⟨b,member,serial ▸ List.mem_map_of_mem inside⟩
    rcases steps.inService sound serves with unborn | ⟨host,registered,held⟩
    · have born := sound.born old.serial (List.mem_map_of_mem among)
      omega
    · have held := (mem_host_serials sound.distinct (List.mem_append_left _ registered) among).mp held
      exact ⟨host,registered,old,held,serial,still old⟩

-- A call other than a direct update takes each map that stays in service through the
-- primary phase as often as it runs a pass; what else is in service is new.
theorem served_cases (sound : w.Sound) (passing : call.direct = false) (member : b ∈ (w.perform call).maps)
    (inside : m ∈ b.all) : w.born ≤ m.serial ∧ m.New ∨
      ∃ host ∈ w.maps, ∃ old ∈ host.all, m.serial = old.serial ∧
        m.ticks = old.ticks + (Stride.passes (w.strideOf call)).length ∧
        m.elapsed = old.elapsed + (Stride.passes (w.strideOf call)).sum := by
  have timeless (none : Stride.passes (w.strideOf call) = []) (still : ∀ m, (w.fate call m).clock = m.clock) :
      w.born ≤ m.serial ∧ m.New ∨ ∃ host ∈ w.maps, ∃ old ∈ host.all, m.serial = old.serial ∧
        m.ticks = old.ticks + (Stride.passes (w.strideOf call)).length ∧
        m.elapsed = old.elapsed + (Stride.passes (w.strideOf call)).sum := by
    rw [none]
    refine (served_still sound still member inside).imp_right fun served => ?_
    obtain ⟨host,registered,old,held,serial,clock⟩ := served
    exact ⟨host,registered,old,held,serial,congrArg Clock.ticks clock,congrArg Clock.elapsed clock⟩
  cases call with
  | advance elapsed times =>
    cases passed : (w.schedule.timer.add elapsed).passed with
    | true =>
      have maps : (w.perform (.advance elapsed times)).maps =
          (w.pass (w.schedule.timer.add elapsed).current).maps := by
        simp [perform,advance,passed]
      rw [maps] at member
      obtain ⟨host,registered,old,held,rfl⟩ := served_pass sound _ member inside
      refine .inr ⟨host,registered,old,held,rfl,?_⟩
      rw [stride_passed passed,Stride.passes_passed rfl]
      exact ⟨rfl,rfl⟩
    | false =>
      apply timeless
      · rw [stride_early passed]
        rfl
      · intro m
        simp only [fate,passed]
        split <;> rfl
  | update => cases passing
  | _ => exact timeless rfl (fate_timeless rfl)

structure Counted (w : World) (past : List Stride) : Prop where
  counts : ∀ b ∈ w.maps, ∀ m ∈ b.all, m.ticks = (Stride.passesOver m.serial past).length ∧
    m.elapsed = (Stride.passesOver m.serial past).sum
  born : ∀ s ∈ past, s.born ≤ w.born

theorem strideOf_born (w : World) (call : WorldCall) : ∀ s ∈ w.strideOf call, s.born = w.born := by
  intro s among
  cases call with
  | advance elapsed times =>
    rw [List.mem_singleton.mp among]
  | _ => cases among

theorem perform_counted (sound : w.Sound) (counted : w.Counted past) (passing : call.direct = false) :
    (w.perform call).Counted (w.strideOf call ++ past) := by
  have grown := (perform_fate sound call).born
  have all : ∀ s ∈ w.strideOf call ++ past, s.born ≤ w.born := by
    intro s among
    rcases List.mem_append.mp among with new | old
    · exact Nat.le_of_eq (strideOf_born w call s new)
    · exact counted.born s old
  refine ⟨fun b member m inside => ?_,fun s among => Nat.le_trans (all s among) grown⟩
  rcases served_cases sound passing member inside with ⟨later,new⟩ | ⟨host,registered,old,held,serial,ticks,elapsed⟩
  · have none : (w.strideOf call ++ past).filter (fun s => m.serial < s.born) = [] := by
      refine List.filter_eq_nil_iff.mpr fun s among => ?_
      have := all s among
      simp
      omega
    rw [Stride.passesOver,none,new.ticks,new.elapsed]
    exact ⟨rfl,rfl⟩
  · obtain ⟨ticksBefore,elapsedBefore⟩ := counted.counts host registered old held
    have there := sound.born old.serial
      (List.mem_map_of_mem (all_live (List.mem_append_left _ registered) held))
    have whole : (w.strideOf call).filter (fun s => m.serial < s.born) = w.strideOf call := by
      refine List.filter_eq_self.mpr fun s among => ?_
      rw [strideOf_born w call s among,serial]
      exact decide_eq_true there
    rw [Stride.passesOver,List.filter_append,whole,Stride.passes_append,serial,List.length_append,List.sum_append,
      ticks,elapsed,ticksBefore,elapsedBefore]
    exact ⟨Nat.add_comm ..,Nat.add_comm ..⟩

-- A pass runs just when the time gathered has reached the interval, and hands all of it
-- on. Passes and the timer hold all time that was brought, and each map in service has
-- counted the passes since its creation, and their time.
theorem passes_keep_time {data : CatalogData} {c : Catalog} (built : Catalog.build data = .ok c)
    (config : WorldConfig) (tiles : Terrain.TileSource) (saved : SavedState)
    {allowed : World → WorldCall → Prop} (run : Noted strideOf allowed (start c config tiles saved) w past)
    (bounded : Stride.Bounded past) :
    (∀ elapsed times, Stride.gathered past + elapsed.toNat ≤ 0xffffffff →
      ((w.advance elapsed times).2 = true ↔
        config.updateInterval.toNat ≤ Stride.gathered past + elapsed.toNat) ∧
      ((w.advance elapsed times).2 = true →
        (w.advance elapsed times).1.schedule.last.diff.toNat = Stride.gathered past + elapsed.toNat)) ∧
    (Stride.passes past).sum + w.schedule.timer.current.toNat = Stride.brought past ∧
    ((∀ w call, allowed w call → call.direct = false) → ∀ b ∈ w.maps, ∀ m ∈ b.all,
      m.ticks = (Stride.passesOver m.serial past).length ∧
        m.elapsed = (Stride.passesOver m.serial past).sum) := by
  have started := start_sound (Catalog.build_forest built) config tiles saved
  have timed : w.Timed config.updateInterval past := by
    apply run.kept started
    · exact ⟨rfl,fun _ => rfl,fun _ => rfl⟩
    · exact fun call sound timed _ => perform_timed sound timed call
  have counted (passing : ∀ w call, allowed w call → call.direct = false) : w.Counted past := by
    apply run.kept started
    · exact ⟨fun b none => (by cases none),fun s none => (by cases none)⟩
    · exact fun call sound counted permitted => perform_counted sound counted (passing _ call permitted)
  refine ⟨fun elapsed times small => ?_,?_,fun passing => (counted passing).counts⟩
  · have sum := timed.sum bounded small
    have passed : (w.schedule.timer.add elapsed).passed = true ↔
        config.updateInterval.toNat ≤ Stride.gathered past + elapsed.toNat := by
      rw [←sum,←timed.interval]
      exact decide_eq_true_iff
    rw [advance_passed]
    refine ⟨passed,fun ran => ?_⟩
    rw [←sum]
    simp [advance,ran]
  · rw [timed.current bounded]
    exact timed.whole bounded

-- A pass runs past the interval, and a copy that comes after it counts the next one alone.
theorem passes_keep_time_overshoot :
    let data : CatalogData := {maps := [{id := ⟨36⟩, kind := .dungeon}]}
    ∃ c w, ∃ past : List Stride, ∃ b ∈ w.maps, ∃ m ∈ b.all, Catalog.build data = .ok c ∧
      Noted strideOf (fun _ call => call.direct = false) (start c {updateInterval := 10} .none .empty) w past ∧
      past = [⟨3,none,3⟩,⟨10,some 10,3⟩,⟨5,some 12,2⟩,⟨7,none,2⟩] ∧
      (Stride.passes past).sum + w.schedule.timer.current.toNat = 25 ∧
      (w.advance 6 ⟨0,0⟩).2 = false ∧ (w.advance 7 ⟨0,0⟩).2 = true ∧
      m.serial = 2 ∧ m.ticks = 1 ∧ m.elapsed = 10 := by
  intro data
  obtain ⟨c,built⟩ : ∃ c, Catalog.build data = .ok c := ⟨_,rfl⟩
  have started : Noted strideOf (fun _ call => call.direct = false)
    (start c {updateInterval := 10} .none .empty) _ _ := .start
  have run := started
    |>.step (.createMap ⟨36⟩ {participant := .nil, difficulty := .normal}) rfl
    |>.step (.advance 7 ⟨0,0⟩) rfl
    |>.step (.advance 5 ⟨0,0⟩) rfl
    |>.step (.createMap ⟨36⟩ {participant := .nil, difficulty := .normal}) rfl
    |>.step (.advance 10 ⟨0,0⟩) rfl
    |>.step (.advance 3 ⟨0,0⟩) rfl
  obtain ⟨w,past,run,strides,b,member,m,inside,serial⟩ : ∃ w, ∃ past : List Stride,
      Noted strideOf (fun _ call => call.direct = false) (start c {updateInterval := 10} .none .empty) w past ∧
      past = [⟨3,none,3⟩,⟨10,some 10,3⟩,⟨5,some 12,2⟩,⟨7,none,2⟩] ∧
      ∃ b ∈ w.maps, ∃ m ∈ b.all, m.serial = 2 := by
    cases built
    exact ⟨_,_,run,by decide,by decide⟩
  subst strides
  have bounded : Stride.Bounded [⟨3,none,3⟩,⟨10,some 10,3⟩,⟨5,some 12,2⟩,⟨7,none,2⟩] := by
    simp [Stride.Bounded,Stride.gathered,Stride.brought]
  obtain ⟨passing,whole,counts⟩ := passes_keep_time built {updateInterval := 10} .none .empty run bounded
  obtain ⟨ticks,elapsed⟩ := counts (fun _ _ permitted => permitted) b member m inside
  rw [serial] at ticks elapsed
  refine ⟨c,w,_,b,member,m,inside,built,run,rfl,whole,?_,?_,serial,ticks,elapsed⟩
  · exact Bool.eq_false_iff.mpr (mt (passing 6 ⟨0,0⟩ (by decide)).1.mp (by decide))
  · exact (passing 7 ⟨0,0⟩ (by decide)).1.mpr (by decide)

end World
end LiveMaps
