import LiveMaps.Proofs.World.Fates
import Mathlib.Algebra.Order.Ring.Nat
import Mathlib.Data.List.Flatten

namespace LiveMaps

-- One primary update of a map: the time it brought, and whether it found the map
-- empty with no movement queued.
structure Turn where
  diff : UInt32
  quiet : Bool
  deriving DecidableEq, Repr

structure Clock where
  ticks : Nat
  elapsed : Nat
  idle : UInt32
  deriving DecidableEq, Repr

namespace Clock

def turn (t : Turn) (c : Clock) : Clock :=
  ⟨c.ticks + 1,c.elapsed + t.diff.toNat,if t.quiet then LiveMap.addSaturating c.idle t.diff else 0⟩

def of (past : List Turn) : Clock := past.foldr turn ⟨0,0,0⟩

def quietTime (past : List Turn) : Nat := ((past.takeWhile Turn.quiet).map (·.diff.toNat)).sum

theorem toNat_addSaturating (a b : UInt32) :
    (LiveMap.addSaturating a b).toNat = min (a.toNat + b.toNat) 0xffffffff := by
  have := a.toNat_lt
  have := b.toNat_lt
  unfold LiveMap.addSaturating
  split
  · rename_i small
    rw [UInt32.toNat_add,Nat.mod_eq_of_lt small]
    omega
  · rw [show (0xffffffff : UInt32).toNat = 0xffffffff from rfl]
    omega

theorem idle_of (past : List Turn) : (of past).idle.toNat = min (quietTime past) 0xffffffff := by
  induction past with
  | nil => rfl
  | cons t past ih =>
    change ((of past).turn t).idle.toNat = _
    unfold turn quietTime
    cases quiet : t.quiet with
    | false => simp [quiet]
    | true =>
      simp only [if_true,toNat_addSaturating,ih,List.takeWhile_cons,quiet,List.map_cons,List.sum_cons]
      unfold quietTime
      omega

end Clock

def LiveMap.clock (m : LiveMap) : Clock := ⟨m.ticks,m.elapsed,m.idle⟩

theorem LiveMap.clock_advance (m : LiveMap) (diff : UInt32) :
    (m.advance diff).clock = m.clock.turn ⟨diff,m.isQuiet⟩ := rfl

def WorldCall.bringsTime : WorldCall → Bool
  | .update _ _ => true
  | .advance _ _ => true
  | _ => false

theorem LiveMap.New.clock {m : LiveMap} (new : m.New) : m.clock = .of [] := by
  unfold LiveMap.clock
  rw [new.ticks,new.elapsed,new.idle]
  rfl

namespace World
open Ordered
variable {w after : World} {b : BaseMap} {m : LiveMap} {call : WorldCall} {diff : UInt32} {serial : Nat}

-- The maps that a call takes through the primary phase, as it finds them, each with
-- the time that it brings.
def turned (w : World) : WorldCall → List (LiveMap × UInt32)
  | .update serial diff =>
    match w.host? serial with
    | some b => (b.reachedBy w.config.unloadDelay).map (·,diff)
    | none => (w.live? serial).toList.map (·,diff)
  | .advance elapsed _ =>
    let timer := w.schedule.timer.add elapsed
    if timer.passed then
      (w.maps.flatMap (BaseMap.reachedBy w.config.unloadDelay)).map (·,timer.current)
    else []
  | _ => []

def turnsOf (w : World) (call : WorldCall) (serial : Nat) : List Turn :=
  ((w.turned call).filter (fun t => t.1.serial == serial)).map (fun t => ⟨t.2,t.1.isQuiet⟩)

-- Worlds that calls lead to, with the updates that each running map has had on the way,
-- latest first.
inductive Lived (allowed : World → WorldCall → Prop) (origin : World) :
    World → (Nat → List Turn) → Prop where
  | start : Lived allowed origin origin (fun _ => [])
  | step {w : World} {past : Nat → List Turn} : Lived allowed origin w past → ∀ call, allowed w call →
      Lived allowed origin (w.perform call) (fun serial => w.turnsOf call serial ++ past serial)

theorem Lived.reached {allowed : World → WorldCall → Prop} {origin : World} {past : Nat → List Turn}
    (life : Lived allowed origin w past) : Reached allowed origin w := by
  induction life with
  | start => exact .start
  | step _ call permitted ih => exact ih.step call permitted

theorem reachedBy_sublist (delay : UInt32) (b : BaseMap) : (b.reachedBy delay).Sublist b.all :=
  List.filter_sublist.cons_cons b.own

theorem all_sublist (member : b ∈ w.hosts) : b.all.Sublist w.live := by
  obtain ⟨front,back,split⟩ := List.append_of_mem member
  rw [live,split,List.flatMap_append,List.flatMap_cons,List.append_assoc,List.append_assoc]
  exact (List.sublist_append_left _ _).trans (List.sublist_append_right _ _)

theorem turned_host (found : w.host? serial = some b) (diff : UInt32) :
    w.turned (.update serial diff) = (b.reachedBy w.config.unloadDelay).map (·,diff) := by
  simp [turned,found]

theorem turned_other (none : w.host? serial = none) (diff : UInt32) :
    w.turned (.update serial diff) = (w.live? serial).toList.map (·,diff) := by
  simp [turned,none]

theorem turned_pass {elapsed : UInt32} (passed : (w.schedule.timer.add elapsed).passed = true)
    (times : PassTimes) : w.turned (.advance elapsed times) =
      (w.maps.flatMap (BaseMap.reachedBy w.config.unloadDelay)).map
        (·,(w.schedule.timer.add elapsed).current) := by
  simp [turned,passed]

theorem turned_early {elapsed : UInt32} (early : (w.schedule.timer.add elapsed).passed = false)
    (times : PassTimes) : w.turned (.advance elapsed times) = [] := by
  simp [turned,early]

theorem turned_timeless (timeless : call.bringsTime = false) : w.turned call = [] := by
  cases call with
  | update | advance => cases timeless
  | _ => rfl

theorem turned_sublist (w : World) (call : WorldCall) :
    ((w.turned call).map Prod.fst).Sublist w.live := by
  have bare (maps : List LiveMap) (diff : UInt32) : (maps.map (·,diff)).map Prod.fst = maps := by
    rw [List.map_map]
    exact List.map_id maps
  cases call with
  | update serial diff =>
    cases found : w.host? serial with
    | some b =>
      rw [turned_host found,bare]
      exact (reachedBy_sublist _ _).trans (all_sublist (host?_parts found).1)
    | none =>
      rw [turned_other found,bare]
      cases here : w.live? serial with
      | none => exact List.nil_sublist _
      | some m => exact List.singleton_sublist.mpr (List.mem_of_find?_eq_some here)
  | advance elapsed times =>
    cases passed : (w.schedule.timer.add elapsed).passed with
    | false =>
      rw [turned_early passed]
      exact List.nil_sublist _
    | true =>
      rw [turned_pass passed,bare,live,hosts,List.flatMap_append,List.append_assoc]
      have reached : (w.maps.flatMap (BaseMap.reachedBy w.config.unloadDelay)).Sublist
          (w.maps.flatMap BaseMap.all) := List.Sublist.flatMap_right _ fun b _ => reachedBy_sublist _ b
      exact reached.trans (List.sublist_append_left _ _)
  | _ => exact List.nil_sublist _

theorem turnsOf_reached (distinct : w.serials.Nodup) (reached : (m,diff) ∈ w.turned call) :
    w.turnsOf call m.serial = [⟨diff,m.isQuiet⟩] := by
  have serials := distinct.sublist ((turned_sublist w call).map LiveMap.serial)
  obtain ⟨front,back,split⟩ := List.append_of_mem reached
  rw [split,List.map_map,List.map_eq_flatMap] at serials
  have apart {t : LiveMap × UInt32} (among : t ∈ front ∨ t ∈ back) : ¬ (t.1.serial == m.serial) = true := by
    rw [beq_iff_eq]
    exact flatMap_apart serials among List.mem_cons_self List.mem_cons_self
  unfold turnsOf
  rw [split,List.filter_append,List.filter_cons,if_pos (beq_self_eq_true m.serial),
    List.filter_eq_nil_iff.mpr fun t among => apart (.inl among),
    List.filter_eq_nil_iff.mpr fun t among => apart (.inr among)]
  rfl

theorem turnsOf_none (apart : ∀ t ∈ w.turned call, t.1.serial ≠ serial) : w.turnsOf call serial = [] := by
  unfold turnsOf
  rw [List.filter_eq_nil_iff.mpr fun t member => by simpa using apart t member]
  rfl

theorem turnsOf_passed (distinct : w.serials.Nodup) (member : m ∈ w.live)
    (apart : ∀ diff, (m,diff) ∉ w.turned call) : w.turnsOf call m.serial = [] := by
  refine turnsOf_none fun t among same => ?_
  have there := (turned_sublist w call).subset (List.mem_map_of_mem among)
  have equal := live_inj distinct there member same
  subst equal
  exact apart t.2 among

theorem turnsOf_unborn (sound : w.Sound) (unborn : w.born ≤ serial) : w.turnsOf call serial = [] := by
  refine turnsOf_none fun t among same => ?_
  have there := (turned_sublist w call).subset (List.mem_map_of_mem among)
  have born := sound.born _ (List.mem_map_of_mem there)
  omega

theorem fate_timeless (timeless : call.bringsTime = false) (m : LiveMap) :
    (w.fate call m).clock = m.clock := by
  cases call with
  | update | advance => cases timeless
  | queue | setEncounter | attach | discover | load =>
    apply same_atSerial LiveMap.clock
    exact fun _ => rfl
  | settle | unload =>
    simp only [fate]
    split
    · apply same_within LiveMap.clock
      exact fun _ => rfl
    · apply same_atSerial LiveMap.clock
      exact fun _ => rfl
  | unloadAll =>
    simp only [fate]
    split <;> rfl
  | _ => rfl

-- Whether a call takes a map through the primary phase, and that its clock says so.
structure Turns (w : World) (call : WorldCall) (m : LiveMap) (diff : UInt32) : Prop where
  reached : (m,diff) ∈ w.turned call
  clock : (w.fate call m).clock = (m.advance diff).clock

structure Rests (w : World) (call : WorldCall) (m : LiveMap) : Prop where
  passed : ∀ diff, (m,diff) ∉ w.turned call
  clock : (w.fate call m).clock = m.clock

theorem update_turns (sound : w.Sound) (running : m ∈ w.live) (serial : Nat) (diff : UInt32) :
    Turns w (.update serial diff) m diff ∨ Rests w (.update serial diff) m := by
  cases found : w.host? serial with
  | some b =>
    obtain ⟨member,rfl⟩ := host?_parts found
    have fate := congrFun (fate_update_host found diff) m
    have inside {d : UInt32} (among : (m,d) ∈ w.turned (.update b.serial diff)) :
        m ∈ b.reachedBy w.config.unloadDelay := by
      rw [turned_host found] at among
      obtain ⟨_,held,same⟩ := List.mem_map.mp among
      cases same
      exact held
    by_cases held : m ∈ b.all
    · rw [within_inside _ held] at fate
      rcases all_cases w.config.unloadDelay held with reached | expired
      · refine .inl ⟨?_,by rw [fate,turnFate_reached reached]⟩
        rw [turned_host found]
        exact List.mem_map_of_mem reached
      · refine .inr ⟨fun d among => ?_,by rw [fate,turnFate_expired sound.distinct member expired]; rfl⟩
        exact expired_unreachedBy (sound.bases b member) expired (inside among)
    · rw [within_outside sound.distinct member running held] at fate
      exact .inr ⟨fun d among => held (reachedBy_all (inside among)),by rw [fate]⟩
  | none =>
    have fate := congrFun (fate_update_other found diff) m
    by_cases named : m.serial = serial
    · have here : w.live? serial = some m := named ▸ live?_serial sound.distinct running
      refine .inl ⟨?_,by rw [fate,atSerial,if_pos named]⟩
      rw [turned_other found,here]
      exact List.mem_cons_self
    · refine .inr ⟨fun d among => named ?_,by rw [fate,atSerial,if_neg named]⟩
      rw [turned_other found] at among
      obtain ⟨other,sought,same⟩ := List.mem_map.mp among
      cases same
      have sought := Option.mem_toList.mp sought
      simpa using List.find?_some sought

theorem advance_turns (sound : w.Sound) (running : m ∈ w.live) (elapsed : UInt32) (times : PassTimes) :
    Turns w (.advance elapsed times) m (w.schedule.timer.add elapsed).current ∨
      Rests w (.advance elapsed times) m := by
  cases passed : (w.schedule.timer.add elapsed).passed with
  | false =>
    refine .inr ⟨fun d among => ?_,?_⟩
    · rw [turned_early passed] at among
      cases among
    · simp only [fate,passed]
      split <;> rfl
  | true =>
    have inside {d : UInt32} (among : (m,d) ∈ w.turned (.advance elapsed times)) :
        ∃ b, w.keeper? m = some b ∧ m ∈ b.reachedBy w.config.unloadDelay := by
      rw [turned_pass passed] at among
      obtain ⟨_,held,same⟩ := List.mem_map.mp among
      cases same
      exact (mem_reached sound.distinct running _).mp held
    cases found : w.keeper? m with
    | none =>
      refine .inr ⟨fun d among => ?_,by simp only [fate,found]⟩
      obtain ⟨b,kept,_⟩ := inside among
      rw [found] at kept
      cases kept
    | some b =>
      obtain ⟨member,held⟩ := (keeper?_iff sound.distinct running).mp found
      have hosted : b ∈ w.hosts := List.mem_append_left _ member
      have fate : w.fate (.advance elapsed times) m =
          (b.turnFate w.config.unloadDelay (w.schedule.timer.add elapsed).current m).settle := by
        simp only [fate,found,passed,if_true]
      rcases all_cases w.config.unloadDelay held with reached | expired
      · refine .inl ⟨?_,by rw [fate,turnFate_reached reached]; rfl⟩
        rw [turned_pass passed]
        exact List.mem_map_of_mem ((mem_reached sound.distinct running _).mpr ⟨b,found,reached⟩)
      · refine .inr ⟨fun d among => ?_,by rw [fate,turnFate_expired sound.distinct hosted expired]; rfl⟩
        obtain ⟨other,kept,reached⟩ := inside among
        rw [found] at kept
        cases kept
        exact expired_unreachedBy (sound.bases b hosted) expired reached

theorem fate_turns (sound : w.Sound) (running : m ∈ w.live) (call : WorldCall) :
    (∃ diff, Turns w call m diff) ∨ Rests w call m := by
  cases brings : call.bringsTime with
  | false =>
    refine .inr ⟨fun d among => ?_,fate_timeless brings m⟩
    rw [turned_timeless brings] at among
    cases among
  | true =>
    cases call with
    | update serial diff => exact (update_turns sound running serial diff).imp_left fun turns => ⟨_,turns⟩
    | advance elapsed times =>
      exact (advance_turns sound running elapsed times).imp_left fun turns => ⟨_,turns⟩
    | _ => cases brings

theorem fate_clock (sound : w.Sound) (running : m ∈ w.live) (call : WorldCall) :
    (w.fate call m).clock = (w.turnsOf call m.serial).foldr Clock.turn m.clock := by
  rcases fate_turns sound running call with ⟨diff,turns⟩ | rests
  · rw [turns.clock,turnsOf_reached sound.distinct turns.reached]
    exact LiveMap.clock_advance m diff
  · rw [rests.clock,turnsOf_passed sound.distinct running rests.passed]
    rfl

structure Recorded (w : World) (past : Nat → List Turn) : Prop where
  clocks : ∀ m ∈ w.live, m.clock = .of (past m.serial)
  unborn : ∀ serial, w.born ≤ serial → past serial = []

theorem perform_recorded (sound : w.Sound) {past : Nat → List Turn} (recorded : w.Recorded past)
    (call : WorldCall) :
    (w.perform call).Recorded (fun serial => w.turnsOf call serial ++ past serial) := by
  have brings := perform_fate sound call
  have unborn (serial : Nat) (later : w.born ≤ serial) : w.turnsOf call serial ++ past serial = [] := by
    rw [turnsOf_unborn sound later,recorded.unborn serial later]
    rfl
  refine ⟨fun m running => ?_,fun serial later => unborn serial (Nat.le_trans brings.born later)⟩
  rcases brings.maps m running with ⟨later,new⟩ | ⟨old,member,rfl⟩
  · rw [unborn m.serial later,new.clock]
  · rw [fate_clock sound member,(fate_steady w call).serial old,recorded.clocks old member,Clock.of,Clock.of,
      List.foldr_append]

theorem Lived.recorded {allowed : World → WorldCall → Prop} {catalog : Catalog} (forest : catalog.Forest)
    (config : WorldConfig) (tiles : Terrain.TileSource) (saved : SavedState) {past : Nat → List Turn}
    (life : Lived allowed (World.start catalog config tiles saved) w past) : w.Recorded past := by
  induction life with
  | start => exact ⟨fun m none => (by cases none),fun _ _ => rfl⟩
  | step before call _ ih =>
    exact perform_recorded (Reached.sound (start_sound forest config tiles saved) before.reached) ih call

end World
end LiveMaps
