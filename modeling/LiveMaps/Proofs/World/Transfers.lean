import LiveMaps.Proofs.World.Fates
import Mathlib.Data.List.Induction

namespace LiveMaps

-- What befalls the transfers of a map: one more is queued, or all that wait take effect.
inductive Deed where
  | queued (transfer : Transfer)
  | settled
  deriving DecidableEq, Repr

structure Crowd where
  inside : List ParticipantId
  waiting : List Transfer
  deriving DecidableEq, Repr

def LiveMap.crowd (m : LiveMap) : Crowd := ⟨m.participants,m.pending⟩

def Transfer.names (p : ParticipantId) : Transfer → Bool
  | .enter other => other == p
  | .leave other => other == p

namespace Crowd

def act : Deed → Crowd → Crowd
  | .queued t,c => {c with waiting := c.waiting ++ [t]}
  | .settled,c => ⟨c.waiting.foldl LiveMap.applyTransfer c.inside,[]⟩

def of (past : List Deed) : Crowd := past.foldr act ⟨[],[]⟩

end Crowd

namespace Deed
variable {past : List Deed}

def transfer? : Deed → Option Transfer
  | queued t => some t
  | settled => none

-- All transfers that deeds, latest first, have queued, in the order of the queue.
def transfers (past : List Deed) : List Transfer := past.reverse.filterMap transfer?

def applied (past : List Deed) : List Transfer := transfers (past.dropWhile (· != settled))

def waiting (past : List Deed) : List Transfer := transfers (past.takeWhile (· != settled))

theorem transfers_append (later past : List Deed) :
    transfers (later ++ past) = transfers past ++ transfers later := by
  unfold transfers
  rw [List.reverse_append,List.filterMap_append]

theorem transfers_parts (past : List Deed) : transfers past = applied past ++ waiting past := by
  unfold applied waiting
  rw [←transfers_append,List.takeWhile_append_dropWhile]

theorem applied_queued (t : Transfer) (past : List Deed) : applied (queued t :: past) = applied past := rfl

theorem waiting_queued (t : Transfer) (past : List Deed) :
    waiting (queued t :: past) = waiting past ++ [t] :=
  transfers_append [queued t] (past.takeWhile (· != settled))

theorem applied_settled (past : List Deed) : applied (settled :: past) = applied past ++ waiting past := by
  have all : applied (settled :: past) = transfers past := by
    change transfers ([settled] ++ past) = _
    rw [transfers_append]
    exact List.append_nil _
  exact all.trans (transfers_parts past)

theorem waiting_settled (past : List Deed) : waiting (settled :: past) = [] := rfl

-- Each delayed phase applies what has been queued since the last one, so altogether all
-- is applied once and in order.
theorem crowd_of (past : List Deed) :
    Crowd.of past = ⟨(applied past).foldl LiveMap.applyTransfer [],waiting past⟩ := by
  induction past with
  | nil => rfl
  | cons d past ih =>
    change Crowd.act d (Crowd.of past) = _
    rw [ih]
    cases d with
    | queued t =>
      rw [applied_queued,waiting_queued]
      rfl
    | settled =>
      rw [applied_settled,waiting_settled,List.foldl_append]
      rfl

end Deed

namespace LiveMap
variable {p : ParticipantId} {inside : List ParticipantId} {t : Transfer}

theorem mem_enter {q : ParticipantId} : p ∈ applyTransfer inside (.enter q) ↔ p = q ∨ p ∈ inside := by
  constructor
  · exact Ordered.mem_of_insert
  · intro either
    by_cases same : p = q
    · subst same
      exact Ordered.mem_insert_self
    · exact Ordered.mem_insert_of_ne (either.resolve_left same) (mt ParticipantId.order_inj.mp same)

theorem mem_leave {q : ParticipantId} : p ∈ applyTransfer inside (.leave q) ↔ p ∈ inside ∧ p ≠ q := by
  simp [applyTransfer]

theorem mem_applied (p : ParticipantId) (transfers : List Transfer) :
    p ∈ transfers.foldl applyTransfer [] ↔ (transfers.filter (Transfer.names p)).getLast? = some (.enter p) := by
  induction transfers using List.reverseRecOn with
  | nil => simp
  | append_singleton earlier t ih =>
    rw [List.foldl_append,List.filter_append]
    cases t with
    | enter q =>
      by_cases same : q = p
      · subst same
        simp [mem_enter,Transfer.names]
      · simp [mem_enter,Transfer.names,same,Ne.symm same,ih]
    | leave q =>
      by_cases same : q = p
      · subst same
        simp [mem_leave,Transfer.names]
      · simp [mem_leave,Transfer.names,same,Ne.symm same,ih]

end LiveMap

def WorldCall.clears : WorldCall → Bool
  | .unload _ => true
  | .unloadAll => true
  | _ => false

def WorldCall.queues (serial : Nat) : WorldCall → List Transfer
  | .queue named transfer => if named = serial then [transfer] else []
  | _ => []

namespace World
variable {w after : World} {b : BaseMap} {m : LiveMap} {call : WorldCall} {serial : Nat}

def settled (w : World) : WorldCall → List Nat
  | .settle serial _ =>
    match w.host? serial with
    | some b => b.serials
    | none => [serial]
  | .advance elapsed _ =>
    if (w.schedule.timer.add elapsed).passed then
      (w.maps.flatMap (BaseMap.reachedBy w.config.unloadDelay)).map LiveMap.serial
    else []
  | _ => []

def deedsOf (serial : Nat) (w : World) (call : WorldCall) : List Deed :=
  if serial ∈ w.serials then
    (call.queues serial).map .queued ++ (if serial ∈ w.settled call then [.settled] else [])
  else []

theorem queues_cases (serial : Nat) (call : WorldCall) :
    call.queues serial = [] ∨ ∃ transfer, call = .queue serial transfer ∧ call.queues serial = [transfer] := by
  cases call with
  | queue named transfer =>
    by_cases same : named = serial
    · subst same
      exact .inr ⟨transfer,rfl,if_pos rfl⟩
    · exact .inl (if_neg same)
  | _ => exact .inl rfl

theorem expired_crowd {delay : UInt32} (expired : m.isExpired delay = true) : m.crowd = ⟨[],[]⟩ := by
  unfold LiveMap.isExpired LiveMap.isQuiet at expired
  simp only [Bool.and_eq_true,List.isEmpty_iff] at expired
  obtain ⟨⟨_,empty,unqueued⟩,_⟩ := expired
  unfold LiveMap.crowd
  rw [empty,unqueued]

theorem turnFate_crowd (delay diff : UInt32) (b : BaseMap) (m : LiveMap) :
    (b.turnFate delay diff m).crowd = m.crowd := by
  unfold BaseMap.turnFate
  split
  · rename_i gone
    rw [expired_crowd gone.2]
    rfl
  · rfl

theorem update_crowd (w : World) (serial : Nat) (diff : UInt32) (m : LiveMap) :
    (w.fate (.update serial diff) m).crowd = m.crowd := by
  simp only [fate]
  split
  · exact same_within LiveMap.crowd (turnFate_crowd _ diff _) _ m
  · apply same_atSerial LiveMap.crowd
    exact fun _ => rfl

theorem clear_cases (clears : call.clears = true) : w.fate call m = m ∨ w.fate call m = m.unload := by
  have whole {chosen : Prop} [Decidable chosen] :
      (if chosen then m.unload else m) = m ∨ (if chosen then m.unload else m) = m.unload := by
    split
    · exact .inr rfl
    · exact .inl rfl
  cases call with
  | unload serial =>
    simp only [fate]
    split
    · exact whole
    · exact whole
  | unloadAll => exact whole
  | _ => cases clears

theorem deedsOf_running (running : m ∈ w.live) (call : WorldCall) : w.deedsOf m.serial call =
    (call.queues m.serial).map .queued ++ (if m.serial ∈ w.settled call then [.settled] else []) :=
  if_pos (List.mem_map_of_mem running)

theorem settled_host (found : w.host? serial = some b) (diff : UInt32) :
    w.settled (.settle serial diff) = b.serials := by
  simp [settled,found]

theorem settled_other (none : w.host? serial = none) (diff : UInt32) :
    w.settled (.settle serial diff) = [serial] := by
  simp [settled,none]

theorem settled_pass {elapsed : UInt32} (passed : (w.schedule.timer.add elapsed).passed = true)
    (times : PassTimes) : w.settled (.advance elapsed times) =
      (w.maps.flatMap (BaseMap.reachedBy w.config.unloadDelay)).map LiveMap.serial := by
  simp [settled,passed]

theorem settled_early {elapsed : UInt32} (early : (w.schedule.timer.add elapsed).passed = false)
    (times : PassTimes) : w.settled (.advance elapsed times) = [] := by
  simp [settled,early]

-- In a pass, the maps that the primary phase reaches settle; the copies that it drops
-- have no crowd.

theorem pass_settles (sound : w.Sound) (running : m ∈ w.live) {elapsed : UInt32}
    (passed : (w.schedule.timer.add elapsed).passed = true) (times : PassTimes) :
    m.serial ∈ w.settled (.advance elapsed times) ↔
      ∃ b, w.keeper? m = some b ∧ m ∈ b.reachedBy w.config.unloadDelay := by
  rw [settled_pass passed,←mem_reached sound.distinct running]
  constructor
  · intro among
    obtain ⟨other,reached,same⟩ := List.mem_map.mp among
    obtain ⟨b,member,inside⟩ := List.mem_flatMap.mp reached
    have there := all_live (List.mem_append_left _ member) (reachedBy_all inside)
    exact live_inj sound.distinct there running same ▸ reached
  · intro reached
    exact List.mem_map_of_mem reached

theorem advance_crowd (sound : w.Sound) (running : m ∈ w.live) (elapsed : UInt32) (times : PassTimes) :
    (w.fate (.advance elapsed times) m).crowd =
      if m.serial ∈ w.settled (.advance elapsed times) then m.crowd.act .settled else m.crowd := by
  cases passed : (w.schedule.timer.add elapsed).passed with
  | false =>
    rw [settled_early passed,if_neg List.not_mem_nil]
    simp only [fate,passed]
    split <;> rfl
  | true =>
    have settles := pass_settles sound running passed times
    cases found : w.keeper? m with
    | none =>
      have outside : m.serial ∉ w.settled (.advance elapsed times) := by
        intro among
        obtain ⟨b,kept,_⟩ := settles.mp among
        rw [found] at kept
        cases kept
      rw [if_neg outside]
      simp only [fate,found]
    | some b =>
      obtain ⟨member,held⟩ := (keeper?_iff sound.distinct running).mp found
      have hosted : b ∈ w.hosts := List.mem_append_left _ member
      have fate : w.fate (.advance elapsed times) m =
          (b.turnFate w.config.unloadDelay (w.schedule.timer.add elapsed).current m).settle := by
        simp only [fate,found,passed,if_true]
      rw [fate]
      rcases all_cases w.config.unloadDelay held with reached | expired
      · rw [if_pos (settles.mpr ⟨b,found,reached⟩),turnFate_reached reached]
        rfl
      · have dropped : m.serial ∉ w.settled (.advance elapsed times) := by
          intro among
          obtain ⟨other,kept,reached⟩ := settles.mp among
          rw [found] at kept
          cases kept
          exact expired_unreachedBy (sound.bases b hosted) expired reached
        rw [if_neg dropped,turnFate_expired sound.distinct hosted expired,
          expired_crowd (List.mem_filter.mp expired).2]
        rfl

theorem fate_crowd (sound : w.Sound) (running : m ∈ w.live) (call : WorldCall)
    (kept : call.clears = false ∨ (w.fate call m).unloaded = false) :
    (w.fate call m).crowd = (w.deedsOf m.serial call).foldr Crowd.act m.crowd := by
  have cleared (clears : call.clears = true) : (w.fate call m).crowd = m.crowd := by
    rcases clear_cases clears with same | gone
    · rw [same]
    · rw [clears,gone] at kept
      rcases kept with no | no <;> cases no
  rw [deedsOf_running running]
  cases call with
  | queue named transfer =>
    by_cases same : m.serial = named
    · simp [fate,atSerial,WorldCall.queues,settled,same]
      rfl
    · simp [fate,atSerial,WorldCall.queues,settled,same,Ne.symm same]
  | settle named diff =>
    cases found : w.host? named with
    | some b =>
      rw [fate_settle_host found,settled_host found]
      by_cases held : m.serial ∈ b.serials
      · simp only [BaseMap.within,held,if_true]
        rfl
      · simp only [BaseMap.within,held,if_false]
        rfl
    | none =>
      rw [fate_settle_other found,settled_other found]
      by_cases same : m.serial = named
      · simp only [atSerial,same,if_true,List.mem_singleton]
        rfl
      · simp only [atSerial,same,if_false,List.mem_singleton]
        rfl
  | advance elapsed times =>
    rw [advance_crowd sound running elapsed times]
    split <;> rfl
  | update named diff => exact update_crowd w named diff m
  | unload named => exact cleared rfl
  | unloadAll => exact cleared rfl
  | setEncounter | attach | discover | load =>
    apply same_atSerial LiveMap.crowd
    exact fun _ => rfl
  | _ => rfl

theorem crowd_cases (sound : w.Sound) (running : m ∈ w.live) (call : WorldCall) :
    (w.fate call m).crowd = m.crowd ∨ (w.fate call m).crowd = ⟨[],[]⟩ ∨
      (w.fate call m).crowd = m.crowd.act .settled ∨
      ∃ t, call = .queue m.serial t ∧ (w.fate call m).crowd = m.crowd.act (.queued t) := by
  cases clears : call.clears with
  | true =>
    rcases clear_cases clears with same | gone
    · rw [same]
      exact .inl rfl
    · rw [gone]
      exact .inr (.inl rfl)
  | false =>
    have after := fate_crowd sound running call (.inl clears)
    rw [deedsOf_running running] at after
    rcases queues_cases m.serial call with none | ⟨t,queued,one⟩
    · rw [none] at after
      split at after
      · exact .inr (.inr (.inl after))
      · exact .inl after
    · subst queued
      rw [one] at after
      exact .inr (.inr (.inr ⟨t,rfl,after⟩))

-- What the deeds tell of the map with a serial is what it shows, if it has its content.
structure Recalled (serial : Nat) (w : World) (past : List Deed) : Prop where
  crowd : ∀ m ∈ w.live, m.serial = serial → m.unloaded = false → m.crowd = .of past
  unborn : w.born ≤ serial → past = []

theorem perform_recalled (sound : w.Sound) {past : List Deed} (recalled : w.Recalled serial past)
    (call : WorldCall) : (w.perform call).Recalled serial (w.deedsOf serial call ++ past) := by
  have brings := perform_fate sound call
  have unborn (later : w.born ≤ serial) : w.deedsOf serial call ++ past = [] := by
    have absent : serial ∉ w.serials := fun old => Nat.lt_irrefl _ (Nat.lt_of_lt_of_le (sound.born _ old) later)
    rw [deedsOf,if_neg absent,recalled.unborn later]
    rfl
  refine ⟨fun m running same loaded => ?_,fun later => unborn (Nat.le_trans brings.born later)⟩
  subst same
  rcases brings.maps m running with ⟨later,new⟩ | ⟨old,member,rfl⟩
  · rw [unborn later,LiveMap.crowd,new.participants,new.pending]
    rfl
  · have steady := fate_steady w call
    have before : old.unloaded = false := by
      cases gone : old.unloaded with
      | false => rfl
      | true => exact (steady.unloaded old gone).symm.trans loaded
    rw [steady.serial,fate_crowd sound member call (.inr loaded),
      recalled.crowd old member (steady.serial old).symm before,Crowd.of,Crowd.of,List.foldr_append]

theorem updateAll_crowd (sound : w.Sound) (running : m ∈ w.live) (diff : UInt32) (order : List Nat) :
    ∃ later ∈ (w.updateAll diff order).live, later.serial = m.serial ∧ later.crowd = m.crowd := by
  induction order generalizing w m with
  | nil => exact ⟨m,running,rfl,rfl⟩
  | cons first rest ih =>
    have steps : Steps False w (w.perform (.update first diff)) := perform_steps sound _ False.elim
    obtain ⟨later,running',serial,crowd⟩ := ih (steps.sound sound) (fate_live sound running (.update first diff))
    exact ⟨later,running',serial.trans ((fate_steady w _).serial m),crowd.trans (update_crowd w first diff m)⟩

-- The transfers queued before the latest delayed phase have been applied, once each and in order, and those
-- queued since all wait. Nothing but its delayed phase changes who is inside a map.
theorem transfers_deferred {data : CatalogData} {c : Catalog} (built : Catalog.build data = .ok c)
    (config : WorldConfig) (tiles : Terrain.TileSource) (saved : SavedState)
    (running : m ∈ w.live) (loaded : m.unloaded = false) {past : List Deed}
    (run : Noted (deedsOf m.serial) (fun _ _ => True) (start c config tiles saved) w past) :
    m.participants = (Deed.applied past).foldl LiveMap.applyTransfer [] ∧
    m.pending = Deed.waiting past ∧
    Deed.transfers past = Deed.applied past ++ Deed.waiting past ∧
    (∀ p, m.holds p = true ↔
      ((Deed.applied past).filter (Transfer.names p)).getLast? = some (.enter p)) ∧
    (∀ call, call.clears = false → m.serial ∉ w.settled call → ∃ later ∈ (w.perform call).live,
      later.serial = m.serial ∧ later.participants = m.participants ∧
        later.pending = m.pending ++ call.queues m.serial) ∧
    ∀ diff order, ∃ later ∈ (w.updateAll diff order).live, later.serial = m.serial ∧
      later.participants = m.participants ∧ later.pending = m.pending := by
  have started := start_sound (Catalog.build_forest built) config tiles saved
  have sound := Reached.sound started run.reached
  have first : (start c config tiles saved).Recalled m.serial [] := ⟨fun m none => (by cases none),fun _ => rfl⟩
  have recalled : w.Recalled m.serial past :=
    run.kept started first fun call sound recalled _ => perform_recalled sound recalled call
  have crowd := recalled.crowd m running rfl loaded
  rw [Deed.crowd_of] at crowd
  have inside : m.participants = (Deed.applied past).foldl LiveMap.applyTransfer [] := congrArg Crowd.inside crowd
  refine ⟨inside,congrArg Crowd.waiting crowd,Deed.transfers_parts past,fun p => ?_,
    fun call kept unsettled => ?_,fun diff order => ?_⟩
  · rw [LiveMap.holds,List.contains_iff_mem,inside]
    exact LiveMap.mem_applied p _
  · refine ⟨w.fate call m,fate_live sound running call,(fate_steady w call).serial m,?_⟩
    have after := fate_crowd sound running call (.inl kept)
    rw [deedsOf_running running,if_neg unsettled,List.append_nil] at after
    rcases queues_cases m.serial call with none | ⟨transfer,_,one⟩
    · rw [none] at after ⊢
      exact ⟨congrArg Crowd.inside after,(congrArg Crowd.waiting after).trans (List.append_nil _).symm⟩
    · rw [one] at after ⊢
      exact ⟨congrArg Crowd.inside after,congrArg Crowd.waiting after⟩
  · obtain ⟨later,running',serial,crowd⟩ := updateAll_crowd sound running diff order
    exact ⟨later,running',serial,congrArg Crowd.inside crowd,congrArg Crowd.waiting crowd⟩

-- Someone enters a copy with its base map's delayed phase, and then both leaves and comes
-- back before the next one.
theorem transfers_deferred_return :
    let data : CatalogData := {maps := [{id := ⟨36⟩, kind := .dungeon}]}
    ∃ c w past, ∃ m ∈ w.live, Catalog.build data = .ok c ∧
      Noted (deedsOf 1) (fun _ _ => True) (start c {} .none .empty) w past ∧
      past = [.queued (.enter .nil),.queued (.leave .nil),.settled,.queued (.enter .nil)] ∧
      m.serial = 1 ∧ m.instanceId ≠ .base ∧ m.unloaded = false ∧
      m.participants = (Deed.applied past).foldl LiveMap.applyTransfer [] ∧
      m.pending = [.leave .nil,.enter .nil] ∧
      m.holds .nil = true := by
  intro data
  obtain ⟨c,built⟩ : ∃ c, Catalog.build data = .ok c := ⟨_,rfl⟩
  have started : Noted (deedsOf 1) (fun _ _ => True) (start c {} .none .empty) _ _ := .start
  have run := started
    |>.step (.createMap ⟨36⟩ {participant := .nil, difficulty := .normal}) trivial
    |>.step (.queue 1 (.enter .nil)) trivial
    |>.step (.update 0 10) trivial
    |>.step (.settle 0 10) trivial
    |>.step (.queue 1 (.leave .nil)) trivial
    |>.step (.queue 1 (.enter .nil)) trivial
  obtain ⟨w,past,run,deeds,m,running,serial,copy,loaded⟩ : ∃ w past,
      Noted (deedsOf 1) (fun _ _ => True) (start c {} .none .empty) w past ∧
      past = [.queued (.enter .nil),.queued (.leave .nil),.settled,.queued (.enter .nil)] ∧
      ∃ m ∈ w.live, m.serial = 1 ∧ m.instanceId ≠ .base ∧ m.unloaded = false := by
    cases built
    exact ⟨_,_,run,by decide,by decide⟩
  have deferred := transfers_deferred built {} .none .empty running loaded (serial ▸ run)
  obtain ⟨inside,waiting,_,holds,_⟩ := deferred
  subst deeds
  exact ⟨c,w,_,m,running,built,run,rfl,serial,copy,loaded,inside,waiting,(holds .nil).mpr (by decide)⟩

end World
end LiveMaps
