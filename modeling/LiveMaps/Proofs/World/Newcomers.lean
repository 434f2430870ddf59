import LiveMaps.Proofs.World.Transfers
import Mathlib.Data.List.Dedup

namespace LiveMaps
open Ordered

def Transfer.entering? : Transfer → Option ParticipantId
  | .enter p => some p
  | .leave _ => none

namespace Crowd
variable {c : Crowd} {p : ParticipantId}

def newcomers (c : Crowd) : List ParticipantId :=
  (c.waiting.filterMap Transfer.entering?).dedup.filter (fun p => !c.inside.contains p)

theorem mem_newcomers : p ∈ c.newcomers ↔ .enter p ∈ c.waiting ∧ p ∉ c.inside := by
  have entering : (∃ t ∈ c.waiting, t.entering? = some p) ↔ .enter p ∈ c.waiting := by
    constructor
    · intro enters
      obtain ⟨t,among,same⟩ := enters
      cases t with
      | enter q =>
        cases same
        exact among
      | leave q => cases same
    · intro among
      exact ⟨.enter p,among,rfl⟩
  simp [newcomers,entering]

theorem applyTransfer_ascending {inside : List ParticipantId} (ascending : Ascending ParticipantId.order inside)
    (t : Transfer) : Ascending ParticipantId.order (LiveMap.applyTransfer inside t) := by
  cases t with
  | enter p => exact insert_ascending ascending
  | leave p => exact ascending.filter _

theorem applied_ascending {inside : List ParticipantId} (ascending : Ascending ParticipantId.order inside)
    (transfers : List Transfer) :
    Ascending ParticipantId.order (transfers.foldl LiveMap.applyTransfer inside) := by
  induction transfers generalizing inside with
  | nil => exact ascending
  | cons t rest ih => exact ih (applyTransfer_ascending ascending t)

theorem applied_origin {inside : List ParticipantId} {transfers : List Transfer}
    (among : p ∈ transfers.foldl LiveMap.applyTransfer inside) : p ∈ inside ∨ .enter p ∈ transfers := by
  induction transfers generalizing inside with
  | nil => exact .inl among
  | cons t rest ih =>
    rcases ih among with before | later
    · cases t with
      | enter q =>
        rcases LiveMap.mem_enter.mp before with rfl | old
        · exact .inr List.mem_cons_self
        · exact .inl old
      | leave q => exact .inl (LiveMap.mem_leave.mp before).1
    · exact .inr (List.mem_cons_of_mem _ later)

structure Seated (places : Nat) (c : Crowd) : Prop where
  ascending : Ascending ParticipantId.order c.inside
  room : c.newcomers ≠ [] → c.inside.length < places

theorem seated_empty (places : Nat) : Seated places ⟨[],[]⟩ := ⟨.nil,fun some => absurd rfl some⟩

theorem Seated.queued {places : Nat} (seated : c.Seated places) {t : Transfer}
    (admitted : ∀ p, t = .enter p → p ∈ c.inside ∨ c.inside.length < places) :
    (c.act (.queued t)).Seated places := by
  refine ⟨seated.ascending,fun some => ?_⟩
  obtain ⟨p,among⟩ := List.exists_mem_of_ne_nil _ some
  obtain ⟨waiting,outside⟩ := mem_newcomers.mp among
  rcases List.mem_append.mp waiting with before | last
  · exact seated.room (List.ne_nil_of_mem (mem_newcomers.mpr ⟨before,outside⟩))
  · exact (admitted p (List.mem_singleton.mp last).symm).resolve_left outside

theorem Seated.settled {places : Nat} (seated : c.Seated places) : (c.act .settled).Seated places :=
  ⟨applied_ascending seated.ascending c.waiting,fun some => absurd rfl some⟩

theorem Seated.settled_length {places : Nat} (seated : c.Seated places) :
    (c.act .settled).inside.length ≤ c.inside.length + c.newcomers.length := by
  have distinct : (c.act .settled).inside.Nodup := (applied_ascending seated.ascending c.waiting).nodup
  have origin : (c.act .settled).inside ⊆ c.inside ++ c.newcomers := by
    intro p among
    rcases applied_origin among with old | entered
    · exact List.mem_append_left _ old
    · by_cases old : p ∈ c.inside
      · exact List.mem_append_left _ old
      · exact List.mem_append_right _ (mem_newcomers.mpr ⟨entered,old⟩)
  have shorter := (List.subperm_of_subset distinct origin).length_le
  rwa [List.length_append] at shorter

-- So it goes beyond the places by fewer than the newcomers that it lets in.
theorem Seated.settled_bounded {places n : Nat} (seated : c.Seated places) (few : c.newcomers.length ≤ n)
    (bounded : c.inside.length ≤ places + (n - 1)) : (c.act .settled).inside.length ≤ places + (n - 1) := by
  have shorter := seated.settled_length
  cases newcomers : c.newcomers with
  | nil =>
    rw [newcomers,List.length_nil] at shorter
    exact Nat.le_trans shorter bounded
  | cons first rest =>
    have room := seated.room (by rw [newcomers]; exact List.cons_ne_nil _ _)
    rw [newcomers,List.length_cons] at few shorter
    omega

end Crowd

namespace World
variable {w after : World} {m : LiveMap} {call : WorldCall} {serial n : Nat} {k : UInt32} {past : List Nat}

def waits (serial : Nat) (w : World) (_ : WorldCall) : List Nat :=
  match w.live? serial with
  | some m => [m.crowd.newcomers.length]
  | none => []

-- Whoever is sent into the map with a serial has just been denied nothing there, and not
-- for being a game master.
def Screened (serial : Nat) (w : World) (call : WorldCall) : Prop :=
  ∀ p, call = .queue serial (.enter p) → ∃ m r, w.live? serial = some m ∧ r.participant = p ∧
    r.isGameMaster = false ∧ m.denial? r = none

theorem screened_enter {r : EntryRequest} (player : r.isGameMaster = false)
    (admitted : (w.live? serial).map (·.denial? r) = some none) :
    w.Screened serial (.queue serial (.enter r.participant)) := by
  intro p queued
  cases queued
  obtain ⟨m,here,none⟩ := Option.map_eq_some_iff.mp admitted
  exact ⟨m,r,here,rfl,player,none⟩

theorem admitted_room (copy : m.instanceId ≠ .base) (cap : m.maxPlayers = some k) {r : EntryRequest}
    (player : r.isGameMaster = false) (admitted : m.denial? r = none) :
    r.participant ∈ m.participants ∨ m.participants.length < k.toNat := by
  by_contra refused
  obtain ⟨outside,full⟩ := not_or.mp refused
  have isFull : m.isFull = true := by
    simp only [LiveMap.isFull,cap,decide_eq_true_eq]
    omega
  have absent : m.holds r.participant = false := by
    simp [LiveMap.holds,outside]
  simp [LiveMap.denial?,InstanceId.isBase_eq_false.mpr copy,player,isFull,absent] at admitted

-- Newcomers only wait while there is a place left, and those inside go beyond the places by fewer than ever
-- waited at once.
def Filled (serial : Nat) (places : UInt32) (w : World) (past : List Nat) : Prop :=
  ∀ m ∈ w.live, m.serial = serial → m.instanceId ≠ .base → m.maxPlayers = some places →
    m.crowd.Seated places.toNat ∧
    ∀ n, (∀ count ∈ past, count ≤ n) → m.crowd.inside.length ≤ places.toNat + (n - 1)

theorem perform_filled (sound : w.Sound) (filled : w.Filled serial k past) (screened : w.Screened serial call) :
    (w.perform call).Filled serial k (w.waits serial call ++ past) := by
  intro m running same copy cap
  rcases (perform_fate sound call).maps m running with ⟨_,new⟩ | ⟨old,among,rfl⟩
  · have empty : m.crowd = ⟨[],[]⟩ := by
      rw [LiveMap.crowd,new.participants,new.pending]
    rw [empty]
    exact ⟨Crowd.seated_empty _,fun n _ => Nat.zero_le _⟩
  · have steady := fate_steady w call
    rw [steady.serial] at same
    rw [steady.instanceId] at copy
    rw [steady.maxPlayers] at cap
    obtain ⟨seated,bounded⟩ := filled old among same copy cap
    have before (n : Nat) (few : ∀ count ∈ w.waits serial call ++ past, count ≤ n) :
        old.crowd.inside.length ≤ k.toNat + (n - 1) :=
      bounded n fun count member => few count (List.mem_append_right _ member)
    rcases crowd_cases sound among call with still | gone | settles | ⟨t,queued,after⟩
    · rw [still]
      exact ⟨seated,before⟩
    · rw [gone]
      exact ⟨Crowd.seated_empty _,fun n _ => Nat.zero_le _⟩
    · rw [settles]
      refine ⟨seated.settled,fun n few => seated.settled_bounded (few _ ?_) (before n few)⟩
      subst same
      rw [waits,live?_serial sound.distinct among]
      exact List.mem_append_left _ List.mem_cons_self
    · rw [after]
      refine ⟨seated.queued fun p enters => ?_,before⟩
      subst enters same
      obtain ⟨named,request,here,rfl,player,admitted⟩ := screened p queued
      rw [live?_serial sound.distinct among] at here
      cases here
      exact admitted_room copy cap player admitted

-- Newcomers are let through while there is a place left, each by itself; so a copy holds more than its cap
-- by fewer than ever waited for it at once, and never more while they come one by one.
theorem screened_copy {data : CatalogData} {c : Catalog} (built : Catalog.build data = .ok c)
    (config : WorldConfig) (tiles : Terrain.TileSource) (saved : SavedState)
    (running : m ∈ w.live) (copy : m.instanceId ≠ .base) (cap : m.maxPlayers = some k)
    (run : Noted (waits m.serial) (Screened m.serial) (start c config tiles saved) w past) :
    (m.crowd.newcomers ≠ [] → m.participants.length < k.toNat) ∧
    (∀ n, (∀ count ∈ past, count ≤ n) → m.participants.length ≤ k.toNat + (n - 1)) ∧
    ((∀ count ∈ past, count ≤ 1) → m.participants.length ≤ k.toNat) := by
  have started := start_sound (Catalog.build_forest built) config tiles saved
  have filled : w.Filled m.serial k past := by
    apply run.kept started
    · intro m none
      cases none
    · exact fun call sound filled screened => perform_filled sound filled screened
  obtain ⟨seated,bounded⟩ := filled m running rfl copy cap
  exact ⟨seated.room,bounded,fun single => bounded 1 single⟩

theorem screened_copy_return :
    let data : CatalogData := {maps := [{id := ⟨36⟩, kind := .dungeon}], templates := [{map := ⟨36⟩, maxPlayers := 1}]}
    ∃ c w, ∃ past : List Nat, ∃ m ∈ w.live, Catalog.build data = .ok c ∧
      Noted (waits 1) (Screened 1) (start c {} .none .empty) w past ∧ past = [0,0,0,1,0] ∧
      m.serial = 1 ∧ m.maxPlayers = some 1 ∧ m.participants ≠ [] ∧ m.participants.length ≤ 1 := by
  intro data
  obtain ⟨c,built⟩ : ∃ c, Catalog.build data = .ok c := ⟨_,rfl⟩
  have started : Noted (waits 1) (Screened 1) (start c {} .none .empty) _ _ := .start
  have opened := started.step (.createMap ⟨36⟩ {participant := .nil, difficulty := .normal}) fun _ => nofun
  have entered := opened.step (.queue 1 (.enter .nil)) (by
    cases built
    exact screened_enter (r := {participant := .nil}) rfl (by decide))
  have run := entered
    |>.step (.advance 10 ⟨0,0⟩) (fun _ => nofun)
    |>.step (.queue 1 (.leave .nil)) (fun _ => nofun)
    |>.step (.queue 1 (.enter .nil)) (by
      cases built
      exact screened_enter (r := {participant := .nil}) rfl (by decide))
    |>.step (.advance 10 ⟨0,0⟩) (fun _ => nofun)
  obtain ⟨w,past,run,counts,m,running,serial,copy,cap,inside⟩ : ∃ w, ∃ past : List Nat,
      Noted (waits 1) (Screened 1) (start c {} .none .empty) w past ∧ past = [0,0,0,1,0] ∧
      ∃ m ∈ w.live, m.serial = 1 ∧ m.instanceId ≠ .base ∧ m.maxPlayers = some 1 ∧ m.participants ≠ [] := by
    cases built
    exact ⟨_,_,run,by decide,by decide⟩
  obtain ⟨_,_,single⟩ := screened_copy built {} .none .empty running copy cap (serial ▸ run)
  have few := single (by rw [counts]; decide)
  exact ⟨c,w,past,m,running,built,run,counts,serial,cap,inside,few⟩

-- Two who are denied nothing one after the other fill a copy with one place.
theorem screened_copy_overfull :
    let data : CatalogData := {maps := [{id := ⟨36⟩, kind := .dungeon}], templates := [{map := ⟨36⟩, maxPlayers := 1}]}
    ∃ c w, Catalog.build data = .ok c ∧ Reached (Screened 1) (start c {} .none .empty) w ∧
      ∃ m ∈ w.live, m.serial = 1 ∧ m.instanceId ≠ .base ∧ m.maxPlayers = some 1 ∧ m.participants.length = 2 := by
  intro data
  obtain ⟨c,built⟩ : ∃ c, Catalog.build data = .ok c := ⟨_,rfl⟩
  have started : Reached (Screened 1) (start c {} .none .empty) _ := .start
  have opened := started.step (.createMap ⟨36⟩ {participant := .nil, difficulty := .normal}) fun _ => nofun
  have first := opened.step (.queue 1 (.enter (.ofNat 1))) (by
    cases built
    exact screened_enter (r := {participant := .ofNat 1}) rfl (by decide))
  have second := first.step (.queue 1 (.enter (.ofNat 2))) (by
    cases built
    exact screened_enter (r := {participant := .ofNat 2}) rfl (by decide))
  have path := second.step (.settle 1 10) fun _ => nofun
  refine ⟨c,_,built,path,?_⟩
  cases built
  decide

end World
end LiveMaps
