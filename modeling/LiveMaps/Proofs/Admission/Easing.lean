import LiveMaps.Proofs.Admission.Judging
import LiveMaps.Proofs.World.Runs

namespace LiveMaps

-- What can change in favour of whoever wants to enter, one thing or several at a time. All else stays.
structure Eased (config eased : AdmissionConfig) (p q : ParticipantState) (login relogin : Bool) : Prop where
  login : login = true → relogin = true
  gameMaster : p.gameMaster = true → q.gameMaster = true
  level : p.level ≤ q.level
  items : p.items ⊆ q.items
  completedQuests : p.completedQuests ⊆ q.completedQuests
  achievements : p.achievements ⊆ q.achievements
  person : q = {p with
    gameMaster := q.gameMaster, level := q.level, items := q.items
    completedQuests := q.completedQuests, achievements := q.achievements }
  expansion : config.activeExpansion ≤ eased.activeExpansion
  waiver : config.ignoreRaidRequirement = true → eased.ignoreRaidRequirement = true
  cap : config.maxInstancesPerHour ≤ eased.maxInstancesPerHour
  settings : eased = {config with
    activeExpansion := eased.activeExpansion, ignoreRaidRequirement := eased.ignoreRaidRequirement
    maxInstancesPerHour := eased.maxInstancesPerHour }

namespace ParticipantState
variable {p q : ParticipantState}

theorem possesses_more {owned more : List UInt32} (kept : owned ⊆ more) {wanted : Option UInt32}
    (has : possesses owned wanted = true) : possesses more wanted = true := by
  cases wanted with
  | none => rfl
  | some item => exact List.contains_iff_mem.mpr (kept (List.contains_iff_mem.mp has))

theorem satisfies_more (level : p.level ≤ q.level) (items : p.items ⊆ q.items)
    (quests : p.completedQuests ⊆ q.completedQuests) (achievements : p.achievements ⊆ q.achievements)
    {requirement : Option AccessRequirement} (met : p.satisfies requirement = true) :
    q.satisfies requirement = true := by
  cases requirement with
  | none => rfl
  | some r =>
    simp only [satisfies,meets,Bool.and_eq_true,decide_eq_true_eq] at met ⊢
    obtain ⟨⟨⟨high,item⟩,quest⟩,achievement⟩ := met
    exact ⟨⟨⟨UInt8.le_trans high level,possesses_more items item⟩,possesses_more quests quest⟩,
      possesses_more achievements achievement⟩

end ParticipantState

theorem LiveMap.denial?_gameMaster (m : LiveMap) {r : EntryRequest} (master : r.isGameMaster = true) :
    m.denial? r = none := by
  unfold denial?
  rw [if_pos (by rw [master,Bool.or_true])]

namespace Attempt
variable {a : Attempt} {config : AdmissionConfig} {q : ParticipantState} {relogin : Bool}

def changed (a : Attempt) (config : AdmissionConfig) (q : ParticipantState) (relogin : Bool) : Attempt :=
  {a with config := config, participant := q, login := relogin}

section
variable (eased : Eased a.config config a.participant q a.login relogin)

include eased

theorem eased_effective? : (a.changed config q relogin).effective? = a.effective? := by
  have asked : (a.changed config q relogin).requested = a.requested := by
    unfold requested ParticipantState.difficultyFor changed
    rw [eased.person]
  unfold effective?
  rw [asked]
  rfl

theorem eased_satisfies :
    a.participant.satisfies (a.catalog.requirement? a.map a.effective) = true →
    q.satisfies (a.catalog.requirement? a.map (a.changed config q relogin).effective) = true := by
  unfold effective
  rw [eased_effective? eased]
  exact ParticipantState.satisfies_more eased.level eased.items eased.completedQuests eased.achievements

theorem eased_boundCopy? : (a.changed config q relogin).boundCopy? = a.boundCopy? := by
  have grouped : q.group = a.participant.group := by rw [eased.person]
  unfold boundCopy? effective
  rw [eased_effective? eased]
  simp only [changed,grouped]
  rfl

theorem eased_entryRequest (mortal : q.gameMaster = false) :
    (a.changed config q relogin).entryRequest = a.entryRequest := by
  have own : a.participant.gameMaster = false := by
    cases master : a.participant.gameMaster with
    | false => rfl
    | true => rw [eased.gameMaster master] at mortal; cases mortal
  have bound : (a.changed config q relogin).permanentBind? = a.permanentBind? := by
    unfold permanentBind? effective
    rw [eased_effective? eased]
    simp only [changed]
    rw [eased.person]
    rfl
  unfold entryRequest
  rw [bound]
  simp only [changed,mortal,own]
  rw [eased.person]

theorem boundInstance_eased :
    (Rule.verdict a .boundInstance).leniency ≤ (Rule.verdict (a.changed config q relogin) .boundInstance).leniency := by
  rw [boundInstance_eq,boundInstance_eq,eased_boundCopy? eased]
  cases again : relogin with
  | true =>
    -- at login no copy is asked, and a copy that is asked lets pass at best
    split
    · exact Nat.le_refl _
    · cases a.boundCopy?.bind fun copy => copy.denial? a.entryRequest
      · exact Nat.le_refl _
      · exact Nat.zero_le _
  | false =>
    have walking : a.login = false := by
      cases login : a.login with
      | false => rfl
      | true => rw [eased.login login] at again; cases again
    rw [walking]
    cases master : q.gameMaster with
    | false =>
      have told := eased_entryRequest eased master
      rw [again] at told
      rw [told]
      exact Nat.le_refl _
    | true =>
      have welcome : (a.boundCopy?.bind fun copy =>
          copy.denial? (a.changed config q false).entryRequest) = none := by
        cases a.boundCopy? with
        | none => rfl
        | some copy => exact copy.denial?_gameMaster master
      rw [welcome]
      cases a.boundCopy?.bind fun copy => copy.denial? a.entryRequest
      · exact Nat.le_refl _
      · exact Nat.zero_le _

theorem rule_eased (rule : Rule) :
    (rule.verdict a).leniency ≤ (rule.verdict (a.changed config q relogin)).leniency := by
  cases rule with
  | nonDungeon => exact Nat.le_refl _
  | instanceTemplate => exact Nat.le_refl _
  | difficulty =>
    simp only [Rule.verdict,eased_effective? eased]
    exact Nat.le_refl _
  | gameMaster =>
    change (if a.participant.gameMaster then Verdict.allow else .pass).leniency ≤
      (if q.gameMaster then Verdict.allow else .pass).leniency
    cases master : a.participant.gameMaster with
    | true => exact Nat.le_of_eq (by rw [eased.gameMaster master])
    | false => cases q.gameMaster <;> decide
  | accessRequirement =>
    refine Verdict.denyIf_lenient fun unmet => ?_
    by_contra met
    rw [Bool.not_eq_true',Bool.not_eq_false] at met
    rw [Bool.not_eq_true'] at unmet
    have more : q.satisfies (a.catalog.requirement? a.map (a.changed config q relogin).effective) = true :=
      eased_satisfies eased met
    exact Bool.false_ne_true (unmet.symm.trans more)
  | raidGroup =>
    have grouped : q.inRaid = a.participant.inRaid := by rw [eased.person]; rfl
    refine Verdict.denyIf_lenient fun refused => ?_
    change (a.definition.kind.isRaid && decide (config.activeExpansion ≤ a.definition.expansion) &&
      !q.inRaid && !config.ignoreRaidRequirement) = true at refused
    rw [grouped] at refused
    simp only [Bool.and_eq_true,decide_eq_true_eq,Bool.not_eq_true'] at refused ⊢
    obtain ⟨⟨⟨raid,current⟩,outside⟩,bound⟩ := refused
    refine ⟨⟨⟨raid,UInt8.le_trans eased.expansion current⟩,outside⟩,?_⟩
    by_contra waived
    rw [eased.waiver (by simpa using waived)] at bound
    cases bound
  | corpseChain =>
    have same : Rule.verdict (a.changed config q relogin) .corpseChain = Rule.verdict a .corpseChain := by
      simp only [Rule.verdict,changed]
      rw [eased.person]
      rfl
    exact Nat.le_of_eq (congrArg Verdict.leniency same.symm)
  | boundInstance => exact boundInstance_eased eased
  | instanceCap =>
    refine Verdict.denyIf_lenient fun refused => ?_
    have via : q.viaDungeonFinder = a.participant.viaDungeonFinder := by rw [eased.person]; rfl
    have counted : (a.changed config q relogin).alreadyCounted = a.alreadyCounted := by
      unfold alreadyCounted changed
      rw [eased.person]
      rfl
    have alive : q.alive = a.participant.alive := by rw [eased.person]
    have recent : q.recentInstances = a.participant.recentInstances := by rw [eased.person]
    rw [counted] at refused
    simp only [underCap,changed,via,alive,recent,Bool.and_eq_true,Bool.not_eq_true',decide_eq_false_iff_not,
      Nat.not_lt] at refused ⊢
    obtain ⟨⟨⟨finder,many⟩,fresh⟩,living⟩ := refused
    exact ⟨⟨⟨finder,Nat.le_trans (UInt32.le_iff_toNat_le.mp eased.cap) many⟩,fresh⟩,living⟩

end

theorem general_login {rule : Rule} (general : rule ∈ Rule.general) (login : Bool) :
    rule.verdict a = rule.verdict {a with login := login} := by
  cases rule with
  | boundInstance => simp [Rule.general] at general
  | _ => rfl

-- Logging back in spares the participant one rule, and what comes after it can only be
-- the cap.
theorem denied_walking {reason : Denial} (login : a.login = true) (denied : (a.judge Rule.all).1 = .denied reason)
    (early : reason ≠ .tooManyInstances) : (({a with login := false} : Attempt).judge Rule.all).1 = .denied reason := by
  rw [Rule.all_eq] at denied ⊢
  rcases judge_shared (fun _ general => general_login general false) [.boundInstance,.instanceCap] with
    same | ⟨left,_⟩
  · exact same.symm.trans denied
  · have spared : Rule.verdict a .boundInstance = .pass := by
      rw [boundInstance_eq,login]
      rfl
    rw [left,judge_passed spared] at denied
    rcases judge_instanceCap a with allowed | capped
    · cases allowed.symm.trans denied
    · cases capped.symm.trans denied
      exact absurd rfl early

end Attempt

namespace World

def admitting (w : World) (settings : AdmissionConfig) : World :=
  {w with config := {w.config with admission := settings}}

-- The cap is left out of the second part: whoever walks in may have been refused by the
-- bound copy before it counts.
theorem evaluate_eased (w : World) (map : MapId) (p : ParticipantState) (login : Bool) :
    (∀ eased q relogin, Eased w.config.admission eased p q login relogin →
      (w.evaluate map p login).1 = .allowed → ((w.admitting eased).evaluate map q relogin).1 = .allowed) ∧
    ∀ reason, reason ≠ .tooManyInstances → (w.evaluate map p true).1 = .denied reason →
      (w.evaluate map p false).1 = .denied reason := by
  cases found : w.catalog.definition? map with
  | none =>
    simp only [evaluate_undefined found]
    exact ⟨fun _ _ _ _ allowed => (nomatch allowed),fun _ _ denied => denied⟩
  | some d =>
    refine ⟨fun eased q relogin easing allowed => ?_,fun reason early denied => ?_⟩
    · rw [evaluate_defined found] at allowed
      have defined : (w.admitting eased).catalog.definition? map = some d := found
      rw [evaluate_defined defined]
      exact Attempt.judge_lenient (fun rule _ => Attempt.rule_eased easing rule) allowed
    · rw [evaluate_defined found] at denied ⊢
      exact Attempt.denied_walking rfl denied early

-- Someone comes back to a raid whose encounter is running, and later logs in there as a game master;
-- someone without a raid group is kept out of it at login and otherwise.
theorem evaluate_eased_raid :
    let data : CatalogData :=
      { maps := [{id := ⟨533⟩, kind := .raid, expansion := 2}]
        templates := [{map := ⟨533⟩, maxPlayers := 10}]
        difficulties := [⟨⟨533⟩,[.raid10Normal]⟩]
        requirements := [{map := ⟨533⟩, difficulty := .raid10Normal, minLevel := 60, requiredItem := some 5}] }
    let p : ParticipantState :=
      { id := .nil, level := 60, items := [5], reconnecting := true
        group := some {kind := .raid, binds := [⟨⟨533⟩,⟨1⟩,.raid10Normal,false⟩]} }
    let q : ParticipantState := {p with gameMaster := true, level := 70, items := [4,5], achievements := [9]}
    let eased : AdmissionConfig := {activeExpansion := 3, ignoreRaidRequirement := true, maxInstancesPerHour := 6}
    let alone : ParticipantState := {p with group := none}
    ∃ c w, Catalog.build data = .ok c ∧ Reached (fun _ _ => True) (start c {} .none .empty) w ∧
      (Eased w.config.admission eased p q false true ∧ (w.evaluate ⟨533⟩ p false).1 = .allowed ∧
        ((w.admitting eased).evaluate ⟨533⟩ q true).1 = .allowed) ∧
      (w.evaluate ⟨533⟩ alone true).1 = .denied .notInRaid ∧
      (w.evaluate ⟨533⟩ alone false).1 = .denied .notInRaid := by
  intro data p q eased alone
  obtain ⟨c,built⟩ : ∃ c, Catalog.build data = .ok c := ⟨_,rfl⟩
  have started : Reached (fun _ _ => True) (start c {} .none .empty) _ := .start
  have path := started
    |>.step (.createMap ⟨533⟩ {participant := .nil, difficulty := .raid10Normal}) trivial
    |>.step (.setEncounter 1 true) trivial
  obtain ⟨w,path,easing,allowed,denied⟩ : ∃ w, Reached (fun _ _ => True) (start c {} .none .empty) w ∧
      Eased w.config.admission eased p q false true ∧ (w.evaluate ⟨533⟩ p false).1 = .allowed ∧
      (w.evaluate ⟨533⟩ alone true).1 = .denied .notInRaid := by
    refine ⟨_,path,?_,?_,?_⟩
    · cases built
      constructor <;> decide
    · cases built
      decide
    · cases built
      decide
  exact ⟨c,w,built,path,⟨easing,allowed,(evaluate_eased w ⟨533⟩ p false).1 eased q true easing allowed⟩,
    denied,(evaluate_eased w ⟨533⟩ alone true).2 .notInRaid (by decide) denied⟩

end World
end LiveMaps
