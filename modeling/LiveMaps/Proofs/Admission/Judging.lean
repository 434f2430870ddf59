import LiveMaps.Admission.Rules

namespace LiveMaps

namespace Verdict

theorem denyIf_eq_deny {refused : Bool} {reason : Denial} :
    denyIf refused reason = .deny reason ↔ refused = true := by
  cases refused <;> simp [denyIf]

theorem denyIf_cases (refused : Bool) (reason : Denial) :
    denyIf refused reason = .deny reason ∨ denyIf refused reason = .pass := by
  cases refused
  · exact .inr rfl
  · exact .inl rfl

def leniency : Verdict → Nat
  | .deny _ => 0
  | .pass => 1
  | .allow => 2

theorem denyIf_lenient {refused spared : Bool} {reason other : Denial}
    (kept : spared = true → refused = true) :
    (denyIf refused reason).leniency ≤ (denyIf spared other).leniency := by
  cases refused with
  | true => exact Nat.zero_le _
  | false =>
    cases spared with
    | true => cases kept rfl
    | false => exact Nat.le_refl _

end Verdict

namespace Rule

-- The rules that neither ask a copy nor count the copies entered.
def general : List Rule :=
  [.nonDungeon,.instanceTemplate,.difficulty,.gameMaster,.accessRequirement,.raidGroup,.corpseChain]

theorem all_eq : all = general ++ [.boundInstance,.instanceCap] := rfl

end Rule

namespace Attempt

variable {a b : Attempt} {rules : List Rule}

theorem judge_passed {rule : Rule} (passed : rule.verdict a = .pass) :
    (a.judge (rule :: rules)).1 = (a.judge rules).1 := by
  rw [judge,passed]

theorem judge_denied {rule : Rule} {reason : Denial} (denied : rule.verdict a = .deny reason) :
    (a.judge (rule :: rules)).1 = .denied reason := by
  rw [judge,denied]

theorem judge_allowed {rule : Rule} (allowed : rule.verdict a = .allow) :
    (a.judge (rule :: rules)).1 = .allowed := by
  rw [judge,allowed]

theorem effective_of {level : Difficulty} (enters : a.effective? = some level) : a.effective = level := by
  unfold effective
  rw [enters]
  rfl

theorem boundInstance_eq (a : Attempt) : Rule.verdict a .boundInstance = if a.login then .pass else
    (a.boundCopy?.bind fun copy => copy.denial? a.entryRequest).elim .pass .deny := by
  unfold Rule.verdict
  cases a.boundCopy?.bind fun copy => copy.denial? a.entryRequest <;> rfl

-- Rules that agree on two attempts settle both in the same way, or leave both to the
-- rules that follow.
theorem judge_shared (same : ∀ rule ∈ rules, rule.verdict a = rule.verdict b) (later : List Rule) :
    (a.judge (rules ++ later)).1 = (b.judge (rules ++ later)).1 ∨
      (a.judge (rules ++ later)).1 = (a.judge later).1 ∧
        (b.judge (rules ++ later)).1 = (b.judge later).1 := by
  induction rules with
  | nil => exact .inr ⟨rfl,rfl⟩
  | cons rule rest ih =>
    have first := same rule List.mem_cons_self
    simp only [List.cons_append]
    cases verdict : rule.verdict b with
    | pass =>
      rw [judge_passed (first.trans verdict),judge_passed verdict]
      exact ih fun rule later => same rule (List.mem_cons_of_mem _ later)
    | allow => exact .inl ((judge_allowed (first.trans verdict)).trans (judge_allowed verdict).symm)
    | deny reason => exact .inl ((judge_denied (first.trans verdict)).trans (judge_denied verdict).symm)

theorem judge_lenient
    (lenient : ∀ rule ∈ rules, (rule.verdict a).leniency ≤ (rule.verdict b).leniency)
    (allowed : (a.judge rules).1 = .allowed) : (b.judge rules).1 = .allowed := by
  induction rules with
  | nil => rfl
  | cons rule rest ih =>
    have first := lenient rule List.mem_cons_self
    have later := ih fun rule later => lenient rule (List.mem_cons_of_mem _ later)
    cases verdict : rule.verdict b with
    | allow => exact judge_allowed verdict
    | pass =>
      rw [judge_passed verdict]
      refine later ?_
      cases own : rule.verdict a with
      | allow => simp [own,verdict,Verdict.leniency] at first
      | pass => rwa [judge_passed own] at allowed
      | deny reason =>
        rw [judge_denied own] at allowed
        cases allowed
    | deny reason =>
      cases own : rule.verdict a with
      | allow => simp [own,verdict,Verdict.leniency] at first
      | pass => simp [own,verdict,Verdict.leniency] at first
      | deny reason =>
        rw [judge_denied own] at allowed
        cases allowed

theorem judge_instanceCap (a : Attempt) : (a.judge [.instanceCap]).1 = .allowed ∨
    (a.judge [.instanceCap]).1 = .denied .tooManyInstances := by
  have verdict : Rule.verdict a .instanceCap = .deny .tooManyInstances ∨ Rule.verdict a .instanceCap = .pass :=
    Verdict.denyIf_cases _ _
  rcases verdict with denied | passed
  · exact .inr (judge_denied denied)
  · exact .inl (judge_passed passed)

end Attempt

namespace World
variable {w : World} {d : MapDefinition} {map : MapId} {p : ParticipantState} {login : Bool}

theorem evaluate_undefined (undefined : w.catalog.definition? map = none) :
    w.evaluate map p login = (.denied .noEntry,[]) := by
  unfold evaluate
  rw [undefined]

theorem evaluate_defined (found : w.catalog.definition? map = some d) :
    w.evaluate map p login = (w.attempt d p login).judge Rule.all := by
  unfold evaluate
  rw [found]

end World
end LiveMaps
