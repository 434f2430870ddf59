import LiveMaps.Proofs.Ids.Refinement

namespace LiveMaps

namespace IdCall

def given (answers : List IdAnswer) : List InstanceId :=
  answers.filterMap fun
    | .ok fresh => fresh
    | .error _ => none

theorem mem_given {answers : List IdAnswer} {id : InstanceId} :
    id ∈ given answers ↔ .ok (some id) ∈ answers := by
  simp only [given,List.mem_filterMap]
  constructor
  · rintro ⟨answer,member,found⟩
    cases answer with
    | error e => cases found
    | ok fresh => exact (show fresh = some id from found) ▸ member
  · exact fun member => ⟨_,member,rfl⟩

theorem given_handed (id : InstanceId) (answers : List IdAnswer) :
    given (.ok (some id) :: answers) = id :: given answers := rfl

theorem exhausted_handed (id : InstanceId) (answers : List IdAnswer) :
    List.count (.error .exhausted) (.ok (some id) :: answers) = answers.count (.error .exhausted) := by
  have apart : (.ok (some id) : IdAnswer) ≠ .error .exhausted := nofun
  exact List.count_cons_of_ne apart

theorem given_failed (e : IdError) (answers : List IdAnswer) : given (.error e :: answers) = given answers := rfl

theorem given_silent {answer : IdAnswer} (silent : ∀ id, answer ≠ .ok (some id)) (answers : List IdAnswer) :
    given (answer :: answers) = given answers := by
  cases answer with
  | error e => rfl
  | ok fresh =>
    cases fresh with
    | none => rfl
    | some id => exact absurd rfl (silent id)

-- Those of them that a copy can have.
def fresh (answers : List IdAnswer) : List InstanceId := (given answers).filter (· ≠ .base)

theorem mem_fresh {answers : List IdAnswer} {id : InstanceId} :
    id ∈ fresh answers ↔ .ok (some id) ∈ answers ∧ id ≠ .base := by
  rw [fresh,List.mem_filter,mem_given,decide_eq_true_eq]

-- Whether a run handed an identifier out, or was told of it.
def Took (calls : List IdCall) (answers : List IdAnswer) (id : InstanceId) : Prop :=
  id ∈ fresh answers ∨ .reserve id ∈ calls ∨ .claim id ∈ calls

theorem Took.cons {calls : List IdCall} {answers : List IdAnswer} {id : InstanceId} (took : Took calls answers id)
    (call : IdCall) (answer : IdAnswer) : Took (call :: calls) (answer :: answers) id := by
  rcases took with handed | reserved | claimed
  · obtain ⟨answered,proper⟩ := mem_fresh.mp handed
    exact .inl (mem_fresh.mpr ⟨List.mem_cons_of_mem _ answered,proper⟩)
  · exact .inr (.inl (List.mem_cons_of_mem _ reserved))
  · exact .inr (.inr (List.mem_cons_of_mem _ claimed))

end IdCall

namespace IdTable
variable {t after : IdTable} {id : InstanceId} {calls : List IdCall} {answers : List IdAnswer}

theorem reserve_grows (done : t.reserve id = .ok after) : t.space.used ⊆ after.space.used := by
  rw [reserve_space done]
  exact Finset.subset_insert _ _

theorem claim_grows (valid : t.Valid) (done : t.claim id = .ok after) : t.space.used ⊆ after.space.used := by
  rw [claim_space valid done]
  exact Finset.subset_insert _ _

theorem allocate_grows (valid : t.Valid) (done : t.allocate = .ok (id,after)) :
    t.space.used ⊆ after.space.used := by
  rcases allocate_cases valid done with ⟨_,_,used,_⟩ | ⟨_,_,_,space,_⟩
  · rw [used]
    exact Finset.subset_insert _ _
  · rw [space]

theorem call_grows (valid : t.Valid) {call : IdCall} (kept : ∀ id, call ≠ .release id) :
    t.space.used ⊆ (t.call call).1.space.used := by
  cases call with
  | reserve named =>
    simp only [IdTable.call]
    cases done : t.reserve named with
    | error e => exact Finset.Subset.refl _
    | ok after => exact reserve_grows done
  | claim named =>
    simp only [IdTable.call]
    cases done : t.claim named with
    | error e => exact Finset.Subset.refl _
    | ok after => exact claim_grows valid done
  | release named => exact absurd rfl (kept named)
  | allocate =>
    simp only [IdTable.call]
    cases done : t.allocate with
    | error e => exact Finset.Subset.refl _
    | ok fresh => exact allocate_grows valid done

theorem reserve_used {slot : Nat} (used : slot ∈ (t.call (.reserve id)).1.space.used) :
    slot = id.order ∨ slot ∈ t.space.used := by
  simp only [IdTable.call] at used
  cases done : t.reserve id with
  | error e =>
    rw [done] at used
    exact .inr used
  | ok after =>
    simp only [done,answer,reserve_space done] at used
    exact Finset.mem_insert.mp used

theorem claim_used (valid : t.Valid) {slot : Nat} (used : slot ∈ (t.call (.claim id)).1.space.used) :
    slot = id.order ∨ slot ∈ t.space.used := by
  simp only [IdTable.call] at used
  cases done : t.claim id with
  | error e =>
    rw [done] at used
    exact .inr used
  | ok after =>
    simp only [done,answer,claim_space valid done] at used
    exact Finset.mem_insert.mp used

theorem call_silent {call : IdCall} (elsewhere : call ≠ .allocate) :
    (∀ id, (t.call call).2 ≠ .ok (some id)) ∧ (t.call call).2 ≠ .error .exhausted := by
  have silent (result : Except IdError IdTable) (other : result ≠ .error .exhausted) :
      (∀ id, (t.answer result).2 ≠ .ok (some id)) ∧ (t.answer result).2 ≠ .error .exhausted := by
    cases result with
    | ok after => exact ⟨nofun,nofun⟩
    | error e => exact ⟨nofun,fun same => other (by cases same; rfl)⟩
  cases call with
  | reserve named =>
    refine silent _ ?_
    unfold reserve
    split
    · nofun
    · split <;> nofun
  | claim named =>
    refine silent _ ?_
    by_cases taken : named ∈ t.claimed
    · rw [claim_taken taken]
      nofun
    · by_cases zero : named = .base
      · rw [zero,claim_base (zero ▸ taken)]
        nofun
      · obtain ⟨after,done⟩ := claim_ok taken zero
        rw [done]
        nofun
  | release named =>
    refine silent _ ?_
    unfold release
    split
    · nofun
    · split <;> nofun
  | allocate => exact absurd rfl elsewhere

theorem allocate_failed {e : IdError} (valid : t.Valid) (failed : t.allocate = .error e) :
    e = .exhausted ∧ t.next = t.limit := by
  by_cases full : t.next = t.limit
  · rw [allocate_exhausted full] at failed
    cases failed
    exact ⟨rfl,full⟩
  · obtain ⟨_,_,done⟩ := allocate_ok valid full
    rw [failed] at done
    cases done

def Covers (t : IdTable) (calls : List IdCall) (answers : List IdAnswer) (kind : InstanceId → Prop) : Prop :=
  ∀ id, id ≠ .base → kind id → id.order ∉ t.space.used → IdCall.Took calls answers id

theorem Covers.cons {kind : InstanceId → Prop} {call : IdCall} {answer : IdAnswer}
    (later : Covers after calls answers kind)
    (newly : ∀ id, id ≠ .base → id.order ∉ t.space.used → id.order ∈ after.space.used →
      IdCall.Took (call :: calls) (answer :: answers) id) : Covers t (call :: calls) (answer :: answers) kind := by
  intro id proper within unused
  by_cases used : id.order ∈ after.space.used
  · exact newly id proper unused used
  · exact (later id proper within used).cons call answer

-- The identifier of the base maps is handed out only where all others are in use, and only where all below
-- the largest are in use none is left.
structure Handouts (t : IdTable) (calls : List IdCall) (answers : List IdAnswer) : Prop where
  answered : (IdCall.given answers).length + answers.count (.error .exhausted) = calls.count .allocate
  rising : (IdCall.fresh answers).Pairwise (fun one two => one.order < two.order)
  unused : ∀ id ∈ IdCall.fresh answers, id.order ∉ t.space.used
  reached : ∀ last ∈ IdCall.fresh answers, Covers t calls answers (fun id => id.order ≤ last.order)
  spent : .ok (some .base) ∈ answers → Covers t calls answers (fun _ => True)
  exhausted : .error .exhausted ∈ answers → Covers t calls answers (fun id => id.order < largestId)

theorem handouts_nil (t : IdTable) : Handouts t [] [] where
  answered := rfl
  rising := .nil
  unused := nofun
  reached := nofun
  spent := nofun
  exhausted := nofun

theorem Handouts.told {call : IdCall} (later : Handouts (t.call call).1 calls answers) (elsewhere : call ≠ .allocate)
    (more : t.space.used ⊆ (t.call call).1.space.used)
    (newly : ∀ id, id ≠ .base → id.order ∉ t.space.used → id.order ∈ (t.call call).1.space.used →
      IdCall.Took (call :: calls) ((t.call call).2 :: answers) id) :
    Handouts t (call :: calls) ((t.call call).2 :: answers) := by
  obtain ⟨silent,left⟩ := call_silent (t := t) elsewhere
  have fresh : IdCall.fresh ((t.call call).2 :: answers) = IdCall.fresh answers := by
    rw [IdCall.fresh,IdCall.given_silent silent,IdCall.fresh]
  have among {answer : IdAnswer} (apart : (t.call call).2 ≠ answer) (member : answer ∈ (t.call call).2 :: answers) :
      answer ∈ answers := (List.mem_cons.mp member).resolve_left (Ne.symm apart)
  exact {
    answered := by rw [IdCall.given_silent silent,List.count_cons_of_ne left,List.count_cons_of_ne elsewhere,later.answered]
    rising := fresh ▸ later.rising
    unused := fun id member used => later.unused id (fresh ▸ member) (more used)
    reached := fun last member => (later.reached last (fresh ▸ member)).cons newly
    spent := fun member => (later.spent (among (silent .base) member)).cons newly
    exhausted := fun member => (later.exhausted (among left member)).cons newly }

theorem Handouts.handed (later : Handouts after calls answers) (proper : id ≠ .base)
    (least : IsLeast {n | 0 < n ∧ n ∉ t.space.used} id.order)
    (used : after.space.used = insert id.order t.space.used) :
    Handouts t (.allocate :: calls) (.ok (some id) :: answers) := by
  have fresh : IdCall.fresh (.ok (some id) :: answers) = id :: IdCall.fresh answers := by
    rw [IdCall.fresh,IdCall.given_handed,List.filter_cons_of_pos (by simpa using proper),IdCall.fresh]
  have newly (other : InstanceId) (_ : other ≠ .base) (unused : other.order ∉ t.space.used)
      (taken : other.order ∈ after.space.used) :
      IdCall.Took (.allocate :: calls) (.ok (some id) :: answers) other := by
    have same := (Finset.mem_insert.mp (used ▸ taken)).resolve_right unused
    rw [InstanceId.order_inj.mp same]
    exact .inl (fresh ▸ List.mem_cons_self)
  have above (other : InstanceId) (member : other ∈ IdCall.fresh answers) :
      other.order ∉ t.space.used ∧ id.order < other.order := by
    have unused := later.unused other member
    rw [used,Finset.mem_insert,not_or] at unused
    have bound := least.2 ⟨InstanceId.order_pos.mpr (IdCall.mem_fresh.mp member).2,unused.2⟩
    exact ⟨unused.2,Nat.lt_of_le_of_ne bound (Ne.symm unused.1)⟩
  exact {
    answered := by
      have answered := later.answered
      rw [IdCall.given_handed,List.length_cons,IdCall.exhausted_handed,List.count_cons_self]
      omega
    rising := by
      rw [fresh]
      exact List.pairwise_cons.mpr ⟨fun other member => (above other member).2,later.rising⟩
    unused := fun other member => by
      rcases List.mem_cons.mp (fresh ▸ member) with rfl | member
      · exact least.1.2
      · exact (above other member).1
    reached := fun last member => by
      rcases List.mem_cons.mp (fresh ▸ member) with rfl | member
      · intro other positive near unused
        have bound := least.2 ⟨InstanceId.order_pos.mpr positive,unused⟩
        rw [InstanceId.order_inj.mp (Nat.le_antisymm near bound)]
        exact .inl (fresh ▸ List.mem_cons_self)
      · exact (later.reached last member).cons newly
    spent := fun member => by
      have apart : (.ok (some .base) : IdAnswer) ≠ .ok (some id) := fun same => proper (by cases same; rfl)
      exact (later.spent ((List.mem_cons.mp member).resolve_left apart)).cons newly
    exhausted := fun member => (later.exhausted ((List.mem_cons.mp member).resolve_left nofun)).cons newly }

theorem Handouts.refused (later : Handouts t calls answers) (valid : t.Valid) (full : t.next = largestId) :
    Handouts t (.allocate :: calls) (.error .exhausted :: answers) where
  answered := by
    have answered := later.answered
    rw [IdCall.given_failed,List.count_cons_self,List.count_cons_self]
    omega
  rising := later.rising
  unused := later.unused
  reached last member := (later.reached last member).cons fun _ _ unused used => absurd used unused
  spent member := by
    rcases List.mem_cons.mp member with same | member
    · cases same
    · exact (later.spent member).cons fun _ _ unused used => absurd used unused
  exhausted _ id proper small unused := by
    have cursor := valid.next_le (InstanceId.order_pos.mpr proper) unused
    omega

theorem Handouts.wrapped (later : Handouts after calls answers) (none : ¬ t.Spare)
    (same : after.space.used = t.space.used) : Handouts t (.allocate :: calls) (.ok (some .base) :: answers) where
  answered := by
    have answered := later.answered
    rw [IdCall.given_handed,List.length_cons,IdCall.exhausted_handed,List.count_cons_self]
    omega
  rising := later.rising
  unused id member := same ▸ later.unused id member
  reached last member := (later.reached last member).cons fun _ _ unused used => absurd (same ▸ used) unused
  spent _ id proper _ unused := absurd ⟨id,proper,unused⟩ none
  exhausted _ id proper _ unused := absurd ⟨id,proper,unused⟩ none

theorem run_handouts (valid : t.Valid) (largest : t.limit = largestId) (kept : ∀ id, .release id ∉ calls) :
    Handouts t calls (IdCall.run IdTable.call t calls).2 := by
  induction calls generalizing t with
  | nil => exact handouts_nil t
  | cons call rest ih =>
    have kept' (id : InstanceId) : .release id ∉ rest := fun member => kept id (List.mem_cons_of_mem _ member)
    have grows : t.space.used ⊆ (t.call call).1.space.used :=
      call_grows valid fun id same => kept id (same ▸ List.mem_cons_self)
    have later := ih (call_valid valid call) ((call_frame valid call).1.trans largest) kept'
    simp only [IdCall.run]
    cases call with
    | reserve named =>
      refine later.told (by simp) grows fun id _ unused used => ?_
      rw [InstanceId.order_inj.mp ((reserve_used used).resolve_right unused)]
      exact .inr (.inl List.mem_cons_self)
    | claim named =>
      refine later.told (by simp) grows fun id _ unused used => ?_
      rw [InstanceId.order_inj.mp ((claim_used valid used).resolve_right unused)]
      exact .inr (.inr List.mem_cons_self)
    | release named => exact absurd List.mem_cons_self (kept named)
    | allocate =>
      simp only [IdTable.call] at later ⊢
      cases done : t.allocate with
      | error e =>
        obtain ⟨rfl,full⟩ := allocate_failed valid done
        rw [done] at later
        exact later.refused valid (full.trans largest)
      | ok fresh =>
        obtain ⟨id,after⟩ := fresh
        rw [done] at later
        rcases allocate_cases valid done with ⟨proper,least,used,_⟩ | ⟨rfl,none,_,space,_⟩
        · exact later.handed proper least used
        · exact later.wrapped none (by rw [space])

end IdTable
end LiveMaps
