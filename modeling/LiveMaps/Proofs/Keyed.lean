import LiveMaps.Ordered
import Mathlib.Data.Nat.Basic
import Mathlib.Order.Lattice

namespace LiveMaps.Ordered

-- A list without the order has no such lemmas: there an entry may stand twice.
def Ascending {κ α : Type} [LT κ] (key : α → κ) (entries : List α) : Prop :=
  entries.Pairwise (fun earlier later => key earlier < key later)

instance {κ α : Type} [LT κ] [DecidableLT κ] (key : α → κ) (entries : List α) : Decidable (Ascending key entries) :=
  inferInstanceAs (Decidable (entries.Pairwise _))

section
variable {κ α : Type} [LinearOrder κ] {key : α → κ} {entry other : α} {entries : List α}

theorem Ascending.tail (ascending : Ascending key (entry :: entries)) : Ascending key entries :=
  (List.pairwise_cons.mp ascending).2

theorem Ascending.head_lt (ascending : Ascending key (entry :: entries)) (member : other ∈ entries) :
    key entry < key other := (List.pairwise_cons.mp ascending).1 other member

theorem Ascending.filter (ascending : Ascending key entries) (keep : α → Bool) :
    Ascending key (entries.filter keep) := List.Pairwise.filter keep ascending

theorem Ascending.map (ascending : Ascending key entries) {change : α → α}
    (kept : ∀ entry, key (change entry) = key entry) : Ascending key (entries.map change) := by
  unfold Ascending
  rw [List.pairwise_map]
  simp only [kept]
  exact ascending

theorem Ascending.same_entry (ascending : Ascending key entries) (one : entry ∈ entries)
    (two : other ∈ entries) (equal : key entry = key other) : entry = other := by
  induction entries with
  | nil => cases one
  | cons head rest ih =>
    rcases List.mem_cons.mp one with first | oneLater
    · rcases List.mem_cons.mp two with second | twoLater
      · exact first.trans second.symm
      · have := ascending.head_lt twoLater
        rw [←equal,first] at this
        exact absurd this (lt_irrefl _)
    · rcases List.mem_cons.mp two with second | twoLater
      · have := ascending.head_lt oneLater
        rw [equal,second] at this
        exact absurd this (lt_irrefl _)
      · exact ih ascending.tail oneLater twoLater

theorem Ascending.find?_iff (ascending : Ascending key entries) {test : α → Bool}
    (sharp : ∀ one two, test one = true → test two = true → key one = key two) :
    entries.find? test = some entry ↔ entry ∈ entries ∧ test entry = true := by
  constructor
  · intro found
    exact ⟨List.mem_of_find?_eq_some found,List.find?_some found⟩
  · rintro ⟨member,passed⟩
    cases found : entries.find? test with
    | none => exact absurd passed (List.find?_eq_none.mp found entry member)
    | some other =>
      have passed' := List.find?_some found
      rw [ascending.same_entry (List.mem_of_find?_eq_some found) member (sharp _ _ passed' passed)]

theorem Ascending.find?_toList (ascending : Ascending key entries) {test : α → Bool}
    (sharp : ∀ one two, test one = true → test two = true → key one = key two) :
    (entries.find? test).toList = entries.filter test := by
  induction entries with
  | nil => rfl
  | cons head rest ih =>
    by_cases passed : test head = true
    · have alone : rest.filter test = [] := by
        refine List.filter_eq_nil_iff.mpr fun other member passed' => ?_
        have below := ascending.head_lt member
        rw [sharp head other passed passed'] at below
        exact lt_irrefl _ below
      rw [List.find?_cons_of_pos passed,List.filter_cons_of_pos passed,alone]
      rfl
    · rw [List.find?_cons_of_neg passed,List.filter_cons_of_neg passed]
      exact ih ascending.tail

theorem Ascending.nodup (ascending : Ascending key entries) : entries.Nodup := by
  refine List.Pairwise.imp ?_ ascending
  rintro one two below rfl
  exact lt_irrefl _ below

theorem Ascending.ext {others : List α} (one : Ascending key entries) (two : Ascending key others)
    (same : ∀ entry, entry ∈ entries ↔ entry ∈ others) : entries = others := by
  have together : entries.Perm others :=
    (List.perm_ext_iff_of_nodup one.nodup two.nodup).mpr same
  refine together.eq_of_pairwise (fun a b _ _ below above => ?_) one two
  exact absurd below (lt_asymm above)

variable [DecidableLT κ] [DecidableEq κ]

theorem mem_of_insert (member : other ∈ insert key entry entries) : other = entry ∨ other ∈ entries := by
  induction entries with
  | nil => exact .inl (List.mem_singleton.mp member)
  | cons head rest ih =>
    unfold insert at member
    split at member
    · exact List.mem_cons.mp member
    · split at member
      · exact (List.mem_cons.mp member).imp_right (List.mem_cons_of_mem _)
      · rcases List.mem_cons.mp member with rfl | later
        · exact .inr List.mem_cons_self
        · exact (ih later).imp_right (List.mem_cons_of_mem _)

theorem insert_ascending (ascending : Ascending key entries) :
    Ascending key (insert key entry entries) := by
  induction entries with
  | nil => exact List.pairwise_singleton _ _
  | cons head rest ih =>
    unfold insert
    split
    · rename_i before
      refine List.pairwise_cons.mpr ⟨?_,ascending⟩
      intro item member
      rcases List.mem_cons.mp member with rfl | member
      · exact before
      · exact lt_trans before (ascending.head_lt member)
    · split
      · rename_i same
        refine List.pairwise_cons.mpr ⟨?_,ascending.tail⟩
        intro item member
        rw [same]
        exact ascending.head_lt member
      · rename_i not_before different
        refine List.pairwise_cons.mpr ⟨?_,ih ascending.tail⟩
        intro item member
        rcases mem_of_insert member with rfl | old
        · exact lt_of_le_of_ne (not_lt.mp not_before) (Ne.symm different)
        · exact ascending.head_lt old

theorem insert_last (below : ∀ earlier ∈ entries, key earlier < key entry) :
    insert key entry entries = entries ++ [entry] := by
  induction entries with
  | nil => rfl
  | cons head rest ih =>
    have first := below head List.mem_cons_self
    have later := ih fun earlier member => below earlier (List.mem_cons_of_mem _ member)
    rw [insert,if_neg (lt_asymm first),if_neg (ne_of_gt first),later]
    rfl

def insertAll (key : α → κ) (added entries : List α) : List α :=
  added.foldl (fun kept entry => insert key entry kept) entries

theorem insertAll_ascending (ascending : Ascending key entries) (added : List α) :
    Ascending key (insertAll key added entries) := by
  unfold insertAll
  induction added generalizing entries with
  | nil => exact ascending
  | cons entry rest ih => exact ih (insert_ascending ascending)

theorem mem_of_insertAll {added : List α} (member : other ∈ insertAll key added entries) :
    other ∈ added ∨ other ∈ entries := by
  unfold insertAll at member
  induction added generalizing entries with
  | nil => exact .inr member
  | cons entry rest ih =>
    rcases ih member with later | kept
    · exact .inl (List.mem_cons_of_mem _ later)
    · rcases mem_of_insert kept with rfl | old
      · exact .inl List.mem_cons_self
      · exact .inr old

theorem ofList_ascending (ascending : Ascending key entries) : ofList key entries = entries := by
  suffices extended : ∀ before, Ascending key (before ++ entries) →
      insertAll key entries before = before ++ entries from extended [] ascending
  clear ascending
  unfold insertAll
  induction entries with
  | nil => exact fun before _ => (List.append_nil before).symm
  | cons entry rest ih =>
    intro before ascending
    have below : ∀ earlier ∈ before, key earlier < key entry := fun earlier member =>
      (List.pairwise_append.mp ascending).2.2 earlier member entry List.mem_cons_self
    rw [List.append_cons] at ascending ⊢
    rw [List.foldl_cons,insert_last below,ih _ ascending]

end

variable {α : Type} {key : α → Nat} {entry other : α} {entries : List α}

-- What stood under the key of the new entry gives way to it, and nothing else.
theorem insert_perm (entry : α) (ascending : Ascending key entries) :
    (insert key entry entries ++ entries.filter (fun old => key old == key entry)).Perm
      (entry :: entries) := by
  induction entries with
  | nil => exact .refl _
  | cons head rest ih =>
    have none_of (bound : key entry ≤ key head) : rest.filter (fun old => key old == key entry) = [] := by
      refine List.filter_eq_nil_iff.mpr (fun item member => ?_)
      have := ascending.head_lt member
      simp only [beq_iff_eq]; omega
    unfold insert
    split
    · rename_i before
      have apart : ¬ (key head == key entry) = true := by simp only [beq_iff_eq]; omega
      rw [List.filter_cons,if_neg apart,none_of (by omega),List.append_nil]
    · split
      · rename_i same
        rw [List.filter_cons,if_pos (beq_iff_eq.mpr same.symm),none_of (by omega)]
        exact .cons _ List.perm_append_comm
      · rename_i different
        have apart : ¬ (key head == key entry) = true := by simp only [beq_iff_eq]; omega
        rw [List.filter_cons,if_neg apart,List.cons_append]
        exact ((ih ascending.tail).cons head).trans (.swap _ _ _)

theorem insert_perm_of_fresh (entry : α) (ascending : Ascending key entries)
    (fresh : ∀ old ∈ entries, key old ≠ key entry) : (insert key entry entries).Perm (entry :: entries) := by
  have replaced : entries.filter (fun old => key old == key entry) = [] :=
    List.filter_eq_nil_iff.mpr (fun old member => by simpa using fresh old member)
  simpa [replaced] using insert_perm entry ascending

theorem mem_insert_self : entry ∈ insert key entry entries := by
  induction entries with
  | nil => exact List.mem_cons_self
  | cons head rest ih =>
    unfold insert
    split
    · exact List.mem_cons_self
    · split
      · exact List.mem_cons_self
      · exact List.mem_cons_of_mem _ ih

theorem mem_insert_of_ne (old : other ∈ entries) (apart : key other ≠ key entry) :
    other ∈ insert key entry entries := by
  induction entries with
  | nil => cases old
  | cons head rest ih =>
    unfold insert
    split
    · exact List.mem_cons_of_mem _ old
    · split
      · rename_i same
        rcases List.mem_cons.mp old with rfl | later
        · exact absurd same.symm apart
        · exact List.mem_cons_of_mem _ later
      · rcases List.mem_cons.mp old with rfl | later
        · exact List.mem_cons_self
        · exact List.mem_cons_of_mem _ (ih later)

theorem mem_insert (ascending : Ascending key entries) :
    other ∈ insert key entry entries ↔ other = entry ∨ other ∈ entries ∧ key other ≠ key entry := by
  constructor
  · intro member
    by_cases same : key other = key entry
    · exact .inl ((insert_ascending ascending).same_entry member mem_insert_self same)
    · exact (mem_of_insert member).imp_right (fun old => ⟨old,same⟩)
  · rintro (rfl | ⟨old,apart⟩)
    · exact mem_insert_self
    · exact mem_insert_of_ne old apart

theorem mem_around {front back : List α} :
    other ∈ front ++ entry :: back ↔ other = entry ∨ other ∈ front ∨ other ∈ back := by
  rw [List.mem_append,List.mem_cons]
  exact or_left_comm

theorem flatMap_apart {items : α → List β} {front back : List α} {one two : β}
    (distinct : ((front ++ entry :: back).flatMap items).Nodup) (among : other ∈ front ∨ other ∈ back)
    (here : one ∈ items entry) (there : two ∈ items other) : two ≠ one := by
  rw [List.flatMap_append,List.flatMap_cons,List.nodup_append] at distinct
  obtain ⟨_,rest,before⟩ := distinct
  rw [List.nodup_append] at rest
  rcases among with earlier | later
  · exact before _ (List.mem_flatMap.mpr ⟨other,earlier,there⟩) _ (List.mem_append_left _ here)
  · exact (rest.2.2 _ here _ (List.mem_flatMap.mpr ⟨other,later,there⟩)).symm

theorem flatMap_replaced {items : α → List β} {front back : List α} {next : α}
    (distinct : ((front ++ entry :: back).flatMap items).Nodup) (own : (items next).Nodup)
    (apart : ∀ other, other ∈ front ∨ other ∈ back → ∀ one ∈ items other, one ∉ items next) :
    ((front ++ next :: back).flatMap items).Nodup := by
  rw [List.flatMap_append,List.flatMap_cons,List.nodup_append,List.nodup_append] at distinct ⊢
  obtain ⟨first,⟨_,last,_⟩,across⟩ := distinct
  refine ⟨first,⟨own,last,?_⟩,?_⟩
  · rintro one here _ there rfl
    obtain ⟨other,later,held⟩ := List.mem_flatMap.mp there
    exact apart other (.inr later) one held here
  · rintro one there _ rest rfl
    rcases List.mem_append.mp rest with here | later
    · obtain ⟨other,earlier,held⟩ := List.mem_flatMap.mp there
      exact apart other (.inl earlier) one held here
    · exact across one there one (List.mem_append_right _ later) rfl

theorem insertAll_perm (ascending : Ascending key entries) {added : List α}
    (distinct : (added.map key).Nodup) (fresh : ∀ old ∈ entries, key old ∉ added.map key) :
    (insertAll key added entries).Perm (added ++ entries) := by
  unfold insertAll
  induction added generalizing entries with
  | nil => exact .refl _
  | cons entry rest ih =>
    obtain ⟨apart,distinct⟩ := List.nodup_cons.mp distinct
    have placed := insert_perm_of_fresh entry ascending
      fun old member same => fresh old member (same ▸ List.mem_cons_self)
    refine (ih (insert_ascending ascending) distinct fun old member later => ?_).trans ?_
    · rcases List.mem_cons.mp (placed.mem_iff.mp member) with rfl | earlier
      · exact apart later
      · exact fresh old earlier (List.mem_cons_of_mem _ later)
    · exact (placed.append_left rest).trans List.perm_middle

end LiveMaps.Ordered
