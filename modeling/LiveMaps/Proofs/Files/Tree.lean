import LiveMaps.Files.Tree

namespace LiveMaps.FileTree
variable {tree next made : FileTree} {place other final : Path} {entry : Entry} {r : Route}

theorem isDirectory_iff : tree.isDirectory place = true ↔ tree.entry? place = some .directory := beq_iff_eq

def Keeps (tree next : FileTree) : Prop :=
  ∀ place, tree.isDirectory place = true → next.isDirectory place = true

-- Only directories are gone through, so more of them do not lead elsewhere.
theorem walk_kept (keeps : Keeps tree next) {parts : List String} (walked : tree.walk place parts = .ok final) :
    next.walk place parts = .ok final := by
  induction parts generalizing place with
  | nil => exact walked
  | cons part rest ih =>
    unfold walk at walked ⊢
    split at walked
    · cases walked
    · cases walked
    · rename_i here
      rw [isDirectory_iff.mp (keeps place (isDirectory_iff.mpr here))]
      dsimp only
      split at walked
      · cases walked
      · rename_i short
        rw [if_neg short]
        exact ih walked

theorem walk_append (one two : List String) :
    tree.walk place (one ++ two) = (tree.walk place one).bind (fun place => tree.walk place two) := by
  induction one generalizing place with
  | nil => rfl
  | cons part rest ih =>
    simp only [List.cons_append,walk]
    split
    · rfl
    · rfl
    · split
      · rfl
      · exact ih

theorem trace_kept (keeps : Keeps tree next) (traced : tree.trace r = .ok place) :
    next.trace r = .ok place := by
  unfold trace at traced ⊢
  split at traced
  · cases traced
  · rename_i usable
    rw [if_neg usable]
    exact walk_kept keeps traced

theorem place?_iff : tree.place? r = some place ↔ tree.trace r = .ok place := by
  unfold place?
  split <;> simp_all

theorem place?_kept (keeps : Keeps tree next) (placed : tree.place? r = some place) :
    next.place? r = some place := place?_iff.mpr (trace_kept keeps (place?_iff.mp placed))

theorem entryAt?_of_place (placed : tree.place? r = some place) : tree.entryAt? r = tree.entry? place := by
  rw [entryAt?,placed,Option.bind_some]

theorem entry?_set_self (tree : FileTree) (entry : Entry) (inside : isOutside place = false) :
    FileTree.entry? (tree.set place entry) place = some entry := by
  unfold FileTree.entry? FileTree.set
  simp [inside]

theorem lookup_filter_ne (entries : List (Path × Entry)) (apart : other ≠ place) :
    (entries.filter (fun e => e.1 != place)).lookup other = entries.lookup other := by
  induction entries with
  | nil => rfl
  | cons first rest ih =>
    obtain ⟨here,entry⟩ := first
    by_cases same : here = place
    · have missed : (other == here) = false := by simpa [same] using apart
      simp only [List.filter_cons,same,bne_self_eq_false,Bool.false_eq_true,if_false,ih]
      rw [List.lookup_cons,←same,missed]
    · simp only [List.filter_cons,bne_iff_ne,ne_eq,same,not_false_eq_true,if_true,List.lookup_cons,ih]

theorem entry?_set_ne (tree : FileTree) (entry : Entry) (apart : other ≠ place) :
    FileTree.entry? (tree.set place entry) other = tree.entry? other := by
  have missed : (other == place) = false := by simpa using apart
  unfold FileTree.entry? FileTree.set
  simp only [List.lookup_cons,missed,lookup_filter_ne _ apart]

theorem inside_of_free (free : tree.isDirectory place = false) : isOutside place = false := by
  unfold isDirectory entry? at free
  cases outside : isOutside place
  · rfl
  · simp [outside] at free

theorem set_keeps (free : tree.isDirectory place = false) (entry : Entry) : Keeps tree (tree.set place entry) := by
  intro other directory
  have apart : other ≠ place := by
    rintro rfl
    rw [free] at directory
    cases directory
  rwa [isDirectory_iff,entry?_set_ne tree entry apart,←isDirectory_iff]

theorem write?_free (placed : tree.place? r = some place) (free : tree.isDirectory place = false)
    (content : Content) : tree.write? r content = some (tree.set place (.file content)) := by
  simp [write?,placed,free]

theorem write?_parts {next : FileTree} {content : Content} (written : tree.write? r content = some next) :
    ∃ place, tree.place? r = some place ∧ tree.isDirectory place = false ∧ next = tree.set place (.file content) := by
  obtain ⟨place,placed,set⟩ := Option.bind_eq_some_iff.mp written
  split at set
  · cases set
  · rename_i free
    exact ⟨place,placed,eq_false_of_ne_true free,(Option.some.inj set).symm⟩

def unslashed (r : Route) : Route := ⟨(r.parts.reverse.dropWhile (· = "")).reverse⟩

def Stands (tree : FileTree) (r : Route) : Prop :=
  ∃ place, tree.trace (unslashed r) = .ok place ∧ tree.isDirectory place = true

theorem Stands.kept (stands : tree.Stands r) (keeps : Keeps tree next) : next.Stands r := by
  obtain ⟨place,traced,directory⟩ := stands
  exact ⟨place,trace_kept keeps traced,keeps place directory⟩

theorem makeDirectory_stands (done : tree.makeDirectory r = .ok made) : made.Stands r := by
  unfold makeDirectory at done
  split at done
  · cases done
  · rename_i place traced
    split at done
    · rename_i directory
      cases done
      exact ⟨place,traced,isDirectory_iff.mpr directory⟩
    · cases done
    · rename_i missing
      cases done
      have free : tree.isDirectory place = false := by simp [isDirectory,missing]
      refine ⟨place,trace_kept (set_keeps free .directory) traced,?_⟩
      rw [isDirectory_iff,entry?_set_self tree .directory (inside_of_free free)]

theorem Stands.makeDirectory (stands : tree.Stands r) : tree.makeDirectory r = .ok tree := by
  obtain ⟨place,traced,directory⟩ := stands
  unfold unslashed at traced
  simp only [FileTree.makeDirectory,traced,isDirectory_iff.mp directory]

theorem makeFirst_stands {above : List Route} (done : tree.makeFirst r above = (true,made)) : made.Stands r := by
  unfold makeFirst at done
  split at done
  · rename_i direct
    cases done
    exact makeDirectory_stands direct
  · cases done
  · split at done
    · cases done
    · split at done
      · cases done
      · split at done
        · rename_i last
          cases done
          exact makeDirectory_stands last
        · cases done

theorem Stands.createDirectories (stands : tree.Stands r) : tree.createDirectories r = (true,tree) := by
  unfold FileTree.createDirectories makeFirst
  rw [stands.makeDirectory]

-- What making directories leaves alone.

def target (r : Route) : Path := r.parts.foldl Route.follow []

theorem walk_target {parts : List String} (walked : tree.walk place parts = .ok final) :
    final = parts.foldl Route.follow place := by
  induction parts generalizing place with
  | nil => exact (Except.ok.inj walked).symm
  | cons part rest ih =>
    unfold walk at walked
    split at walked
    · cases walked
    · cases walked
    · split at walked
      · cases walked
      · exact ih walked

theorem trace_target (traced : tree.trace r = .ok place) : place = target r := by
  unfold trace at traced
  split at traced
  · cases traced
  · exact walk_target traced

theorem makeDirectory_apart (done : tree.makeDirectory r = .ok made) (apart : place ≠ target (unslashed r)) :
    made.entry? place = tree.entry? place := by
  unfold makeDirectory at done
  split at done
  · cases done
  · rename_i own traced
    have same : own = target (unslashed r) := trace_target traced
    split at done
    · cases done
      rfl
    · cases done
    · cases done
      exact entry?_set_ne tree .directory (same ▸ apart)

theorem makeFirst_apart {above : List Route} (done : tree.makeFirst r above = (true,made))
    (apart : ∀ route ∈ r :: above, place ≠ target (unslashed route)) : made.entry? place = tree.entry? place := by
  have own := apart r List.mem_cons_self
  induction above generalizing r made with
  | nil =>
    unfold makeFirst at done
    split at done
    · rename_i direct
      cases done
      exact makeDirectory_apart direct own
    · cases done
    · cases done
  | cons next rest ih =>
    unfold makeFirst at done
    split at done
    · rename_i direct
      cases done
      exact makeDirectory_apart direct own
    · cases done
    · dsimp only at done
      split at done
      · cases done
      · rename_i middle first
        split at done
        · rename_i last
          cases done
          have earlier := ih first (fun route member => apart route (List.mem_cons_of_mem _ member))
            (apart next (by simp))
          exact (makeDirectory_apart last own).trans earlier
        · cases done

-- Routes that never lead up: no two dots, and a slash at most as the first part.
structure Descends (r : Route) : Prop where
  forth : ".." ∉ r.parts
  within : "/" ∉ r.parts.tail

theorem follow_length {part : String} (forth : part ≠ "..") (within : part ≠ "/") :
    place.length ≤ (Route.follow place part).length := by
  unfold Route.follow
  split
  · exact Nat.le_refl _
  · rw [List.length_append]
    exact Nat.le_add_right _ _

theorem foldl_follow_length {parts : List String} (forth : ".." ∉ parts) (within : "/" ∉ parts) :
    place.length ≤ (parts.foldl Route.follow place).length := by
  induction parts generalizing place with
  | nil => exact Nat.le_refl _
  | cons part rest ih =>
    rw [List.mem_cons,not_or] at forth within
    exact Nat.le_trans (follow_length (Ne.symm forth.1) (Ne.symm within.1)) (ih forth.2 within.2)

-- A part of the way leads no deeper than the whole of it.
theorem target_length {short : Route} (descends : Descends r) (shorter : short.parts <+: r.parts) :
    (target short).length ≤ (target r).length := by
  obtain ⟨rest,whole⟩ := shorter
  have forth := descends.forth
  have within := descends.within
  rw [target,target,←whole,List.foldl_append]
  rw [←whole] at forth within
  cases parts : short.parts with
  | nil => exact Nat.zero_le _
  | cons first more =>
    rw [parts,List.cons_append,List.tail_cons,List.mem_append,not_or] at within
    rw [List.mem_append,not_or] at forth
    exact foldl_follow_length forth.2 within.2

theorem dropped_starts (parts : List String) (test : String → Bool) :
    (parts.reverse.dropWhile test).reverse <+: parts := by
  have suffix := List.dropWhile_suffix (l := parts.reverse) test
  rw [←List.reverse_prefix] at suffix
  rwa [List.reverse_reverse] at suffix

theorem unslashed_starts (r : Route) : (unslashed r).parts <+: r.parts := dropped_starts r.parts _

theorem above_starts {route : Route} (member : route ∈ r.above) : route.parts <+: r.parts := by
  obtain ⟨parts,listed,rfl⟩ := List.mem_map.mp member
  obtain ⟨n,_,rfl⟩ := List.mem_map.mp (List.mem_filter.mp listed).1
  exact (List.take_prefix n _).trans (dropped_starts r.parts Route.isIdle)

theorem createDirectories_deeper (descends : Descends r) (done : tree.createDirectories r = (true,made))
    (deeper : (target r).length < place.length) : made.entry? place = tree.entry? place := by
  refine makeFirst_apart done fun route member same => ?_
  have shorter : route.parts <+: r.parts := by
    rcases List.mem_cons.mp member with rfl | above
    · exact List.prefix_refl _
    · exact above_starts above
  have bound := target_length descends ((unslashed_starts route).trans shorter)
  rw [same] at deeper
  omega

theorem walk_blanks (directory : tree.isDirectory place = true) {parts : List String}
    (blank : ∀ part ∈ parts, part = "") : tree.walk place parts = .ok place := by
  induction parts with
  | nil => rfl
  | cons part rest ih =>
    cases blank part List.mem_cons_self
    have later := ih fun part member => blank part (List.mem_cons_of_mem _ member)
    unfold walk
    rw [isDirectory_iff.mp directory]
    exact later

theorem Stands.walk (stands : tree.Stands r) :
    tree.walk [] r.parts = .ok (target r) ∧ tree.isDirectory (target r) = true := by
  obtain ⟨place,traced,directory⟩ := stands
  unfold trace at traced
  split at traced
  · cases traced
  · have whole : r.parts = (unslashed r).parts ++ (r.parts.reverse.takeWhile (· = "")).reverse := by
      rw [unslashed,←List.reverse_append,List.takeWhile_append_dropWhile,List.reverse_reverse]
    have blank : ∀ part ∈ (r.parts.reverse.takeWhile (· = "")).reverse, part = "" := fun part member => by
      simpa using List.all_eq_true.mp List.all_takeWhile part (List.mem_reverse.mp member)
    have walked : tree.walk [] r.parts = .ok place := by
      rw [whole,walk_append,traced]
      exact walk_blanks directory blank
    have same : place = target r := walk_target walked
    exact ⟨same ▸ walked,same ▸ directory⟩

end LiveMaps.FileTree
