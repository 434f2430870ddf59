import LiveMaps.Proofs.Catalog.Searches

namespace LiveMaps.Catalog
open Ancestry Ordered

def FirstRepeat (ids : List MapId) (map : MapId) : Prop :=
  ∃ before after, ids = before ++ map :: after ∧ before.Nodup ∧ map ∈ before

def Under (maps : List MapDefinition) (child parent : MapId) : Prop :=
  ∃ d ∈ maps, d.id = child ∧ (d.parent = some parent ∨ d.parent = none ∧ d.cosmeticParent = some parent)

def Dangling (maps : List MapDefinition) (map : MapId) : Prop :=
  ∃ parent, Under maps map parent ∧ parent ∉ maps.map MapDefinition.id

def Lowest (chosen : MapId → Prop) (map : MapId) : Prop :=
  chosen map ∧ ∀ other, chosen other → map.order ≤ other.order

-- A fault counts only where there is none of the kinds before it.
inductive Refused (maps : List MapDefinition) : CatalogError → Prop where
  | repeated {map} : FirstRepeat (maps.map MapDefinition.id) map → Refused maps (.duplicateMap map)
  | dangling {map parent} : (maps.map MapDefinition.id).Nodup → Lowest (Dangling maps) map →
      Under maps map parent → Refused maps (.unknownParent map parent)
  | cyclic {map} : (maps.map MapDefinition.id).Nodup → (∀ map, ¬ Dangling maps map) →
      Lowest (RunsIntoCycle (Under maps)) map → Refused maps (.parentCycle map)

structure Faultless (maps : List MapDefinition) : Prop where
  distinct : (maps.map MapDefinition.id).Nodup
  attached : ∀ map, ¬ Dangling maps map
  acyclic : ∀ map, ¬ RunsIntoCycle (Under maps) map

structure Holds (c : Catalog) (maps : List MapDefinition) : Prop where
  defined : ∀ map d, c.definition? map = some d ↔ d ∈ maps ∧ d.id = map
  acyclic : ∀ map, ¬ Relation.TransGen (Under c.definitions) map map
  children : ∀ parent child, child ∈ c.childrenOf parent ↔ Under maps child parent
  ascending : ∀ parent, Ascending MapId.order (c.childrenOf parent)

variable {data : CatalogData} {maps : List MapDefinition} {ids seen : List MapId} {c : Catalog}
  {d : MapDefinition} {map parent other : MapId} {error wrong : CatalogError}

theorem firstRepeat?_some (distinct : seen.Nodup) (found : firstRepeat? seen ids = some map) :
    FirstRepeat (seen.reverse ++ ids) map := by
  induction ids generalizing seen with
  | nil => cases found
  | cons id rest ih =>
    rw [firstRepeat?] at found
    split at found
    · rename_i present
      cases found
      refine ⟨seen.reverse,rest,rfl,List.nodup_reverse.mpr distinct,?_⟩
      exact List.mem_reverse.mpr (List.contains_iff_mem.mp present)
    · rename_i fresh
      rw [List.contains_iff_mem] at fresh
      have later := ih (List.nodup_cons.mpr ⟨fresh,distinct⟩) found
      rwa [List.reverse_cons,List.append_assoc] at later

theorem firstRepeat?_none (distinct : seen.Nodup) (missed : firstRepeat? seen ids = none) :
    (seen.reverse ++ ids).Nodup := by
  induction ids generalizing seen with
  | nil => rwa [List.append_nil,List.nodup_reverse]
  | cons id rest ih =>
    rw [firstRepeat?] at missed
    split at missed
    · cases missed
    · rename_i fresh
      rw [List.contains_iff_mem] at fresh
      have later := ih (List.nodup_cons.mpr ⟨fresh,distinct⟩) missed
      rwa [List.reverse_cons,List.append_assoc] at later

theorem FirstRepeat.not_nodup (first : FirstRepeat ids map) : ¬ ids.Nodup := by
  obtain ⟨before,after,rfl,_,present⟩ := first
  intro distinct
  exact (List.nodup_append.mp distinct).2.2 map present map List.mem_cons_self rfl

theorem FirstRepeat.unique (one : FirstRepeat ids map) (two : FirstRepeat ids other) : map = other := by
  obtain ⟨before,after,rfl,distinct,present⟩ := one
  obtain ⟨before',after',same,distinct',present'⟩ := two
  -- of two places that differ, the later one has the earlier repetition before it
  rcases List.append_eq_append_iff.mp same with ⟨more,rfl,rest⟩ | ⟨more,rfl,rest⟩
  · cases more with
    | nil => exact (List.cons.inj rest).1
    | cons _ more =>
      obtain ⟨rfl,_⟩ := List.cons.inj rest
      exact absurd rfl ((List.nodup_append.mp distinct').2.2 map present map List.mem_cons_self)
  · cases more with
    | nil => exact (List.cons.inj rest).1.symm
    | cons _ more =>
      obtain ⟨rfl,_⟩ := List.cons.inj rest
      exact absurd rfl ((List.nodup_append.mp distinct).2.2 other present' other List.mem_cons_self)

theorem Lowest.unique {chosen : MapId → Prop} (one : Lowest chosen map) (two : Lowest chosen other) :
    map = other := by
  have below := one.2 other two.1
  have above := two.2 map one.1
  exact MapId.order_inj.mp (Nat.le_antisymm below above)

theorem under_iff : Under maps map parent ↔ ∃ d ∈ maps, d.id = map ∧ d.terrainParent = some parent := by
  simp only [Under,MapDefinition.terrainParent,Option.or_eq_some_iff]

theorem Under.unique (distinct : (maps.map MapDefinition.id).Nodup) (one : Under maps map parent)
    (two : Under maps map other) : parent = other := by
  obtain ⟨d,member,named,above⟩ := under_iff.mp one
  obtain ⟨d',member',named',above'⟩ := under_iff.mp two
  rw [List.inj_on_of_nodup_map distinct member member' (named.trans named'.symm),above'] at above
  exact (Option.some.inj above).symm

theorem Refused.faulty (refused : Refused maps error) : ¬ Faultless maps := by
  intro faultless
  cases refused with
  | repeated first => exact first.not_nodup faultless.distinct
  | dangling _ lowest _ => exact faultless.attached _ lowest.1
  | cyclic _ _ lowest => exact faultless.acyclic _ lowest.1

theorem Refused.unique (one : Refused maps error) (two : Refused maps wrong) : error = wrong := by
  cases one with
  | repeated first =>
    cases two with
    | repeated first' => rw [first.unique first']
    | dangling distinct _ _ => exact absurd distinct first.not_nodup
    | cyclic distinct _ _ => exact absurd distinct first.not_nodup
  | dangling distinct lowest under =>
    cases two with
    | repeated first => exact absurd distinct first.not_nodup
    | dangling _ lowest' under' =>
      cases lowest.unique lowest'
      rw [under.unique distinct under']
    | cyclic _ attached _ => exact absurd lowest.1 (attached _)
  | cyclic distinct attached lowest =>
    cases two with
    | repeated first => exact absurd distinct first.not_nodup
    | dangling _ lowest' _ => exact absurd lowest'.1 (attached _)
    | cyclic _ _ lowest' => rw [lowest.unique lowest']

def listed (data : CatalogData) : Catalog :=
  {empty with definitions := ofList MapDefinition.order data.maps}

theorem listed_ascending : Ascending MapDefinition.order (listed data).definitions :=
  insertAll_ascending .nil data.maps

theorem listed_origin (member : d ∈ (listed data).definitions) : d ∈ data.maps :=
  (mem_of_insertAll member).resolve_right List.not_mem_nil

theorem listed_parent (above : (listed data).terrainParent? map = some parent) :
    map ∈ data.maps.map MapDefinition.id := by
  obtain ⟨d,found,_⟩ := terrainParent?_iff.mp above
  exact List.mem_map.mpr ⟨d,listed_origin (definition?_mem found),definition?_id found⟩

section
variable (distinct : (data.maps.map MapDefinition.id).Nodup)

include distinct

theorem mem_listed : d ∈ (listed data).definitions ↔ d ∈ data.maps := by
  have apart : (data.maps.map MapDefinition.order).Nodup := by
    have := distinct.map fun _ _ => MapId.order_inj.mp
    rwa [List.map_map] at this
  have together : (listed data).definitions.Perm (data.maps ++ []) :=
    insertAll_perm .nil apart fun _ member => (nomatch member)
  rw [together.mem_iff,List.append_nil]

theorem listed_definition?_iff : (listed data).definition? map = some d ↔ d ∈ data.maps ∧ d.id = map := by
  rw [definition?_iff listed_ascending,mem_listed distinct]

theorem listed_defined : ((listed data).definition? map).isSome ↔ map ∈ data.maps.map MapDefinition.id := by
  simp only [Option.isSome_iff_exists,listed_definition?_iff distinct,List.mem_map]

theorem under_eq : Under data.maps = fun lower upper => (listed data).terrainParent? lower = some upper := by
  funext lower upper
  simp only [under_iff,terrainParent?_iff,listed_definition?_iff distinct,and_assoc]

theorem undefinedParent?_iff : (listed data).undefinedParent? d = some parent ↔
    d.terrainParent = some parent ∧ parent ∉ data.maps.map MapDefinition.id := by
  unfold undefinedParent?
  rw [←listed_defined distinct]
  cases d.terrainParent with
  | none => simp
  | some above =>
    simp only [Option.ite_none_left_eq_some,Option.some.injEq]
    constructor
    · rintro ⟨missing,rfl⟩
      exact ⟨rfl,missing⟩
    · rintro ⟨rfl,missing⟩
      exact ⟨missing,rfl⟩

theorem dangling_iff (member : d ∈ data.maps) :
    Dangling data.maps d.id ↔ ((listed data).undefinedParent? d).isSome := by
  rw [Option.isSome_iff_exists]
  refine exists_congr fun parent => ?_
  rw [undefinedParent?_iff distinct,under_iff]
  refine and_congr_left fun _ => ⟨?_,fun above => ⟨d,member,rfl,above⟩⟩
  rintro ⟨other,among,same,above⟩
  rwa [List.inj_on_of_nodup_map distinct among member same] at above

-- The bounded climb and the search that remembers agree on a list without dangling
-- parents.
theorem loops_iff_search (attached : ∀ map, ¬ Dangling data.maps map)
    (member : map ∈ data.maps.map MapDefinition.id) {n : Nat} {s : Search}
    (rested : Rested (listed data).terrainParent? none map n s) :
    (listed data).loops map = true ↔ s.current.isSome = true := by
  have within (k : Nat) (above : MapId) (reached : climb (listed data).terrainParent? k map = some above) :
      above ∈ (listed data).definitions.map MapDefinition.id := by
    suffices named : above ∈ data.maps.map MapDefinition.id by
      simp only [List.mem_map,mem_listed distinct] at named ⊢
      exact named
    cases k with
    | zero =>
      cases reached
      exact member
    | succ k =>
      rw [climb_last] at reached
      obtain ⟨below,_,up⟩ := Option.bind_eq_some_iff.mp reached
      have under : Under data.maps below above := by
        rw [under_eq distinct]
        exact up
      by_contra missing
      exact attached below ⟨above,under,missing⟩
  have agreed := rested.climb_iff within
  rwa [List.length_map] at agreed

theorem loops_iff (attached : ∀ map, ¬ Dangling data.maps map)
    (member : map ∈ data.maps.map MapDefinition.id) :
    (listed data).loops map = true ↔ RunsIntoCycle (Under data.maps) map := by
  obtain ⟨n,s,rested⟩ := search_rests (fun _ _ => listed_parent) none map
  rw [loops_iff_search distinct attached member rested,rested.cyclic_iff,under_eq distinct]

end

theorem cyclic_listed (cyclic : RunsIntoCycle (Under maps) map) : map ∈ maps.map MapDefinition.id := by
  have listed {child parent : MapId} (under : Under maps child parent) :
      child ∈ maps.map MapDefinition.id := by
    obtain ⟨d,member,named,_⟩ := under
    exact List.mem_map.mpr ⟨d,member,named⟩
  obtain ⟨top,leads,back⟩ := cyclic
  rcases leads.cases_head with rfl | ⟨_,first,_⟩
  · obtain ⟨_,first,_⟩ := Relation.TransGen.head'_iff.mp back
    exact listed first
  · exact listed first

theorem first_lowest {chosen : MapId → Prop} {front back : List MapDefinition}
    (ascending : Ascending MapDefinition.order (front ++ d :: back)) (here : chosen d.id)
    (skipped : ∀ earlier ∈ front, ¬ chosen earlier.id)
    (among : ∀ map, chosen map → ∃ d' ∈ front ++ d :: back, d'.id = map) : Lowest chosen d.id := by
  refine ⟨here,fun other holds => ?_⟩
  obtain ⟨d',member,rfl⟩ := among other holds
  rcases List.mem_append.mp member with earlier | rest
  · exact absurd holds (skipped d' earlier)
  rcases List.mem_cons.mp rest with rfl | later
  · exact Nat.le_refl _
  · have below := (List.pairwise_append.mp ascending).2.1
    exact Nat.le_of_lt ((List.pairwise_cons.mp below).1 d' later)

inductive Built (data : CatalogData) : Except CatalogError Catalog → Prop where
  | refused {fault} : Refused data.maps fault → Built data (.error fault)
  | stocked {full : Catalog} : Faultless data.maps → full.definitions = (listed data).definitions →
      Built data (.ok full)

theorem refused_dangling (distinct : (data.maps.map MapDefinition.id).Nodup)
    (found : (listed data).definitions.findSome?
      (fun d => ((listed data).undefinedParent? d).map (fun p => (d.id,p))) = some (map,parent)) :
    Refused data.maps (.unknownParent map parent) := by
  obtain ⟨front,d,back,split,here,skipped⟩ := List.findSome?_eq_some_iff.mp found
  have member : d ∈ (listed data).definitions := by simp [split]
  obtain ⟨_,unknown,same⟩ := Option.map_eq_some_iff.mp here
  cases same
  obtain ⟨above,_⟩ := (undefinedParent?_iff distinct).mp unknown
  refine .dangling distinct (first_lowest (split ▸ listed_ascending) ?_ ?_ ?_)
    (under_iff.mpr ⟨d,listed_origin member,rfl,above⟩)
  · rw [dangling_iff distinct (listed_origin member),unknown]
    rfl
  · intro earlier before
    have known : earlier ∈ (listed data).definitions := by simp [split,before]
    rw [dangling_iff distinct (listed_origin known),Option.map_eq_none_iff.mp (skipped earlier before)]
    exact Bool.false_ne_true
  · rintro other ⟨_,⟨d',among,named,_⟩,_⟩
    rw [←split]
    exact ⟨d',(mem_listed distinct).mpr among,named⟩

theorem refused_cyclic (distinct : (data.maps.map MapDefinition.id).Nodup)
    (attached : ∀ map, ¬ Dangling data.maps map)
    (found : (listed data).definitions.find? (fun d => (listed data).loops d.id) = some d) :
    Refused data.maps (.parentCycle d.id) := by
  obtain ⟨here,front,back,split,skipped⟩ := List.find?_eq_some_iff_append.mp found
  have loops (d : MapDefinition) (member : d ∈ (listed data).definitions) :
      (listed data).loops d.id = true ↔ RunsIntoCycle (Under data.maps) d.id :=
    loops_iff distinct attached (List.mem_map_of_mem (listed_origin member))
  refine .cyclic distinct attached (first_lowest (split ▸ listed_ascending) ?_ ?_ ?_)
  · exact (loops d (by simp [split])).mp here
  · intro earlier before
    rw [←loops earlier (by simp [split,before])]
    simpa using skipped earlier before
  · intro other cyclic
    obtain ⟨d',among,named⟩ := List.mem_map.mp (cyclic_listed cyclic)
    rw [←split]
    exact ⟨d',(mem_listed distinct).mpr among,named⟩

theorem build_built (data : CatalogData) : Built data (build data) := by
  unfold build
  split
  · rename_i map repeated
    exact .refused (.repeated (firstRepeat?_some .nil repeated))
  rename_i unrepeated
  have distinct : (data.maps.map MapDefinition.id).Nodup := firstRepeat?_none .nil unrepeated
  dsimp only
  split
  · rename_i found
    exact .refused (refused_dangling distinct found)
  rename_i unfound
  have attached (map : MapId) : ¬ Dangling data.maps map := by
    intro dangling
    obtain ⟨_,⟨d,member,named,_⟩,_⟩ := id dangling
    rw [←named,dangling_iff distinct member] at dangling
    have missed := List.findSome?_eq_none_iff.mp unfound d ((mem_listed distinct).mpr member)
    change ((listed data).undefinedParent? d).map _ = none at missed
    rw [Option.map_eq_none_iff.mp missed] at dangling
    cases dangling
  split
  · rename_i found
    exact .refused (refused_cyclic distinct attached found)
  rename_i straight
  refine .stocked ⟨distinct,attached,fun map cyclic => ?_⟩ ?_
  · obtain ⟨d,member,rfl⟩ := List.mem_map.mp (cyclic_listed cyclic)
    rw [←loops_iff distinct attached (List.mem_map_of_mem member)] at cyclic
    exact List.find?_eq_none.mp straight d ((mem_listed distinct).mpr member) cyclic
  · rw [foldl_definitions addRequirement fun _ _ => rfl,
      foldl_definitions addDifficulties fun _ _ => rfl,
      foldl_definitions addTemplate fun _ _ => rfl]
    rfl

theorem build_refused (failed : build data = .error error) : Refused data.maps error := by
  have outcome := build_built data
  rw [failed] at outcome
  cases outcome with
  | refused refused => exact refused

theorem build_faultless (built : build data = .ok c) :
    Faultless data.maps ∧ c.definitions = (listed data).definitions := by
  have outcome := build_built data
  rw [built] at outcome
  cases outcome with
  | stocked faultless same => exact ⟨faultless,same⟩

theorem build_error_iff : build data = .error error ↔ Refused data.maps error := by
  refine ⟨build_refused,fun refused => ?_⟩
  cases result : build data with
  | error wrong => rw [refused.unique (build_refused result)]
  | ok c => exact absurd (build_faultless result).1 refused.faulty

theorem build_ok_iff : (∃ c, build data = .ok c) ↔ Faultless data.maps := by
  constructor
  · rintro ⟨c,built⟩
    exact (build_faultless built).1
  · intro faultless
    cases result : build data with
    | error wrong => exact absurd faultless (build_refused result).faulty
    | ok c => exact ⟨c,rfl⟩

theorem build_holds (built : build data = .ok c) : c.Holds data.maps := by
  have forest := build_forest built
  obtain ⟨faultless,same⟩ := build_faultless built
  have defined (map : MapId) (d : MapDefinition) : c.definition? map = some d ↔ d ∈ data.maps ∧ d.id = map := by
    rw [definition?_congr same]
    exact listed_definition?_iff faultless.distinct
  have upward : Under c.definitions = fun lower upper => c.terrainParent? lower = some upper := by
    funext lower upper
    simp only [under_iff,terrainParent?_iff,forest.definition?_iff,and_assoc]
  refine ⟨defined,fun map back => ?_,fun parent child => ?_,forest.childrenOf_ascending⟩
  · rw [upward] at back
    obtain ⟨n,returned⟩ := returns_iff_climb.mp back
    exact forest.no_return returned
  · rw [forest.mem_childrenOf,terrainParent?_iff,under_iff]
    simp only [defined,and_assoc]

-- Whatever is listed beside the definitions. The last part is on the check for cycles:
-- each of its searches is soon over, and the climb that stands for it has its answer.
theorem build_settled (data : CatalogData) :
    (∀ error, build data = .error error ↔ Refused data.maps error) ∧
    ((∃ c, build data = .ok c) ↔ Faultless data.maps) ∧
    (∀ c, build data = .ok c → c.Holds data.maps) ∧
    ∀ map, ∃ n ≤ data.maps.length + 1, ∃ s, Rested (listed data).terrainParent? none map n s ∧
      (∀ m other, Searched (listed data).terrainParent? none map m other → m ≤ n) ∧
      ((data.maps.map MapDefinition.id).Nodup → (∀ map, ¬ Dangling data.maps map) →
        map ∈ data.maps.map MapDefinition.id → ((listed data).loops map = true ↔ s.current.isSome = true)) := by
  refine ⟨fun _ => build_error_iff,build_ok_iff,fun _ => build_holds,fun map => ?_⟩
  obtain ⟨n,short,s,rested,longest⟩ := search_ends (fun _ _ => listed_parent) none map
  rw [List.length_map] at short
  exact ⟨n,short,s,rested,longest,fun distinct attached member =>
    loops_iff_search distinct attached member rested⟩

-- The lowest map is on no cycle, but its way up runs into one.
example : build {maps := [
    {id := ⟨3⟩, kind := .common, parent := some ⟨2⟩},
    {id := ⟨2⟩, kind := .common, cosmeticParent := some ⟨3⟩},
    {id := ⟨1⟩, kind := .common, parent := some ⟨3⟩, cosmeticParent := some ⟨9⟩}]} =
    .error (.parentCycle ⟨1⟩) := rfl

end LiveMaps.Catalog
