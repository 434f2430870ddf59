import LiveMaps.Proofs.Admission.Grounds

namespace LiveMaps

def ParticipantState.rebound (p : ParticipantState) (binds : List InstanceBind) : ParticipantState :=
  {p with binds := binds}

def Decision.onBinds : List Decision := [.allowed,.denied .instanceBindMismatch,.denied .tooManyInstances]

namespace ParticipantState
variable {p : ParticipantState} {binds : List InstanceBind} {map : MapId} {b : InstanceBind}

theorem bind?_head : p.bind? map = (p.binds.filter fun b => b.map == map).head? := List.head?_filter.symm

theorem bind?_alone (reordered : binds.Perm p.binds)
    (alone : (p.binds.filter fun b => b.map == map).length ≤ 1) : (p.rebound binds).bind? map = p.bind? map := by
  have together := reordered.filter fun b => b.map == map
  rw [bind?_head,bind?_head]
  change (binds.filter fun b => b.map == map).head? = _
  cases own : p.binds.filter fun b => b.map == map with
  | nil =>
    rw [own] at together
    rw [together.eq_nil]
  | cons only rest =>
    have none : rest = [] := by
      rw [own,List.length_cons] at alone
      exact List.eq_nil_of_length_eq_zero (by omega)
    rw [own,none] at together
    rw [List.perm_singleton.mp together]
    rfl

theorem bind?_parts (found : p.bind? map = some b) : b ∈ p.binds ∧ b.map = map :=
  ⟨List.mem_of_find?_eq_some found,by simpa using List.find?_some found⟩

end ParticipantState

-- A bind is the last thing that a copy looks at.
theorem LiveMap.denial?_unbound (m : LiveMap) (r : EntryRequest) :
    (∃ reason, m.denial? {r with permanentBind := none} = some reason ∧ m.denial? r = some reason) ∨
      m.denial? {r with permanentBind := none} = none ∧
        (m.denial? r = none ∨ m.denial? r = some .instanceBindMismatch) := by
  unfold denial?
  split
  · exact .inr ⟨rfl,.inl rfl⟩
  split
  · exact .inl ⟨_,rfl,rfl⟩
  split
  · exact .inl ⟨_,rfl,rfl⟩
  refine .inr ⟨rfl,?_⟩
  split
  · split
    · exact .inr rfl
    · exact .inl rfl
  · exact .inl rfl

namespace Attempt
variable {a : Attempt} {binds : List InstanceBind} {reason : Denial}

def unboundDenial? (a : Attempt) : Option Denial :=
  if a.login then none else a.boundCopy?.bind fun copy => copy.denial? {a.entryRequest with permanentBind := none}

def rebound (a : Attempt) (binds : List InstanceBind) : Attempt :=
  {a with participant := a.participant.rebound binds}

theorem general_rebound {rule : Rule} (general : rule ∈ Rule.general) (binds : List InstanceBind) :
    rule.verdict a = rule.verdict (a.rebound binds) := by
  cases rule with
  | boundInstance => simp [Rule.general] at general
  | instanceCap => simp [Rule.general] at general
  | _ => rfl

theorem unboundDenial?_rebound : (a.rebound binds).unboundDenial? = a.unboundDenial? := rfl

theorem boundInstance_cases (a : Attempt) :
    (∃ reason, a.unboundDenial? = some reason ∧ Rule.verdict a .boundInstance = .deny reason) ∨
      a.unboundDenial? = none ∧ (Rule.verdict a .boundInstance = .pass ∨
        Rule.verdict a .boundInstance = .deny .instanceBindMismatch) := by
  rw [boundInstance_eq,unboundDenial?]
  cases a.login with
  | true => exact .inr ⟨rfl,.inl rfl⟩
  | false =>
    cases a.boundCopy? with
    | none => exact .inr ⟨rfl,.inl rfl⟩
    | some copy =>
      simp only [Bool.false_eq_true,if_false,Option.bind_some]
      rcases copy.denial?_unbound a.entryRequest with ⟨reason,early,denied⟩ | ⟨spared,free | other⟩
      · exact .inl ⟨reason,early,by rw [denied]; rfl⟩
      · exact .inr ⟨spared,.inl (by rw [free]; rfl)⟩
      · exact .inr ⟨spared,.inr (by rw [other]; rfl)⟩

theorem judge_unbound_some (early : a.unboundDenial? = some reason) :
    (a.judge [.boundInstance,.instanceCap]).1 = .denied reason := by
  rcases boundInstance_cases a with ⟨other,spoken,denied⟩ | ⟨silent,_⟩
  · rw [early] at spoken
    cases spoken
    exact judge_denied denied
  · rw [early] at silent
    cases silent

theorem judge_unbound_none (silent : a.unboundDenial? = none) :
    (a.judge [.boundInstance,.instanceCap]).1 ∈ Decision.onBinds := by
  rcases boundInstance_cases a with ⟨reason,early,_⟩ | ⟨_,passed | other⟩
  · rw [silent] at early
    cases early
  · rw [judge_passed passed]
    rcases judge_instanceCap a with allowed | capped
    · rw [allowed]
      decide
    · rw [capped]
      decide
  · rw [judge_denied other]
    decide

-- Other binds change a decision to one of three, and only from one of them.
theorem judge_rebound (a : Attempt) (binds : List InstanceBind) :
    ((a.rebound binds).judge Rule.all).1 = (a.judge Rule.all).1 ∨
      ((a.rebound binds).judge Rule.all).1 ∈ Decision.onBinds ∧ (a.judge Rule.all).1 ∈ Decision.onBinds := by
  rw [Rule.all_eq]
  rcases judge_shared (fun _ general => general_rebound general binds) [.boundInstance,.instanceCap] with
    same | ⟨own,other⟩
  · exact .inl same.symm
  · rw [own,other]
    cases early : a.unboundDenial? with
    | some reason =>
      rw [judge_unbound_some early,judge_unbound_some (unboundDenial?_rebound.trans early)]
      exact .inl rfl
    | none => exact .inr ⟨judge_unbound_none (unboundDenial?_rebound.trans early),judge_unbound_none early⟩

-- Of all binds a decision and what is told of it depend on the first one to the map.
theorem judge_first (first : (a.participant.rebound binds).bind? a.map = a.participant.bind? a.map)
    (rules : List Rule) : (a.rebound binds).judge rules = a.judge rules := by
  have found : (a.rebound binds).participant.bind? (a.rebound binds).map = a.participant.bind? a.map := first
  have bound : (a.rebound binds).permanentBind? = a.permanentBind? := by
    unfold permanentBind?
    rw [found]
    rfl
  have requested : (a.rebound binds).entryRequest = a.entryRequest := by
    unfold entryRequest
    rw [bound]
    rfl
  have counted : (a.rebound binds).alreadyCounted = a.alreadyCounted := by
    unfold alreadyCounted
    rw [found]
    rfl
  have verdicts (rule : Rule) : rule.verdict (a.rebound binds) = rule.verdict a := by
    cases rule with
    | boundInstance =>
      rw [boundInstance_eq,boundInstance_eq,requested]
      rfl
    | instanceCap =>
      simp only [Rule.verdict,counted]
      rfl
    | _ => rfl
  induction rules with
  | nil => rfl
  | cons rule rest ih =>
    have told : rule.remarks (a.rebound binds) = rule.remarks a := by cases rule <;> rfl
    simp only [judge,verdicts,told,ih]
    rfl

end Attempt

namespace World
variable {w : World} {d : MapDefinition} {map : MapId} {p : ParticipantState} {login : Bool}
  {effective : Difficulty} {copy : LiveMap} {b : InstanceBind}

theorem evaluate_first (binds : List InstanceBind) (first : (p.rebound binds).bind? map = p.bind? map) :
    w.evaluate map (p.rebound binds) login = w.evaluate map p login := by
  cases found : w.catalog.definition? map with
  | none => rw [evaluate_undefined found,evaluate_undefined found]
  | some d =>
    rw [evaluate_defined found,evaluate_defined found]
    have named : (w.attempt d p login).map = map := Catalog.definition?_id found
    rw [←named] at first
    exact Attempt.judge_first first Rule.all

theorem evaluate_onBinds (binds : List InstanceBind) :
    (w.evaluate map (p.rebound binds) login).1 = (w.evaluate map p login).1 ∨
      (w.evaluate map (p.rebound binds) login).1 ∈ Decision.onBinds ∧
        (w.evaluate map p login).1 ∈ Decision.onBinds := by
  cases found : w.catalog.definition? map with
  | none => exact .inl (by rw [evaluate_undefined found,evaluate_undefined found])
  | some d =>
    rw [evaluate_defined found,evaluate_defined found]
    exact Attempt.judge_rebound (w.attempt d p login) binds

section
variable (sound : w.Sound) (found : w.catalog.definition? map = some d)
  (dungeon : d.kind.isDungeon = true) (asked : BoundTo w d p login effective copy)

include sound found dungeon asked

theorem first_seen (mortal : p.gameMaster = false) (first : p.bind? map = some b) (lasting : b.permanent = true)
    (level : b.difficulty = effective) (apart : b.instanceId ≠ copy.instanceId) :
    ∃ reason, Rule.verdict (w.attempt d p login) .boundInstance = .deny reason := by
  obtain ⟨rfl,enters,held⟩ := (boundTo_iff sound found dungeon).mp asked
  have bound : (w.attempt d p false).permanentBind? = some b.instanceId :=
    (permanentBind?_iff found enters).mpr ⟨b,first,lasting,level,rfl⟩
  have denied : ∃ reason, copy.denial? (w.attempt d p false).entryRequest = some reason := by
    rw [denial?_eq found sound asked.2.2.2 mortal,bound]
    split
    · exact ⟨_,rfl⟩
    split
    · exact ⟨_,rfl⟩
    exact ⟨_,if_pos (by simpa using apart)⟩
  obtain ⟨reason,denied⟩ := denied
  refine ⟨reason,?_⟩
  rw [boundInstance_verdict,held,Option.bind_some,denied]
  rfl

theorem later_unseen (distinct : (p.binds.map fun b => (b.map,b.difficulty)).Nodup)
    (member : b ∈ p.binds) (named : b.map = map) (level : b.difficulty = effective)
    (later : p.bind? map ≠ some b) :
    Rule.verdict (w.attempt d p login) .boundInstance =
      Rule.verdict (w.attempt d (p.rebound []) login) .boundInstance := by
  obtain ⟨_,enters,_⟩ := (boundTo_iff sound found dungeon).mp asked
  have unbound : (w.attempt d p login).permanentBind? = none := by
    cases bound : (w.attempt d p login).permanentBind? with
    | none => rfl
    | some id =>
      obtain ⟨one,first,_,same,_⟩ := (permanentBind?_iff found enters).mp bound
      obtain ⟨among,also⟩ := ParticipantState.bind?_parts first
      have equal : one = b := List.inj_on_of_nodup_map distinct among member
        (Prod.ext (also.trans named.symm) (same.trans level.symm))
      exact absurd (equal ▸ first) later
  have told : (w.attempt d p login).entryRequest = (w.attempt d (p.rebound []) login).entryRequest := by
    unfold Attempt.entryRequest
    rw [unbound]
    rfl
  rw [boundInstance_verdict,boundInstance_verdict,told]
  rfl

end

-- A permanent bind that the rule on bound copies should find is out of its sight behind a bind to the same
-- map at another difficulty.
theorem evaluate_reordered {data : CatalogData} {c : Catalog} (built : Catalog.build data = .ok c)
    (config : WorldConfig) (tiles : Terrain.TileSource) (saved : SavedState)
    (path : Reached (fun _ _ => True) (start c config tiles saved) w) (map : MapId) (p : ParticipantState)
    (login : Bool) (binds : List InstanceBind)
    (distinct : (p.binds.map fun b => (b.map,b.difficulty)).Nodup) (reordered : binds.Perm p.binds) :
    ((p.rebound binds).bind? map = p.bind? map →
      w.evaluate map (p.rebound binds) login = w.evaluate map p login) ∧
    ((p.binds.filter fun b => b.map == map).length ≤ 1 →
      w.evaluate map (p.rebound binds) login = w.evaluate map p login) ∧
    ((w.evaluate map (p.rebound binds) login).1 = (w.evaluate map p login).1 ∨
      (w.evaluate map (p.rebound binds) login).1 ∈ Decision.onBinds ∧
        (w.evaluate map p login).1 ∈ Decision.onBinds) ∧
    ∀ d effective copy, w.catalog.definition? map = some d → d.kind.isDungeon = true →
      BoundTo w d p login effective copy → p.gameMaster = false →
      ∀ b ∈ p.binds, b.map = map → b.difficulty = effective → b.permanent = true →
        b.instanceId ≠ copy.instanceId →
        (p.bind? map = some b → ∃ reason, Rule.verdict (w.attempt d p login) .boundInstance = .deny reason) ∧
        (p.bind? map ≠ some b → Rule.verdict (w.attempt d p login) .boundInstance =
          Rule.verdict (w.attempt d (p.rebound []) login) .boundInstance) := by
  have sound := Reached.sound (start_sound (Catalog.build_forest built) config tiles saved) path
  refine ⟨evaluate_first binds,fun alone => ?_,evaluate_onBinds binds,?_⟩
  · exact evaluate_first binds (ParticipantState.bind?_alone reordered alone)
  · intro d effective copy found dungeon asked mortal b member named level lasting apart
    exact ⟨fun first => first_seen sound found dungeon asked mortal first lasting level apart,
      fun later => later_unseen sound found dungeon asked distinct member named level later⟩

-- A participant whose group has a copy of a dungeon, and who is saved to another one.
def savedElsewhere (binds : List InstanceBind) : ParticipantState :=
  { id := .ofNat 2
    dungeonDifficulty := .heroic
    group := some {binds := [⟨⟨36⟩,⟨1⟩,.heroic,false⟩]}
    binds := binds }

def dungeonData : CatalogData :=
  { maps := [{id := ⟨36⟩, kind := .dungeon}]
    templates := [{map := ⟨36⟩, maxPlayers := 5}]
    difficulties := [⟨⟨36⟩,[.normal,.heroic]⟩] }

-- A bind to another map may come first; the one to this map is seen all the same.
theorem evaluate_reordered_front :
    let lasting : InstanceBind := ⟨⟨36⟩,⟨9⟩,.heroic,true⟩
    let weekly : InstanceBind := ⟨⟨36⟩,⟨7⟩,.normal,false⟩
    let abroad : InstanceBind := ⟨⟨33⟩,⟨4⟩,.normal,false⟩
    let p := savedElsewhere [lasting,weekly,abroad]
    ∃ c w, Catalog.build dungeonData = .ok c ∧ Reached (fun _ _ => True) (start c {} .none .empty) w ∧
      (p.binds.map fun b => (b.map,b.difficulty)).Nodup ∧ [abroad,lasting,weekly].Perm p.binds ∧
      (w.evaluate ⟨36⟩ p false).1 = .denied .instanceBindMismatch ∧
      w.evaluate ⟨36⟩ (p.rebound [abroad,lasting,weekly]) false = w.evaluate ⟨36⟩ p false := by
  intro lasting weekly abroad p
  obtain ⟨c,built⟩ : ∃ c, Catalog.build dungeonData = .ok c := ⟨_,rfl⟩
  have started : Reached (fun _ _ => True) (start c {} .none .empty) _ := .start
  have path := started.step (.createMap ⟨36⟩ {participant := .ofNat 1, difficulty := .heroic}) trivial
  have distinct : (p.binds.map fun b => (b.map,b.difficulty)).Nodup := by decide
  have reordered : [abroad,lasting,weekly].Perm p.binds := by decide
  refine ⟨c,_,built,path,distinct,reordered,?_,?_⟩
  · cases built
    decide
  · exact (evaluate_reordered built {} .none .empty path ⟨36⟩ p false _ distinct reordered).1 rfl

-- Behind a bind at another difficulty it is not seen, and the participant is let in.
theorem evaluate_bind_hidden :
    let lasting : InstanceBind := ⟨⟨36⟩,⟨9⟩,.heroic,true⟩
    let weekly : InstanceBind := ⟨⟨36⟩,⟨7⟩,.normal,false⟩
    let p := savedElsewhere [lasting,weekly]
    ∃ c w, Catalog.build dungeonData = .ok c ∧ Reached (fun _ _ => True) (start c {} .none .empty) w ∧
      (p.binds.map fun b => (b.map,b.difficulty)).Nodup ∧ [weekly,lasting].Perm p.binds ∧
      (w.evaluate ⟨36⟩ p false).1 = .denied .instanceBindMismatch ∧
      (w.evaluate ⟨36⟩ (p.rebound [weekly,lasting]) false).1 = .allowed := by
  intro lasting weekly p
  obtain ⟨c,built⟩ : ∃ c, Catalog.build dungeonData = .ok c := ⟨_,rfl⟩
  have started : Reached (fun _ _ => True) (start c {} .none .empty) _ := .start
  have path := started.step (.createMap ⟨36⟩ {participant := .ofNat 1, difficulty := .heroic}) trivial
  refine ⟨c,_,built,path,by decide,by decide,?_,?_⟩
  · cases built
    decide
  · cases built
    decide

end World
end LiveMaps
