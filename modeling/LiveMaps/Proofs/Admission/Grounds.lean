import LiveMaps.Proofs.Admission.Judging
import LiveMaps.Proofs.Catalog.Walks
import LiveMaps.Proofs.World.Runs

namespace LiveMaps

inductive Ground where
  | undefinedMap
  | openMap
  | noTemplate
  | noOffer
  | gameMaster
  | unmetRequirement
  | outsideRaid
  | distantCorpse
  | fullCopy
  | runningEncounter
  | otherBind
  | hourlyCap
  deriving DecidableEq, Repr

namespace Decision

def settling : Decision → Verdict
  | .allowed => .allow
  | .denied reason => .deny reason

end Decision

namespace Ground

-- In the order in which they count.
def all : List Ground :=
  [.undefinedMap,.openMap,.noTemplate,.noOffer,.gameMaster,.unmetRequirement,.outsideRaid,
    .distantCorpse,.fullCopy,.runningEncounter,.otherBind,.hourlyCap]

def decision : Ground → Decision
  | .undefinedMap => .denied .noEntry
  | .openMap => .allowed
  | .noTemplate => .denied .uninstancedDungeon
  | .noOffer => .denied .difficultyUnavailable
  | .gameMaster => .allowed
  | .unmetRequirement => .denied .unspecifiedReason
  | .outsideRaid => .denied .notInRaid
  | .distantCorpse => .denied .corpseInDifferentInstance
  | .fullCopy => .denied .maxPlayers
  | .runningEncounter => .denied .zoneInCombat
  | .otherBind => .denied .instanceBindMismatch
  | .hourlyCap => .denied .tooManyInstances

end Ground

-- The first ground that applies decides; where none does, entry is allowed.
inductive Decided (applies : Ground → Prop) : List Ground → Decision → Prop where
  | none : Decided applies [] .allowed
  | first {ground later} : applies ground → Decided applies (ground :: later) ground.decision
  | later {ground later decision} : ¬ applies ground → Decided applies later decision →
      Decided applies (ground :: later) decision

theorem Decided.unique {applies : Ground → Prop} {grounds : List Ground} {one two : Decision}
    (first : Decided applies grounds one) (second : Decided applies grounds two) : one = two := by
  induction first with
  | none =>
    cases second
    rfl
  | first holds =>
    cases second with
    | first _ => rfl
    | later fails _ => exact absurd holds fails
  | later fails _ ih =>
    cases second with
    | first holds => exact absurd holds fails
    | later _ rest => exact ih rest

namespace World
open Ordered Ancestry Catalog
variable {w : World} {d : MapDefinition} {map : MapId} {p : ParticipantState} {login : Bool}
  {effective : Difficulty} {copy : LiveMap} {b : BaseMap}

def EntersAt (w : World) (d : MapDefinition) (p : ParticipantState) (effective : Difficulty) : Prop :=
  ∃ offered, w.catalog.offered? d.id = some offered ∧
    Downscaled offered (p.difficultyFor d) effective

def Unmet (p : ParticipantState) (r : AccessRequirement) : Prop :=
  p.level < r.minLevel ∨ (∃ item, r.requiredItem = some item ∧ item ∉ p.items) ∨
    (∃ quest, r.requiredQuest = some quest ∧ quest ∉ p.completedQuests) ∨
    ∃ achievement, r.requiredAchievement = some achievement ∧ achievement ∉ p.achievements

-- The live copy of a map that the participant's group is bound to at the difficulty
-- of entry. At login it is not asked.
def BoundTo (w : World) (d : MapDefinition) (p : ParticipantState) (login : Bool)
    (effective : Difficulty) (copy : LiveMap) : Prop :=
  login = false ∧ EntersAt w d p effective ∧
    (∃ group, p.group = some group ∧ group.bound? d.id effective = some copy.instanceId) ∧
    ∃ b ∈ w.maps, b.map = d.id ∧ copy ∈ b.copies

def Applies (w : World) (map : MapId) (p : ParticipantState) (login : Bool) : Ground → Prop
  | .undefinedMap => w.catalog.definition? map = none
  | .openMap => ∃ d, w.catalog.definition? map = some d ∧ d.kind ∉ [.dungeon,.raid,.scenario]
  | .noTemplate => ∀ t ∈ w.catalog.templates, t.map ≠ map
  | .noOffer => ∀ offered, w.catalog.offered? map = some offered → offered = []
  | .gameMaster => p.gameMaster = true
  | .unmetRequirement => ∃ d effective r, w.catalog.definition? map = some d ∧ EntersAt w d p effective ∧
      w.catalog.Requires map effective r ∧ Unmet p r
  | .outsideRaid => ∃ d, w.catalog.definition? map = some d ∧ d.kind = .raid ∧
      w.config.admission.activeExpansion ≤ d.expansion ∧
      (∀ group, p.group = some group → group.kind ≠ .raid) ∧
      w.config.admission.ignoreRaidRequirement = false
  | .distantCorpse => p.alive = false ∧ ∃ corpse, p.corpse = some corpse ∧
      ¬ w.catalog.Inside corpse.map map
  | .fullCopy => ∃ d effective copy, w.catalog.definition? map = some d ∧
      BoundTo w d p login effective copy ∧ p.id ∉ copy.participants ∧
      ∃ limit, copy.maxPlayers = some limit ∧ limit.toNat ≤ copy.participants.length
  | .runningEncounter => ∃ d effective copy, w.catalog.definition? map = some d ∧
      BoundTo w d p login effective copy ∧ d.kind = .raid ∧ copy.encounter = true ∧ p.reconnecting = false
  | .otherBind => ∃ d effective copy, w.catalog.definition? map = some d ∧
      BoundTo w d p login effective copy ∧ ∃ bind, p.bind? map = some bind ∧ bind.permanent = true ∧
      bind.difficulty = effective ∧ bind.instanceId ≠ copy.instanceId
  | .hourlyCap => (∀ group, p.group = some group → group.dungeonFinder = false) ∧
      w.config.admission.maxInstancesPerHour.toNat ≤ p.recentInstances.length ∧
      (∀ bind, p.bind? map = some bind → bind.instanceId ∉ p.recentInstances) ∧ p.alive = true

theorem judge_settled (ground : Ground) {a : Attempt} {rule : Rule} {rules : List Rule}
    (settled : rule.verdict a = ground.decision.settling) : (a.judge (rule :: rules)).1 = ground.decision := by
  rw [Attempt.judge,settled]
  cases ground <;> rfl

theorem decided_rule (ground : Ground) {a : Attempt} {applies : Ground → Prop} {rule : Rule}
    {rules : List Rule} {later : List Ground}
    (settles : applies ground → rule.verdict a = ground.decision.settling)
    (passes : ¬ applies ground → rule.verdict a = .pass)
    (rest : ¬ applies ground → Decided applies later (a.judge rules).1) :
    Decided applies (ground :: later) (a.judge (rule :: rules)).1 := by
  by_cases holds : applies ground
  · rw [judge_settled ground (settles holds)]
    exact .first holds
  · rw [Attempt.judge_passed (passes holds)]
    exact .later holds (rest holds)

theorem denyIf_settles {refused : Bool} {reason : Denial} (holds : refused = true) :
    Verdict.denyIf refused reason = (Decision.denied reason).settling := if_pos holds

theorem denyIf_passes {refused : Bool} {reason : Denial} (fails : ¬ refused = true) :
    Verdict.denyIf refused reason = .pass := if_neg fails

theorem openMap_iff (found : w.catalog.definition? map = some d) :
    Applies w map p login .openMap ↔ d.kind.isDungeon = false := by
  simp only [Applies,found,Option.some.injEq,exists_eq_left']
  cases d.kind <;> decide

theorem noTemplate_iff : Applies w map p login .noTemplate ↔ (w.catalog.template? map).isNone = true := by
  simp [Applies,template?]

theorem unmet_iff {r : AccessRequirement} : Unmet p r ↔ p.meets r = false := by
  have wanted (owned : List UInt32) (want : Option UInt32) :
      (∃ item, want = some item ∧ item ∉ owned) ↔ ParticipantState.possesses owned want = false := by
    cases want <;> simp [ParticipantState.possesses]
  simp only [Unmet,wanted,ParticipantState.meets,Bool.and_eq_false_iff,decide_eq_false_iff_not,
    UInt8.not_le,or_assoc]

theorem unsatisfied_iff {required : Option AccessRequirement} : p.satisfies required = false ↔
    ∃ r, required = some r ∧ Unmet p r := by
  unfold ParticipantState.satisfies
  cases required <;> simp [unmet_iff]

theorem outsideRaid_iff (found : w.catalog.definition? map = some d) :
    Applies w map p login .outsideRaid ↔
      (d.kind.isRaid && decide (w.config.admission.activeExpansion ≤ d.expansion) && !p.inRaid &&
        !w.config.admission.ignoreRaidRequirement) = true := by
  have outside : (∀ group, p.group = some group → group.kind ≠ .raid) ↔ p.inRaid = false := by
    unfold ParticipantState.inRaid
    cases p.group <;> simp [GroupState.isRaid]
  simp only [Applies,found,Option.some.injEq,exists_eq_left',outside]
  simp [MapKind.isRaid,and_assoc]

theorem corpseChain_verdict : Rule.verdict (w.attempt d p login) .corpseChain =
    match p.alive,p.corpse with
    | false,some corpse =>
      .denyIf (!(w.attempt d p login).leadsTo corpse.map) .corpseInDifferentInstance
    | _,_ => .pass := rfl

theorem boundInstance_verdict (login : Bool) : Rule.verdict (w.attempt d p login) .boundInstance =
    if login then .pass else
    ((w.attempt d p login).boundCopy?.bind
      (fun copy => copy.denial? (w.attempt d p login).entryRequest)).elim .pass .deny :=
  Attempt.boundInstance_eq _

theorem leadsTo_iff {a : Attempt} {start : MapId} :
    a.leadsTo start = true ↔ a.catalog.Inside start a.map := by
  rw [Attempt.leadsTo,List.contains_iff_mem]
  exact mem_enclosing

theorem distant_iff {start : MapId} : (!(w.attempt d p login).leadsTo start) = true ↔
    ¬ w.catalog.Inside start d.id := by
  rw [Bool.not_eq_true',Bool.eq_false_iff,ne_eq,not_iff_not]
  exact leadsTo_iff

theorem hourlyCap_iff : Applies w map p login .hourlyCap ↔
    (!p.viaDungeonFinder && !decide (p.recentInstances.length < w.config.admission.maxInstancesPerHour.toNat) &&
      !(match p.bind? map with
        | none => false
        | some b => p.recentInstances.contains b.instanceId) && p.alive) = true := by
  have walking : (∀ group, p.group = some group → group.dungeonFinder = false) ↔
      p.viaDungeonFinder = false := by
    unfold ParticipantState.viaDungeonFinder
    cases p.group <;> simp
  have counted : (∀ bind, p.bind? map = some bind → bind.instanceId ∉ p.recentInstances) ↔
      (match p.bind? map with
        | none => false
        | some b => p.recentInstances.contains b.instanceId) = false := by
    cases p.bind? map <;> simp
  simp only [Applies,walking,counted]
  simp [and_assoc]

section
variable (sound : w.Sound) (found : w.catalog.definition? map = some d)
  (dungeon : d.kind.isDungeon = true)

include sound found dungeon

-- Found under an address of it are its copies.
theorem find?_copy {id : InstanceId} : w.find? d.id id = some copy ↔
    (∃ b ∈ w.maps, b.map = d.id ∧ copy ∈ b.copies) ∧ copy.instanceId = id := by
  have guarded : d.kind.instanceable = true := by
    revert dungeon
    cases d.kind <;> decide
  have tabled (b : BaseMap) (member : b ∈ w.maps) (named : b.map = d.id) : b.isInstanceable = true := by
    have base := sound.bases b (List.mem_append_left _ member)
    have defined := base.defined
    rw [named,definition?_id found,found] at defined
    rw [base.tabled,←Option.some.inj defined]
    exact guarded
  rw [find?_iff sound]
  constructor
  · rintro ⟨same,b,member,named,among | ⟨plain,_⟩⟩
    · exact ⟨⟨b,member,named,among⟩,same⟩
    · rw [tabled b member named] at plain
      cases plain
  · rintro ⟨⟨b,member,named,among⟩,same⟩
    exact ⟨same,b,member,named,.inl among⟩

theorem boundTo_iff : BoundTo w d p login effective copy ↔ login = false ∧
    (w.attempt d p login).effective? = some effective ∧ (w.attempt d p login).boundCopy? = some copy := by
  have asked : (w.attempt d p login).effective? = some effective ↔ EntersAt w d p effective :=
    downscale_iff
  unfold BoundTo
  rw [asked]
  refine and_congr_right fun _ => and_congr_right fun enters => ?_
  have level : (w.attempt d p login).effective = effective := Attempt.effective_of (asked.mpr enters)
  have copies : (w.attempt d p login).boundCopy? = some copy ↔ ∃ group, p.group = some group ∧
      ∃ id, group.bound? d.id effective = some id ∧ w.find? d.id id = some copy := by
    simp only [Attempt.boundCopy?,bind,Option.bind_eq_some_iff,level]
    rfl
  rw [copies]
  simp only [find?_copy sound found dungeon]
  constructor
  · rintro ⟨⟨group,grouped,bound⟩,standing⟩
    exact ⟨group,grouped,_,bound,standing,rfl⟩
  · rintro ⟨group,grouped,_,bound,standing,rfl⟩
    exact ⟨⟨group,grouped,bound⟩,standing⟩

end

section
variable (found : w.catalog.definition? map = some d)

include found

theorem copy_parts (sound : w.Sound) (standing : ∃ b ∈ w.maps, b.map = d.id ∧ copy ∈ b.copies) :
    copy.definition = d ∧ copy.instanceId ≠ .base := by
  obtain ⟨b,member,named,among⟩ := standing
  have base := sound.bases b (List.mem_append_left _ member)
  have defined := base.defined
  rw [named,definition?_id found,found] at defined
  obtain ⟨definition,apart⟩ := base.copies copy among
  exact ⟨definition.trans (Option.some.inj defined).symm,apart⟩

-- Only one copy is asked, at one difficulty.
theorem asked_iff (asked : ∀ level other, BoundTo w d p login level other ↔
    level = effective ∧ other = copy) (refuses : MapDefinition → Difficulty → LiveMap → Prop) :
    (∃ d level other, w.catalog.definition? map = some d ∧ BoundTo w d p login level other ∧
      refuses d level other) ↔ refuses d effective copy := by
  constructor
  · rintro ⟨_,level,other,defined,bound,refused⟩
    cases found.symm.trans defined
    obtain ⟨rfl,rfl⟩ := (asked level other).mp bound
    exact refused
  · intro refused
    exact ⟨d,effective,copy,found,(asked effective copy).mpr ⟨rfl,rfl⟩,refused⟩

theorem permanentBind?_iff (enters : (w.attempt d p login).effective? = some effective) {other : InstanceId} :
    (w.attempt d p login).permanentBind? = some other ↔ ∃ bind, p.bind? map = some bind ∧
      bind.permanent = true ∧ bind.difficulty = effective ∧ bind.instanceId = other := by
  unfold Attempt.permanentBind? Attempt.effective
  rw [enters,←definition?_id found]
  simp [attempt,Attempt.map,Option.filter_eq_some_iff,and_assoc]

theorem copyGrounds_iff (copy : LiveMap) (enters : (w.attempt d p login).effective? = some effective)
    (asked : ∀ level other, BoundTo w d p login level other ↔ level = effective ∧ other = copy) :
    (Applies w map p login .fullCopy ↔ (copy.isFull && !copy.holds p.id) = true) ∧
    (Applies w map p login .runningEncounter ↔
      (!p.reconnecting && d.kind.isRaid && copy.encounter) = true) ∧
    (Applies w map p login .otherBind ↔ ∃ other,
      (w.attempt d p login).permanentBind? = some other ∧ other ≠ copy.instanceId) := by
  refine ⟨(asked_iff found asked _).trans ?_,(asked_iff found asked _).trans ?_,
    (asked_iff found asked _).trans ?_⟩
  · unfold LiveMap.isFull
    cases copy.maxPlayers <;> simp [LiveMap.holds,and_comm]
  · simp [MapKind.isRaid,and_assoc,and_left_comm,and_comm]
  · simp only [permanentBind?_iff found enters]
    constructor
    · rintro ⟨bind,bound,lasting,level,apart⟩
      exact ⟨_,⟨bind,bound,lasting,level,rfl⟩,apart⟩
    · rintro ⟨_,⟨bind,bound,lasting,level,rfl⟩,apart⟩
      exact ⟨bind,bound,lasting,level,apart⟩

theorem not_copyGround (unasked : ∀ level other, ¬ BoundTo w d p login level other) :
    ¬ Applies w map p login .fullCopy ∧ ¬ Applies w map p login .runningEncounter ∧
      ¬ Applies w map p login .otherBind := by
  simp [Applies,found,unasked]

theorem denial?_eq (sound : w.Sound) (standing : ∃ b ∈ w.maps, b.map = d.id ∧ copy ∈ b.copies)
    (mortal : p.gameMaster = false) : copy.denial? (w.attempt d p login).entryRequest =
      if copy.isFull && !copy.holds p.id then some .maxPlayers
      else if !p.reconnecting && d.kind.isRaid && copy.encounter then some .zoneInCombat
      else match (w.attempt d p login).permanentBind? with
        | some other => if other != copy.instanceId then some .instanceBindMismatch else none
        | none => none := by
  obtain ⟨definition,apart⟩ := copy_parts found sound standing
  unfold LiveMap.denial?
  rw [if_neg (by simpa [Attempt.entryRequest,attempt,apart] using mortal),definition]
  rfl

theorem decided_held (sound : w.Sound) (dungeon : d.kind.isDungeon = true)
    (enters : (w.attempt d p false).effective? = some effective) (mortal : p.gameMaster = false)
    (held : (w.attempt d p false).boundCopy? = some copy) {rules : List Rule} {later : List Ground}
    (rest : Decided (Applies w map p false) later ((w.attempt d p false).judge rules).1) :
    Decided (Applies w map p false) (.fullCopy :: .runningEncounter :: .otherBind :: later)
      ((w.attempt d p false).judge (.boundInstance :: rules)).1 := by
  have bound (level : Difficulty) (other : LiveMap) : BoundTo w d p false level other ↔
      level = effective ∧ other = copy := by
    rw [boundTo_iff sound found dungeon,enters,held,Option.some.injEq,Option.some.injEq,
      eq_comm (a := effective),eq_comm (a := copy)]
    simp
  have verdict := boundInstance_verdict (w := w) (d := d) (p := p) false
  rw [if_neg Bool.false_ne_true,held,Option.bind_some,denial?_eq found sound
    ((bound effective copy).mpr ⟨rfl,rfl⟩).2.2.2 mortal] at verdict
  obtain ⟨full,running,other⟩ := copyGrounds_iff found copy enters bound
  by_cases isFull : (copy.isFull && !copy.holds p.id) = true
  · rw [if_pos isFull] at verdict
    rw [judge_settled .fullCopy verdict]
    exact .first (full.mpr isFull)
  rw [if_neg isFull] at verdict
  refine .later (isFull ∘ full.mp) ?_
  by_cases isRunning : (!p.reconnecting && d.kind.isRaid && copy.encounter) = true
  · rw [if_pos isRunning] at verdict
    rw [judge_settled .runningEncounter verdict]
    exact .first (running.mpr isRunning)
  rw [if_neg isRunning] at verdict
  refine .later (isRunning ∘ running.mp) (decided_rule .otherBind ?_ ?_ fun _ => rest)
  · intro applies
    obtain ⟨saved,bound,apart⟩ := other.mp applies
    rw [bound] at verdict
    rw [verdict]
    simp [apart,Ground.decision,Decision.settling]
  · intro fails
    rw [other] at fails
    rw [verdict]
    cases bound : (w.attempt d p false).permanentBind? with
    | none => rfl
    | some saved =>
      have same : saved = copy.instanceId := by
        by_contra apart
        exact fails ⟨saved,bound,apart⟩
      simp [same]

theorem decided_unheld (unasked : ∀ level copy, ¬ BoundTo w d p login level copy)
    (passed : Rule.verdict (w.attempt d p login) .boundInstance = .pass) {rules : List Rule} {later : List Ground}
    (rest : Decided (Applies w map p login) later ((w.attempt d p login).judge rules).1) :
    Decided (Applies w map p login) (.fullCopy :: .runningEncounter :: .otherBind :: later)
      ((w.attempt d p login).judge (.boundInstance :: rules)).1 := by
  obtain ⟨full,running,other⟩ := not_copyGround found unasked
  rw [Attempt.judge_passed passed]
  exact .later full (.later running (.later other rest))

theorem decided_copy (sound : w.Sound) (dungeon : d.kind.isDungeon = true)
    (enters : (w.attempt d p login).effective? = some effective)
    (mortal : p.gameMaster = false) {rules : List Rule} {later : List Ground}
    (rest : Decided (Applies w map p login) later ((w.attempt d p login).judge rules).1) :
    Decided (Applies w map p login) (.fullCopy :: .runningEncounter :: .otherBind :: later)
      ((w.attempt d p login).judge (.boundInstance :: rules)).1 := by
  have verdict := boundInstance_verdict (w := w) (d := d) (p := p) login
  cases login with
  | true =>
    refine decided_unheld found (fun level copy bound => ?_) verdict rest
    cases (boundTo_iff sound found dungeon).mp bound |>.1
  | false =>
    cases held : (w.attempt d p false).boundCopy? with
    | some copy => exact decided_held found sound dungeon enters mortal held rest
    | none =>
      refine decided_unheld found (fun level copy bound => ?_) ?_ rest
      · have asked := (boundTo_iff sound found dungeon).mp bound
        cases held.symm.trans asked.2.2
      · rw [verdict,held]
        rfl

theorem unmetRequirement_iff (enters : (w.attempt d p login).effective? = some effective) :
    Applies w map p login .unmetRequirement ↔
      (!p.satisfies (w.catalog.requirement? map (w.attempt d p login).effective)) = true := by
  have entered : (w.attempt d p login).effective = effective := Attempt.effective_of enters
  rw [entered,Bool.not_eq_true',unsatisfied_iff]
  constructor
  · rintro ⟨_,_,r,defined,level,required,unmet⟩
    cases found.symm.trans defined
    cases enters.symm.trans (downscale_iff.mpr level)
    exact ⟨r,requires_iff.mp required,unmet⟩
  · rintro ⟨r,required,unmet⟩
    exact ⟨d,effective,r,found,downscale_iff.mp enters,requires_iff.mpr required,unmet⟩

theorem decided_guarded (sound : w.Sound) (dungeon : d.kind.isDungeon = true) :
    Decided (Applies w map p login) (Ground.all.drop 2)
      ((w.attempt d p login).judge (Rule.all.drop 1)).1 := by
  have named : d.id = map := definition?_id found
  refine decided_rule .noTemplate ?_ ?_ fun _ => ?_
  · rw [noTemplate_iff,←named]
    exact denyIf_settles
  · rw [noTemplate_iff,←named]
    exact denyIf_passes
  have unoffered : Applies w map p login .noOffer ↔ (w.attempt d p login).effective?.isNone = true := by
    rw [Option.isNone_iff_eq_none,←named]
    exact downscale_none.symm
  refine decided_rule .noOffer (denyIf_settles ∘ unoffered.mp)
    (denyIf_passes ∘ mt unoffered.mpr) fun offers => ?_
  obtain ⟨effective,enters⟩ : ∃ effective, (w.attempt d p login).effective? = some effective := by
    rw [unoffered,Option.isNone_iff_eq_none] at offers
    exact Option.ne_none_iff_exists'.mp offers
  refine decided_rule .gameMaster (fun holds => if_pos holds)
    (fun fails => if_neg fails) fun mortal => ?_
  have unmet := unmetRequirement_iff found enters
  refine decided_rule .unmetRequirement (fun holds => ?_) (fun fails => ?_) fun _ => ?_
  · rw [unmet,←named] at holds
    exact denyIf_settles holds
  · rw [unmet,←named] at fails
    exact denyIf_passes fails
  refine decided_rule .outsideRaid (denyIf_settles ∘ (outsideRaid_iff found).mp)
    (denyIf_passes ∘ mt (outsideRaid_iff found).mpr) fun _ => ?_
  refine decided_rule .distantCorpse (fun holds => ?_) (fun fails => ?_) fun _ => ?_
  · obtain ⟨dead,corpse,lies,distant⟩ := holds
    rw [corpseChain_verdict,dead,lies]
    rw [←named,←distant_iff] at distant
    exact denyIf_settles distant
  · rw [corpseChain_verdict]
    split
    · rename_i corpse dead lies
      refine denyIf_passes fun distant => fails ⟨dead,corpse,lies,?_⟩
      rw [distant_iff,named] at distant
      exact distant
    · rfl
  refine decided_copy found sound dungeon enters (by simpa [Applies] using mortal) ?_
  refine decided_rule .hourlyCap ?_ ?_ fun _ => .none
  · rw [hourlyCap_iff,←named]
    exact denyIf_settles
  · rw [hourlyCap_iff,←named]
    exact denyIf_passes

end

-- Every attempt to enter a map in every world that calls lead to.
theorem evaluate_decided {data : CatalogData} {c : Catalog} (built : Catalog.build data = .ok c)
    (config : WorldConfig) (tiles : Terrain.TileSource) (saved : SavedState)
    (path : Reached (fun _ _ => True) (start c config tiles saved) w) (map : MapId)
    (p : ParticipantState) (login : Bool) (decision : Decision) :
    (w.evaluate map p login).1 = decision ↔ Decided (Applies w map p login) Ground.all decision := by
  have sound := Reached.sound (start_sound (Catalog.build_forest built) config tiles saved) path
  have decided : Decided (Applies w map p login) Ground.all (w.evaluate map p login).1 := by
    unfold evaluate
    cases found : w.catalog.definition? map with
    | none => exact .first found
    | some d =>
      refine .later (by simp [Applies,found]) ?_
      refine decided_rule .openMap (fun holds => ?_) (fun fails => ?_) fun guarded => ?_
      · rw [openMap_iff found] at holds
        exact if_neg (by simpa [attempt] using holds)
      · rw [openMap_iff found] at fails
        exact if_pos (by simpa [attempt] using fails)
      · rw [openMap_iff found] at guarded
        exact decided_guarded found sound (by simpa using guarded)
  constructor
  · rintro rfl
    exact decided
  · exact decided.unique

-- The group's copy has a running encounter, and the participant is saved to another copy for good; the
-- difficulty asked for is not offered, the one below it is.
theorem evaluate_decided_encounter :
    let data : CatalogData :=
      { maps := [{id := ⟨533⟩, kind := .raid, expansion := 2}]
        templates := [{map := ⟨533⟩, maxPlayers := 10}]
        difficulties := [⟨⟨533⟩,[.raid10Normal]⟩] }
    let p : ParticipantState :=
      { id := .nil
        raidDifficulty := .raid25Normal
        group := some {kind := .raid, binds := [⟨⟨533⟩,⟨1⟩,.raid10Normal,false⟩]}
        binds := [⟨⟨533⟩,⟨7⟩,.raid10Normal,true⟩] }
    ∃ c w, Catalog.build data = .ok c ∧ Reached (fun _ _ => True) (start c {} .none .empty) w ∧
      (w.evaluate ⟨533⟩ p false).1 = .denied .zoneInCombat ∧
      Decided (Applies w ⟨533⟩ p false) Ground.all (.denied .zoneInCombat) := by
  intro data p
  obtain ⟨c,built⟩ : ∃ c, Catalog.build data = .ok c := ⟨_,rfl⟩
  have started : Reached (fun _ _ => True) (start c {} .none .empty) _ := .start
  have path := started
    |>.step (.createMap ⟨533⟩ {participant := .nil, difficulty := .raid25Normal}) trivial
    |>.step (.setEncounter 1 true) trivial
  refine ⟨c,_,built,path,?_,(evaluate_decided built {} .none .empty path ⟨533⟩ p false _).mp ?_⟩
  all_goals
    cases built
    decide

end World
end LiveMaps
