import LiveMaps.Proofs.Admission.Grounds
import LiveMaps.Proofs.Admission.Validity
import LiveMaps.Proofs.Ids.Refinement
import LiveMaps.Proofs.World.Fates

namespace LiveMaps

namespace Catalog
variable {c : Catalog} {map : MapId} {offered : List Difficulty} {asked given : Difficulty}

theorem Downscaled.offers (scaled : Downscaled offered asked given) : given ∈ offered := by
  induction scaled with
  | meets present => exact present
  | lower _ _ _ ih => exact ih
  | default _ _ first =>
    rw [first]
    exact List.mem_cons_self

theorem Downscaled.same (scaled : Downscaled offered asked given) (present : asked ∈ offered) : given = asked := by
  cases scaled with
  | meets => rfl
  | lower absent | default absent => exact absurd present absent

theorem downscale_again (scaled : c.downscale map asked = some given) : c.downscale map given = some given := by
  obtain ⟨offered,listed,steps⟩ := downscale_iff.mp scaled
  exact downscale_iff.mpr ⟨offered,listed,.meets steps.offers⟩

end Catalog

namespace World
open Catalog Attempt

-- What an attempt is judged by at the level at which the map is entered: the requirement
-- there, the copy that the group is bound to there, and the participant's own tie there.
structure JudgedAt (w : World) (d : MapDefinition) (p : ParticipantState) (login : Bool) (level : Difficulty) :
    Prop where
  requirement : (w.evaluate d.id p login).1 = .denied .unspecifiedReason ↔
    p.gameMaster = false ∧ ∃ r, w.catalog.Requires d.id level r ∧ Unmet p r
  copy : (w.attempt d p login).boundCopy? =
    p.group.bind fun group => (group.bound? d.id level).bind (w.find? d.id)
  bind : (w.attempt d p login).permanentBind? =
    ((p.bind? d.id).filter fun b => b.permanent && b.difficulty == level).map InstanceBind.instanceId
  refused : ∀ reason ∈ Rule.reasons .boundInstance, (w.evaluate d.id p login).1 = .denied reason →
    ∃ copy, BoundTo w d p login level copy ∧ copy.denial? (w.attempt d p login).entryRequest = some reason

variable {w middle after : World} {host : BaseMap} {d : MapDefinition} {map : MapId} {p : ParticipantState}
  {login : Bool} {level : Difficulty} {request : InstanceRequest} {m : LiveMap}

-- Past the rules about the map, the requirement is the first to refuse, and alone in its reason.
theorem judge_requirement (enters : (w.attempt d p login).effective? = some level) :
    ((w.attempt d p login).judge Rule.personal).1 = .denied .unspecifiedReason ↔
      p.gameMaster = false ∧ ∃ r, w.catalog.Requires d.id level r ∧ Unmet p r := by
  have entered : (w.attempt d p login).effective = level := effective_of enters
  have verdict : Rule.verdict (w.attempt d p login) .accessRequirement =
      .denyIf (!p.satisfies (w.catalog.requirement? d.id level)) .unspecifiedReason := by
    rw [←entered]
    rfl
  simp only [requires_iff]
  rw [←unsatisfied_iff]
  have others : ∀ rule ∈ Rule.personal.drop 2, .unspecifiedReason ∉ rule.reasons := by decide
  have rules : Rule.personal = .gameMaster :: .accessRequirement :: Rule.personal.drop 2 := rfl
  cases master : p.gameMaster with
  | true =>
    rw [judge_master master]
    simp
  | false =>
    have passed : Rule.verdict (w.attempt d p login) .gameMaster = .pass := if_neg (by simp [attempt,master])
    rw [rules,judge_passed passed]
    cases met : p.satisfies (w.catalog.requirement? d.id level) with
    | false =>
      rw [met] at verdict
      rw [judge_denied verdict]
      simp
    | true =>
      rw [met] at verdict
      rw [judge_passed verdict]
      refine iff_of_false (fun denied => ?_) (by simp)
      obtain ⟨rule,member,refuses⟩ := judge_refused denied
      exact others rule member (verdict_reason refuses)

theorem judge_copy (sound : w.Sound) (found : w.catalog.definition? map = some d)
    (dungeon : d.kind.isDungeon = true) (enters : (w.attempt d p login).effective? = some level) {reason : Denial}
    (own : reason ∈ Rule.reasons .boundInstance)
    (denied : ((w.attempt d p login).judge Rule.personal).1 = .denied reason) :
    ∃ copy, BoundTo w d p login level copy ∧ copy.denial? (w.attempt d p login).entryRequest = some reason := by
  have only : ∀ rule ∈ Rule.personal, ∀ reason ∈ rule.reasons,
      reason ∈ Rule.reasons .boundInstance → rule = .boundInstance := by decide
  obtain ⟨rule,member,refuses⟩ := judge_refused denied
  cases only rule member reason (verdict_reason refuses) own
  rw [boundInstance_eq] at refuses
  split at refuses
  · cases refuses
  rename_i walking
  have walking : login = false := by simpa [attempt] using walking
  cases asked : (w.attempt d p login).boundCopy?.bind
      (fun copy => copy.denial? (w.attempt d p login).entryRequest) with
  | none => simp [asked] at refuses
  | some other =>
    obtain ⟨copy,held,refused⟩ := Option.bind_eq_some_iff.mp asked
    simp only [asked,Option.elim_some,Verdict.deny.injEq] at refuses
    exact ⟨copy,(boundTo_iff sound found dungeon).mpr ⟨walking,enters,held⟩,refuses ▸ refused⟩

theorem judged_at (sound : w.Sound) (found : w.catalog.definition? d.id = some d) (dungeon : d.kind.isDungeon = true)
    (enters : w.catalog.downscale d.id (p.difficultyFor d) = some level)
    (personal : (w.evaluate d.id p login).1 = ((w.attempt d p login).judge Rule.personal).1) :
    JudgedAt w d p login level := by
  have enters : (w.attempt d p login).effective? = some level := enters
  have entered : (w.attempt d p login).effective = level := effective_of enters
  exact {
    requirement := personal ▸ judge_requirement enters
    copy := by
      unfold boundCopy?
      rw [entered]
      rfl
    bind := by
      unfold permanentBind?
      rw [entered]
      rfl
    refused := fun reason own denied => judge_copy sound found dungeon enters own (personal ▸ denied) }

theorem CopyRoute.origin (route : CopyRoute w host request (after,.ok m)) :
    m ∈ host.copies ∨ m.serial = w.born ∧ m.difficulty = request.difficulty := by
  cases route with
  | joined _ found => exact .inl (List.mem_of_find?_eq_some found)
  | bound => exact .inr ⟨rfl,rfl⟩
  | fresh => exact .inr ⟨rfl,rfl⟩

theorem createMap_ok {answer : Option LiveMap} (answered : w.createMap map request = (after,.ok answer)) :
    w.resolve map request = (after,.ok answer) := by
  unfold createMap at answered
  split at answered
  · split at answered <;> cases answered
  · rename_i resolved
    rw [resolved,answered]

theorem Ensured.copies_live (ensured : Ensured w map middle host) (sound : w.Sound) (among : m ∈ host.copies) :
    m ∈ w.live := by
  have member := (base?_parts ensured.found).1
  rcases ensured.origin sound member with old | ⟨root,d,_,_,rfl⟩
  · exact all_live (List.mem_append_left _ old) (List.mem_cons_of_mem _ among)
  · rw [(w.build_parts _ d).2.2.2.2.1] at among
    cases among

theorem Ensured.born_fresh (ensured : Ensured w map middle host) (sound : w.Sound)
    (new : m.serial = middle.born) : m ∉ w.live := by
  intro running
  have before := sound.born m.serial (List.mem_map_of_mem running)
  have grown : w.born ≤ middle.born := by
    cases ensured with
    | known => exact Nat.le_refl _
    | brought => exact Nat.le_add_right _ _
  omega

theorem Ensured.tabled_of (ensured : Ensured w map middle host) (sound : w.Sound)
    (defined : w.catalog.definition? map = some d) (instanceable : d.kind.instanceable = true) :
    host.isInstanceable = true := by
  obtain ⟨other,same,kind⟩ := ensured.kind sound
  cases defined.symm.trans same
  exact kind.symm.trans instanceable

section
variable (sound : w.Sound) (defined : w.catalog.definition? map = some d) (instanceable : d.kind.instanceable = true)

include sound defined instanceable

theorem createMap_level (scaled : w.catalog.downscale map request.difficulty = some level)
    (answered : w.createMap map request = (after,.ok (some m))) (fresh : m ∉ w.live) : m.difficulty = level := by
  have landing := resolve_landing sound defined request
  rw [createMap_ok answered] at landing
  cases landing with
  | plain ensured tabled =>
    rw [ensured.tabled_of sound defined instanceable] at tabled
    cases tabled
  | copy ensured _ route =>
    rcases route.origin with old | ⟨_,same⟩
    · exact absurd (ensured.copies_live sound old) fresh
    · rw [same,scaled]
      rfl

theorem createMap_opens (unbound : request.boundCopy? = none) (spare : w.ids.Spare) (room : w.ids.next ≠ w.ids.limit) :
    ∃ after copy, w.createMap map request = (after,.ok (some copy)) ∧ copy ∉ w.live := by
  have mild : ∀ e, (w.resolve map request).2 = .error e → e.isFatal = false :=
    (resolve_nonfatal sound defined fun _ => room).1
  rw [createMap_resolve mild]
  have landing := resolve_landing sound defined request
  generalize w.resolve map request = answer at landing
  cases landing with
  | plain ensured tabled =>
    rw [ensured.tabled_of sound defined instanceable] at tabled
    cases tabled
  | copy ensured tabled route =>
    refine ⟨_,_,rfl,?_⟩
    cases route with
    | joined bound | bound _ bound => cases unbound.symm.trans bound
    | fresh => exact ensured.born_fresh sound rfl
  | failed ensured tabled route =>
    have valid := (ensured.sound sound).ids
    have ids : w.ids = _ := (congrArg World.ids ensured.records).symm
    rw [ids] at spare room
    cases route with
    | plain bare => simp [BaseMap.isInstanceable,bare] at tabled
    | refused bound => cases unbound.symm.trans bound
    | spent _ _ failed =>
      obtain ⟨_,_,ran⟩ := IdTable.allocate_ok valid room
      cases failed.symm.trans ran
    | stuck _ allocated failed =>
      obtain ⟨_,_,_,_,ids,claimed⟩ := IdTable.allocate_spare valid spare allocated
      cases failed.symm.trans claimed

end

-- The difficulty at which whoever gets past the rules about a guarded map is judged is the
-- one of each new copy, whether the participant asks for its own difficulty or for that one.
theorem entry_level {data : CatalogData} {c : Catalog} (built : Catalog.build data = .ok c)
    (config : WorldConfig) (tiles : Terrain.TileSource) (saved : SavedState)
    (path : Reached (fun _ _ => True) (start c config tiles saved) w)
    (found : c.definition? map = some d) (dungeon : d.kind.isDungeon = true) (p : ParticipantState) (login : Bool)
    (past : (w.evaluate map p login).1 ∉
      [.denied .noEntry,.denied .uninstancedDungeon,.denied .difficultyUnavailable]) :
    ∃ offered level, c.offered? map = some offered ∧ level ∈ offered ∧
      (p.difficultyFor d ∈ offered → level = p.difficultyFor d) ∧
      Downscaled offered (p.difficultyFor d) level ∧ c.downscale map level = some level ∧
      JudgedAt w d p login level ∧
      ∀ (later : World) (request : InstanceRequest), Reached (fun _ _ => True) w later →
        request.difficulty = p.difficultyFor d ∨ request.difficulty = level →
        (∀ after copy, later.createMap map request = (after,.ok (some copy)) → copy ∉ later.live →
          copy.difficulty = level) ∧
        (request.boundCopy? = none → later.ids.Spare → later.ids.next ≠ later.ids.limit →
          ∃ after copy, later.createMap map request = (after,.ok (some copy)) ∧ copy ∉ later.live) := by
  have origin := start_sound (Catalog.build_forest built) config tiles saved
  have sound := path.sound origin
  have catalog : w.catalog = c := Reached.catalog origin path
  have named : d.id = map := Catalog.definition?_id found
  have instanceable : d.kind.instanceable = true := by
    revert dungeon
    cases d.kind <;> decide
  subst named
  have gated := evaluate_gated w d.id p login
  generalize judged : (w.evaluate d.id p login).1 = decision at gated past
  cases gated with
  | undefined | untemplated | unoffered => simp at past
  | unguarded same free =>
    rw [catalog,found] at same
    cases same
    rw [dungeon] at free
    cases free
  | @judged _ level same _ _ scaled =>
    rw [catalog,found] at same
    cases same
    have entered : JudgedAt w d p login level := judged_at sound (catalog ▸ found) dungeon scaled judged
    rw [catalog] at scaled
    have again := downscale_again scaled
    obtain ⟨offered,listed,steps⟩ := downscale_iff.mp scaled
    refine ⟨offered,level,listed,steps.offers,steps.same,steps,again,entered,fun later request reached asked => ?_⟩
    have current : later.Sound := reached.sound sound
    have kept : later.catalog = c := (Reached.catalog sound reached).trans catalog
    rw [←kept] at found scaled again
    have offers : later.catalog.downscale d.id request.difficulty = some level := by
      rcases asked with own | level
      · rw [own,scaled]
      · rw [level,again]
    constructor
    · intro after copy answered fresh
      exact createMap_level current found instanceable offers answered fresh
    · intro unbound spare room
      exact createMap_opens current found instanceable unbound spare room

-- Heroic is asked for and normal is offered. The requirement of heroic is not met, and the
-- group's copy is a normal one.
theorem entry_level_lower :
    let d : MapDefinition := {id := ⟨36⟩, kind := .dungeon}
    let data : CatalogData :=
      { maps := [d]
        templates := [{map := ⟨36⟩, maxPlayers := 5}]
        difficulties := [⟨⟨36⟩,[.mythic,.normal]⟩]
        requirements := [{map := ⟨36⟩, difficulty := .heroic, minLevel := 80},
          {map := ⟨36⟩, difficulty := .normal, minLevel := 10}] }
    let p : ParticipantState :=
      { id := .nil
        level := 15
        dungeonDifficulty := .heroic
        group := some {binds := [⟨⟨36⟩,⟨1⟩,.normal,false⟩]} }
    let request : InstanceRequest := {participant := .nil, difficulty := .heroic}
    ∃ c w, Catalog.build data = .ok c ∧ Reached (fun _ _ => True) (start c {} .none .empty) w ∧
      (∃ r, w.catalog.Requires ⟨36⟩ .heroic r ∧ Unmet p r) ∧
      (w.evaluate ⟨36⟩ p false).1 = .allowed ∧ JudgedAt w d p false .normal ∧
      ∃ after copy, w.createMap ⟨36⟩ request = (after,.ok (some copy)) ∧ copy ∉ w.live ∧
        copy.difficulty = .normal := by
  intro d data p request
  obtain ⟨c,built⟩ : ∃ c, Catalog.build data = .ok c := ⟨_,rfl⟩
  have started : Reached (fun _ _ => True) (start c {} .none .empty) _ := .start
  have path := started.step (.createMap ⟨36⟩ request) trivial
  have found : c.definition? ⟨36⟩ = some d := by
    cases built
    decide
  have lower : c.downscale ⟨36⟩ .heroic = some .normal := by
    cases built
    decide
  obtain ⟨offered,level,listed,_,_,steps,_,judged,routes⟩ :=
    entry_level built {} .none .empty path found rfl p false (by cases built; decide)
  cases (downscale_iff.mpr ⟨offered,listed,steps⟩).symm.trans lower
  obtain ⟨same,opens⟩ := routes _ request .start (.inl rfl)
  obtain ⟨after,copy,answered,fresh⟩ :=
    opens rfl ⟨⟨9⟩,by decide,by cases built; decide⟩ (by cases built; decide)
  refine ⟨c,_,built,path,?_,?_,judged,after,copy,answered,fresh,same after copy answered fresh⟩
  · cases built
    exact ⟨{map := ⟨36⟩, difficulty := .heroic, minLevel := 80},requires_iff.mpr (by decide),.inl (by decide)⟩
  · cases built
    decide

end World
end LiveMaps
