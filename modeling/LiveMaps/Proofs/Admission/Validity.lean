import LiveMaps.Proofs.Admission.Judging
import LiveMaps.Proofs.Catalog.Walks
import LiveMaps.Proofs.World.Runs

namespace LiveMaps

namespace Rule

def reasons : Rule → List Denial
  | .nonDungeon => []
  | .instanceTemplate => [.uninstancedDungeon]
  | .difficulty => [.difficultyUnavailable]
  | .gameMaster => []
  | .accessRequirement => [.unspecifiedReason]
  | .raidGroup => [.notInRaid]
  | .corpseChain => [.corpseInDifferentInstance]
  | .boundInstance => [.maxPlayers,.zoneInCombat,.instanceBindMismatch]
  | .instanceCap => [.tooManyInstances]

-- The rules that look at the participant. Those before them look at the map.
def personal : List Rule := [.gameMaster,.accessRequirement,.raidGroup,.corpseChain,.boundInstance,.instanceCap]

end Rule

theorem Verdict.denyIf_reason {refused : Bool} {reason other : Denial}
    (denied : denyIf refused reason = .deny other) : other = reason := by
  cases refused <;> cases denied
  rfl

theorem LiveMap.denial?_reason {m : LiveMap} {r : EntryRequest} {reason : Denial}
    (denied : m.denial? r = some reason) : reason ∈ Rule.reasons .boundInstance := by
  unfold denial? at denied
  split at denied
  · cases denied
  split at denied
  · cases denied
    decide
  split at denied
  · cases denied
    decide
  split at denied
  · split at denied <;> cases denied
    decide
  · cases denied

namespace Attempt
variable {a : Attempt} {rule : Rule} {rules : List Rule} {reason : Denial}

theorem verdict_reason (denied : rule.verdict a = .deny reason) : reason ∈ rule.reasons := by
  cases rule with
  | nonDungeon | gameMaster =>
    simp only [Rule.verdict] at denied
    split at denied <;> cases denied
  | instanceTemplate | difficulty | accessRequirement | raidGroup | instanceCap =>
    cases Verdict.denyIf_reason denied
    exact List.mem_singleton_self _
  | corpseChain =>
    simp only [Rule.verdict] at denied
    split at denied
    · cases Verdict.denyIf_reason denied
      exact List.mem_singleton_self _
    · cases denied
  | boundInstance =>
    rw [boundInstance_eq] at denied
    split at denied
    · cases denied
    · cases asked : a.boundCopy?.bind (fun copy => copy.denial? a.entryRequest) with
      | none => simp [asked] at denied
      | some other =>
        obtain ⟨copy,_,refused⟩ := Option.bind_eq_some_iff.mp asked
        simp only [asked,Option.elim_some,Verdict.deny.injEq] at denied
        exact denied ▸ LiveMap.denial?_reason refused

theorem judge_refused (denied : (a.judge rules).1 = .denied reason) :
    ∃ rule ∈ rules, rule.verdict a = .deny reason := by
  induction rules with
  | nil => cases denied
  | cons rule rest ih =>
    cases verdict : rule.verdict a with
    | pass =>
      rw [judge_passed verdict] at denied
      obtain ⟨later,member,refuses⟩ := ih denied
      exact ⟨later,List.mem_cons_of_mem _ member,refuses⟩
    | allow =>
      rw [judge_allowed verdict] at denied
      cases denied
    | deny other =>
      rw [judge_denied verdict] at denied
      cases denied
      exact ⟨rule,List.mem_cons_self,verdict⟩

theorem judge_personal (a : Attempt) : (a.judge Rule.personal).1 ∉
    [.denied .noEntry,.denied .uninstancedDungeon,.denied .difficultyUnavailable] := by
  have others : ∀ rule ∈ Rule.personal, ∀ reason ∈ rule.reasons,
      reason ∉ [.noEntry,.uninstancedDungeon,.difficultyUnavailable] := by decide
  cases decided : (a.judge Rule.personal).1 with
  | allowed => decide
  | denied reason =>
    obtain ⟨rule,member,refuses⟩ := judge_refused decided
    simpa using others rule member reason (verdict_reason refuses)

theorem judge_master (master : a.participant.gameMaster = true) : (a.judge Rule.personal).1 = .allowed :=
  judge_allowed (if_pos master)

end Attempt

theorem Catalog.offers_iff (c : Catalog) (map : MapId) (requested : Difficulty) :
    (c.downscale map requested).isSome ↔ ∃ offered, c.offered? map = some offered ∧ offered ≠ [] := by
  rw [←Option.ne_none_iff_isSome,ne_eq,downscale_none]
  push Not
  rfl

namespace IdTable
variable {t : IdTable} {id : InstanceId} {e : IdError}

theorem claim_inexhaustible (failed : t.claim id = .error e) : e ≠ .exhausted := by
  have reserved {t : IdTable} (failed : t.reserve id = .error e) : e ≠ .exhausted := by
    unfold reserve at failed
    split at failed
    · cases failed
      simp
    split at failed <;> cases failed
    simp
  unfold claim at failed
  split at failed
  · cases failed
    simp
  · dsimp only at failed
    split at failed
    · rename_i stopped
      cases failed
      exact reserved stopped
    · cases failed

end IdTable

namespace World
open Attempt

-- What the catalog settles, and what is left to the rules about the participant.
inductive Gated (w : World) (map : MapId) (p : ParticipantState) (login : Bool) : Decision → Prop where
  | undefined : w.catalog.definition? map = none → Gated w map p login (.denied .noEntry)
  | unguarded {d} : w.catalog.definition? map = some d → d.kind.isDungeon = false →
      Gated w map p login .allowed
  | untemplated {d} : w.catalog.definition? map = some d → d.kind.isDungeon = true →
      w.catalog.template? map = none → Gated w map p login (.denied .uninstancedDungeon)
  | unoffered {d} : w.catalog.definition? map = some d → d.kind.isDungeon = true →
      (w.catalog.template? map).isSome → w.catalog.downscale map (p.difficultyFor d) = none →
      Gated w map p login (.denied .difficultyUnavailable)
  | judged {d level} : w.catalog.definition? map = some d → d.kind.isDungeon = true →
      (w.catalog.template? map).isSome → w.catalog.downscale map (p.difficultyFor d) = some level →
      Gated w map p login ((w.attempt d p login).judge Rule.personal).1

inductive Landing (w : World) (map : MapId) (request : InstanceRequest) :
    World × Except MapError (Option LiveMap) → Prop where
  | plain {middle host answer} : Ensured w map middle host → host.isInstanceable = false →
      answer = (if request.boundCopy?.isSome then none else some host.own) →
      Landing w map request (middle,.ok answer)
  | copy {middle host after copy} : Ensured w map middle host → host.isInstanceable = true →
      CopyRoute middle host
        {request with difficulty := (w.catalog.downscale map request.difficulty).getD request.difficulty}
        (after,.ok copy) → Landing w map request (after,.ok (some copy))
  | failed {middle host after e} : Ensured w map middle host → host.isInstanceable = true →
      CopyRoute middle host
        {request with difficulty := (w.catalog.downscale map request.difficulty).getD request.difficulty}
        (after,.error e) → Landing w map request (after,.error e)

variable {w after : World} {host : BaseMap} {d : MapDefinition} {map : MapId} {p : ParticipantState}
  {request : InstanceRequest} {e : MapError}

theorem evaluate_gated (w : World) (map : MapId) (p : ParticipantState) (login : Bool) :
    Gated w map p login (w.evaluate map p login).1 := by
  cases found : w.catalog.definition? map with
  | none =>
    rw [evaluate_undefined found]
    exact .undefined found
  | some d =>
    have named : d.id = map := Catalog.definition?_id found
    have rules : Rule.all = .nonDungeon :: .instanceTemplate :: .difficulty :: Rule.personal := rfl
    rw [evaluate_defined found,rules]
    cases guarded : d.kind.isDungeon with
    | false =>
      have settled : Rule.verdict (w.attempt d p login) .nonDungeon = .allow := if_neg (by simp [attempt,guarded])
      rw [judge_allowed settled]
      exact .unguarded found guarded
    | true =>
      have passed : Rule.verdict (w.attempt d p login) .nonDungeon = .pass := if_pos guarded
      rw [judge_passed passed]
      subst named
      cases templated : w.catalog.template? d.id with
      | none =>
        have refused : Rule.verdict (w.attempt d p login) .instanceTemplate = .deny .uninstancedDungeon :=
          if_pos (Option.isNone_iff_eq_none.mpr templated)
        rw [judge_denied refused]
        exact .untemplated found guarded templated
      | some t =>
        have known := Option.isSome_of_eq_some templated
        have passed : Rule.verdict (w.attempt d p login) .instanceTemplate = .pass :=
          if_neg (by rw [Bool.not_eq_true,Option.isNone_eq_false_iff]; exact known)
        rw [judge_passed passed]
        cases offers : w.catalog.downscale d.id (p.difficultyFor d) with
        | none =>
          have refused : Rule.verdict (w.attempt d p login) .difficulty = .deny .difficultyUnavailable :=
            if_pos (Option.isNone_iff_eq_none.mpr offers)
          rw [judge_denied refused]
          exact .unoffered found guarded known offers
        | some level =>
          have passed : Rule.verdict (w.attempt d p login) .difficulty = .pass :=
            if_neg (by rw [Bool.not_eq_true,Option.isNone_eq_false_iff]; exact Option.isSome_of_eq_some offers)
          rw [judge_passed passed]
          exact .judged found guarded known offers

theorem evaluate_valid (w : World) (map : MapId) (p : ParticipantState) (login : Bool) :
    (w.evaluate map p login).1 ∈ [.denied .noEntry,.denied .uninstancedDungeon] ↔
      w.catalog.isValidMap map false = false := by
  have gated := evaluate_gated w map p login
  generalize (w.evaluate map p login).1 = decision at gated
  unfold Catalog.isValidMap
  cases gated with
  | undefined found => simp [found]
  | unguarded found free => simp [found,free]
  | untemplated found guarded missing => simp [found,guarded,missing]
  | unoffered found guarded known => simp [found,known]
  | @judged d _ found guarded known =>
    have personal := judge_personal (w.attempt d p login)
    simp only [List.mem_cons,not_or] at personal
    simp [found,known,personal]

def masterDecision (c : Catalog) (map : MapId) : Decision :=
  match c.definition? map with
  | none => .denied .noEntry
  | some d =>
    if !d.kind.isDungeon then .allowed
    else if (c.template? map).isNone then .denied .uninstancedDungeon
    else if (c.downscale map .none).isNone then .denied .difficultyUnavailable
    else .allowed

theorem evaluate_master (w : World) (map : MapId) (login : Bool) (master : p.gameMaster = true) :
    (w.evaluate map p login).1 = masterDecision w.catalog map := by
  have gated := evaluate_gated w map p login
  generalize (w.evaluate map p login).1 = decision at gated
  -- Whether anything is offered does not depend on what is asked for.
  have offers (one two : Difficulty) : (w.catalog.downscale map one).isNone = (w.catalog.downscale map two).isNone := by
    rw [Bool.eq_iff_iff,Option.isNone_iff_eq_none,Option.isNone_iff_eq_none,Catalog.downscale_none,
      Catalog.downscale_none]
  unfold masterDecision
  cases gated with
  | undefined found => simp [found]
  | unguarded found free => simp [found,free]
  | untemplated found guarded missing => simp [found,guarded,missing]
  | @unoffered d found guarded known unoffered =>
    have missing := offers .none (p.difficultyFor d)
    rw [unoffered] at missing
    simp [found,guarded,Option.isSome_iff_ne_none.mp known,missing]
  | @judged d level found guarded known scaled =>
    have given := offers .none (p.difficultyFor d)
    rw [scaled] at given
    rw [judge_master master]
    simp [found,guarded,Option.isSome_iff_ne_none.mp known,given]

theorem masterDecision_allowed {c : Catalog} : masterDecision c map = .allowed ↔ c.isValidMap map false = true ∧
    ∀ d, c.definition? map = some d → d.kind.isDungeon = false ∨
      ∃ offered, c.offered? map = some offered ∧ offered ≠ [] := by
  unfold masterDecision Catalog.isValidMap
  cases c.definition? map with
  | none => simp
  | some d =>
    simp only [Option.some.injEq,forall_eq',←c.offers_iff map .none]
    cases d.kind.isDungeon <;> cases c.template? map <;> cases c.downscale map .none <;> simp

theorem resolve_landing (sound : w.Sound) (defined : w.catalog.definition? map = some d) (request : InstanceRequest) :
    Landing w map request (w.resolve map request) := by
  obtain ⟨middle,host,ran,ensured⟩ := createBase_ensured sound defined
  have catalog : middle.catalog = w.catalog := by rw [ensured.records]
  unfold resolve
  rw [ran]
  cases tabled : host.isInstanceable with
  | false =>
    simp only [tabled,Bool.false_eq_true,if_false]
    exact .plain ensured tabled rfl
  | true =>
    simp only [tabled,if_true,catalog]
    have route := createCopy_route middle host
      {request with difficulty := (w.catalog.downscale map request.difficulty).getD request.difficulty}
    split
    · rename_i failed
      exact .failed ensured tabled (failed ▸ route)
    · rename_i answered
      exact .copy ensured tabled (answered ▸ route)

theorem CopyRoute.running {answer : World × Except MapError LiveMap} (route : CopyRoute w host request answer) :
    answer.1.shutdown = w.shutdown := by
  cases route <;> rfl

theorem CopyRoute.nonfatal (route : CopyRoute w host request (after,.error e)) (valid : w.ids.Valid)
    (room : request.boundCopy? = none → w.ids.next ≠ w.ids.limit) : e.isFatal = false := by
  have claimed {t : IdTable} {id : InstanceId} {cause : IdError} (failed : t.claim id = .error cause) :
      (MapError.instanceId cause).isFatal = false := by
    cases cause with
    | exhausted => exact absurd rfl (IdTable.claim_inexhaustible failed)
    | _ => rfl
  cases route with
  | plain => rfl
  | refused _ _ failed => exact claimed failed
  | spent journal unbound failed =>
    obtain ⟨_,_,ran⟩ := IdTable.allocate_ok valid (room unbound)
    cases failed.symm.trans ran
  | stuck _ _ failed => exact claimed failed

theorem resolve_nonfatal (sound : w.Sound) (defined : w.catalog.definition? map = some d)
    (room : request.boundCopy? = none → w.ids.next ≠ w.ids.limit) :
    (∀ e, (w.resolve map request).2 = .error e → e.isFatal = false) ∧
      (w.resolve map request).1.shutdown = w.shutdown := by
  have landing := resolve_landing sound defined request
  generalize w.resolve map request = answer at landing
  cases landing with
  | plain ensured => exact ⟨nofun,by rw [ensured.records]⟩
  | copy ensured _ route => exact ⟨nofun,route.running.trans (by rw [ensured.records])⟩
  | failed ensured _ route =>
    have mild := route.nonfatal (ensured.sound sound).ids (by rw [ensured.records]; exact room)
    refine ⟨fun other failed => ?_,route.running.trans (by rw [ensured.records])⟩
    cases failed
    exact mild

theorem createMap_resolve (mild : ∀ e, (w.resolve map request).2 = .error e → e.isFatal = false) :
    w.createMap map request = w.resolve map request := by
  unfold createMap
  generalize w.resolve map request = answer at mild
  obtain ⟨after,outcome⟩ := answer
  cases outcome with
  | ok copy => rfl
  | error e => simp [mild e rfl]

-- A map is refused for what it is exactly if it is not valid, and a game master is refused for nothing
-- else. Whoever is not told that there is no such map does not stop a world by going there.
theorem evaluate_enterable {data : CatalogData} {c : Catalog} (built : Catalog.build data = .ok c)
    (catalog : w.catalog = c) (map : MapId) (p : ParticipantState) (login : Bool) :
    ((w.evaluate map p login).1 ∈ [.denied .noEntry,.denied .uninstancedDungeon] ↔
      c.isValidMap map false = false) ∧
    (p.gameMaster = true →
      ((w.evaluate map p login).1 = .allowed ↔ c.isValidMap map false = true ∧
        ∀ d, c.definition? map = some d → d.kind.isDungeon = false ∨
          ∃ offered, c.offered? map = some offered ∧ offered ≠ []) ∧
      ∀ (other : World) (q : ParticipantState) (relogin : Bool), other.catalog = c → q.gameMaster = true →
        (other.evaluate map q relogin).1 = (w.evaluate map p login).1) ∧
    ((w.evaluate map p login).1 ≠ .denied .noEntry →
      ∀ (config : WorldConfig) (tiles : Terrain.TileSource) (saved : SavedState) (later : World)
        (request : InstanceRequest), Reached (fun _ _ => True) (start c config tiles saved) later →
        (request.boundCopy? = none → later.ids.next ≠ later.ids.limit) →
        (∀ e, (later.createMap map request).2 = .error e → e.isFatal = false) ∧
          (later.createMap map request).1.shutdown = later.shutdown) := by
  subst catalog
  refine ⟨evaluate_valid w map p login,fun master => ⟨?_,?_⟩,?_⟩
  · rw [evaluate_master w map login master]
    exact masterDecision_allowed
  · intro other q relogin same also
    rw [evaluate_master w map login master,evaluate_master other map relogin also,same]
  · intro known config tiles saved later request path room
    have origin := start_sound (Catalog.build_forest built) config tiles saved
    have sound := path.sound origin
    have catalog : later.catalog = w.catalog := by
      have same := Reached.catalog origin path
      exact same
    obtain ⟨d,defined⟩ : ∃ d, later.catalog.definition? map = some d := by
      refine Option.ne_none_iff_exists'.mp fun undefined => known ?_
      rw [catalog] at undefined
      rw [evaluate_undefined undefined]
    have mild := resolve_nonfatal sound defined room
    rw [createMap_resolve mild.1]
    exact mild

-- The game master goes back to a copy under an identifier that backs one of another map.
theorem evaluate_enterable_master :
    let data : CatalogData :=
      { maps := [{id := ⟨36⟩, kind := .dungeon},{id := ⟨43⟩, kind := .dungeon}]
        templates := [{map := ⟨36⟩, maxPlayers := 5},{map := ⟨43⟩, maxPlayers := 5}]
        difficulties := [⟨⟨36⟩,[.normal]⟩,⟨⟨43⟩,[.normal]⟩] }
    let p : ParticipantState := {id := .nil, gameMaster := true}
    let request : InstanceRequest := {participant := .nil, difficulty := .normal, bound := some ⟨1⟩}
    ∃ c w, Catalog.build data = .ok c ∧ Reached (fun _ _ => True) (start c {} .none .empty) w ∧
      (w.evaluate ⟨36⟩ p false).1 = .allowed ∧ c.isValidMap ⟨36⟩ false = true ∧
      (w.createMap ⟨36⟩ request).2.toOption = none ∧
      (∀ e, (w.createMap ⟨36⟩ request).2 = .error e → e.isFatal = false) ∧
      (w.createMap ⟨36⟩ request).1.shutdown = w.shutdown := by
  intro data p request
  obtain ⟨c,built⟩ : ∃ c, Catalog.build data = .ok c := ⟨_,rfl⟩
  have started : Reached (fun _ _ => True) (start c {} .none .empty) _ := .start
  have path := started.step (.createMap ⟨43⟩ {participant := .nil, difficulty := .normal}) trivial
  have catalog : World.catalog _ = c := Reached.catalog (start_sound (Catalog.build_forest built) {} .none .empty) path
  obtain ⟨_,master,going⟩ := evaluate_enterable built catalog ⟨36⟩ p false
  have entered := (master rfl).1.mpr (by cases built; decide)
  have kept := going (by rw [entered]; decide) {} .none .empty _ request path nofun
  refine ⟨c,_,built,path,entered,((master rfl).1.mp entered).1,?_,kept⟩
  cases built
  decide

end World
end LiveMaps
