import LiveMaps.Proofs.Admission.Grounds
import LiveMaps.Proofs.Catalog.Searches

namespace LiveMaps.Attempt
open Ancestry Catalog

variable {a : Attempt}

theorem corpseChain_eq : Rule.verdict a .corpseChain =
    .denyIf (!a.participant.alive && a.participant.corpse.any fun corpse => !a.leadsTo corpse.map)
      .corpseInDifferentInstance := by
  simp only [Rule.verdict]
  cases a.participant.alive with
  | true => rfl
  | false => cases a.participant.corpse <;> rfl

theorem corpseChain_denies : Rule.verdict a .corpseChain = .deny .corpseInDifferentInstance ↔
    a.participant.alive = false ∧ ∃ corpse, a.participant.corpse = some corpse ∧
      ¬ a.catalog.Inside corpse.map a.map := by
  rw [corpseChain_eq,Verdict.denyIf_eq_deny]
  simp only [←World.leadsTo_iff]
  cases a.participant.corpse <;> simp

-- Whatever the templates are: enclosing instances may be undefined, have no template,
-- or enclose each other. The rule goes by where the search for the target has ended,
-- and that is on the target wherever the way leads there.
theorem corpse_search (a : Attempt) :
    (∀ start, ∃ n ≤ a.catalog.templates.length + 1, ∃ s,
      Rested a.catalog.templateParent? (some a.map) start n s ∧
      (∀ m other, Searched a.catalog.templateParent? (some a.map) start m other → m ≤ n) ∧
      (a.leadsTo start = true ↔ s.current = some a.map)) ∧
    (Rule.verdict a .corpseChain = .deny .corpseInDifferentInstance ↔
      a.participant.alive = false ∧ ∃ corpse, a.participant.corpse = some corpse ∧
        ¬ a.catalog.Inside corpse.map a.map) ∧
    (Rule.verdict a .corpseChain = .deny .corpseInDifferentInstance ∨
      Rule.verdict a .corpseChain = .pass) := by
  refine ⟨fun start => ?_,corpseChain_denies,?_⟩
  · obtain ⟨n,short,s,rested,longest⟩ :=
      search_ends (a.catalog.templateParent?_listed) (some a.map) start
    rw [List.length_map] at short
    exact ⟨n,short,s,rested,longest,World.leadsTo_iff.trans (inside_iff.trans rested.found_iff.symm)⟩
  · rw [corpseChain_eq]
    exact Verdict.denyIf_cases _ _

-- Two instances that enclose each other, neither of them defined.
example :
    let catalog : Catalog := {empty with templates :=
      [{map := ⟨1⟩, parent := some ⟨2⟩, maxPlayers := 5},{map := ⟨2⟩, parent := some ⟨1⟩, maxPlayers := 5}]}
    let toward (target : MapId) : Attempt :=
      { catalog := catalog, config := {}, copy? := fun _ _ => none
        definition := {id := target, kind := .dungeon}, participant := {id := .nil}, login := false }
    [⟨1⟩,⟨2⟩,⟨3⟩].map (fun target => (toward target).leadsTo ⟨1⟩) = [true,true,false] := rfl

end LiveMaps.Attempt
