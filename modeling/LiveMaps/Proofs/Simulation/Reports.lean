import LiveMaps.CommandLine.Commands
import LiveMaps.Proofs.Saved.Numbering
import LiveMaps.Proofs.Simulation.Openings
import LiveMaps.Proofs.Simulation.Passing

namespace LiveMaps

namespace Simulation
open SavedState Ordered
variable {c : Catalog} {opened : List MapDefinition} {w : World}

theorem roots_defined (forest : c.Forest) {d : MapDefinition} (member : d ∈ roots c) :
    c.definition? d.id = some d :=
  forest.definition?_iff.mpr ⟨(List.mem_filter.mp member).1,rfl⟩

theorem openings_length (copies : Nat) (maps : List MapDefinition) :
    (openings copies maps).length = copies * (maps.filter (·.kind.instanceable)).length := by
  induction maps with
  | nil => rfl
  | cons d rest ih =>
    have split : openings copies (d :: rest) = _ ++ openings copies rest := List.flatMap_cons
    rw [split,List.length_append,List.length_replicate,ih]
    cases instanceable : d.kind.instanceable with
    | false => simp [instanceable]
    | true =>
      simp only [List.filter_cons,instanceable,if_true,List.length_cons]
      rw [Nat.mul_succ,Nat.add_comm]

theorem openings_dungeons (copies : Nat) (maps : List MapDefinition) :
    (openings copies maps).countP (·.kind.isDungeon) = copies * (maps.filter (·.kind.isDungeon)).length := by
  induction maps with
  | nil => rfl
  | cons d rest ih =>
    have split : openings copies (d :: rest) = _ ++ openings copies rest := List.flatMap_cons
    have counted : (d.kind.isDungeon = true → d.kind.instanceable = true) := by
      cases d.kind <;> simp [MapKind.isDungeon,MapKind.instanceable]
    rw [split,List.countP_append,List.countP_replicate,ih]
    cases dungeon : d.kind.isDungeon with
    | false => simp [dungeon]
    | true =>
      simp only [List.filter_cons,dungeon,counted dungeon,if_true,List.length_cons]
      rw [Nat.mul_succ,Nat.add_comm]

theorem instanceCount_eq (placed : (w.tabled.map LiveMap.definition).Perm opened) :
    w.instanceCount = opened.countP (·.kind.isDungeon) := by
  rw [←placed.countP_eq,List.countP_map]
  exact List.countP_eq_length_filter.symm

theorem participantCount_eq {passes : Nat} (attended : ∀ copy ∈ w.tabled, World.Attended passes copy) :
    w.participantCount = if passes = 0 then 0 else w.instanceCount := by
  have each : w.dungeonCopies.map (fun copy => copy.participants.length) =
      List.replicate w.instanceCount (if passes = 0 then 0 else 1) := by
    refine List.eq_replicate_iff.mpr ⟨List.length_map _,fun amount member => ?_⟩
    obtain ⟨copy,among,rfl⟩ := List.mem_map.mp member
    obtain ⟨guest,place⟩ := attended copy (List.mem_filter.mp among).1
    split at place <;> simp_all
  unfold World.participantCount
  rw [each,←List.sum_eq_foldr,List.sum_replicate_nat]
  split <;> simp

theorem run_reports (forest : c.Forest) {config : WorldConfig} (positive : config.updateInterval ≠ 0)
    (tiles : Terrain.TileSource) {store : Option DirectoryStore} {files : FileTree} (shown : ∀ s, store = some s →
      s.data.Numbered ∧ DirectoryStore.Shows files s.root (FileTree.target s.root) s.data) (plan : Simulation)
    (room : (openings plan.copies (roots c)).length ≤ Nat.count (Unrecorded (records store)) IdTable.largestId) :
    ∃ (s : Session) (r : Report), plan.run (.start c config tiles store files) =
        ⟨s.files,store.map (·.data.instances.length),.ok r⟩ ∧
      Filing c (openings plan.copies (roots c)) store s.store s.files ∧ r.exitCode = 0 ∧
      r.passes = passesIn config.updateInterval plan.step plan.ticks ∧
      r.instances = plan.copies * ((roots c).filter (·.kind.isDungeon)).length ∧
      r.participants = if r.passes = 0 then 0 else r.instances := by
  obtain ⟨s,replayed,state⟩ := start_opened forest config tiles shown
  have catalog : s.world.catalog = c := state.hosting.catalog
  have enough : ([] : List MapDefinition).length + (openings plan.copies (roots c)).length ≤
      Nat.count (Unrecorded (records store)) IdTable.largestId := by rwa [List.length_nil,Nat.zero_add]
  obtain ⟨next,ran,⟨hosting,filing⟩⟩ := state.openRoots (fun d member => roots_defined forest member) enough
  have passed := (hosting.passing rfl plan.step).ticked (UInt32.pos_iff_ne_zero.mpr positive) plan.ticks
  rw [Nat.zero_add] at passed
  have placed : ((ticked plan.step plan.ticks next.world).tabled.map LiveMap.definition).Perm
      (openings plan.copies (roots c)) := passed.copies ▸ hosting.copies
  have instances := instanceCount_eq placed
  rw [openings_dungeons] at instances
  refine ⟨next,report (ticked plan.step plan.ticks next.world),?_,filing,?_,?_,instances,
    participantCount_eq passed.attended⟩
  · unfold run
    rw [replayed]
    simp only [catalog,ran]
  · simp only [report,World.exitCode?,passed.running]
    rfl
  · rw [passesIn_eq]
    exact passed.paced.passes

end Simulation

namespace CommandLine
open Simulation SavedState Ordered

theorem openStore_parts {files next : FileTree} {path : Option String} {store : DirectoryStore}
    (opens : openStore files path = (.ok (some store),next)) :
    ∃ text, path = some text ∧ DirectoryStore.openAt files (.ofText text) = (.ok store,next) := by
  cases path with
  | none => cases opens
  | some text =>
    simp only [openStore] at opens
    split at opens
    · rename_i opened
      cases opens
      exact ⟨text,rfl,opened⟩
    · cases opens

-- The whole command, from the files that it is given to the lines that it prints and the files that it
-- leaves.
theorem runSimulate_reports {data : CatalogData} {c : Catalog} (built : Catalog.build data = .ok c)
    {config : WorldConfig} (positive : config.updateInterval ≠ 0) {files next : FileTree} {path : Option String}
    {store : Option DirectoryStore} (opens : openStore files path = (.ok store,next)) (terrain : Option String)
    (plan : Simulation)
    (room : plan.copies * ((roots c).filter (·.kind.instanceable)).length ≤
      Nat.count (Unrecorded (records store)) IdTable.largestId) :
    let passes := passesIn config.updateInterval plan.step plan.ticks
    let instances := plan.copies * ((roots c).filter (·.kind.isDungeon)).length
    let participants := if passes = 0 then 0 else instances
    ∃ (r : Report) (after : FileTree),
      plan.run (.start c config (tilesIn next terrain) store next) =
        ⟨after,store.map (·.data.instances.length),.ok r⟩ ∧
      runSimulate files (.ok (config,c)) path terrain plan =
        ⟨0,fun times => replayLines (store.map (·.data.instances.length)) ++ reportLines plan r times,none,after⟩ ∧
      (∀ times, (reportLines plan r times)[1]? = some ("Passes: " ++ toString passes ++ ", instances: " ++
        toString instances ++ ", participants in instances: " ++ toString participants)) ∧
      r.exitCode = 0 ∧ r.passes = passes ∧ r.instances = instances ∧ r.participants = participants ∧
      Ascending MapDefinition.order (roots c) ∧
      ∀ before, store = some before → ∃ again, openStore after path = (.ok (some again),after) ∧
        again.data.respawns = before.data.respawns ∧ again.data.corpses = before.data.corpses ∧
        ∀ record, record ∈ again.data.instances ↔ record ∈ before.data.instances ∨
          Added c before.data.instances (openings plan.copies (roots c)) record := by
  intro passed opened entered
  have forest := Catalog.build_forest built
  have shown : ∀ s, store = some s →
      s.data.Numbered ∧ DirectoryStore.Shows next s.root (FileTree.target s.root) s.data := by
    rintro before rfl
    obtain ⟨text,_,opened⟩ := openStore_parts opens
    obtain ⟨root,shows_⟩ := DirectoryStore.openAt_shows opened
    exact ⟨DirectoryStore.openAt_numbered opened,root.symm ▸ shows_⟩
  obtain ⟨s,r,ran,filing,exits,passes,instances,participants⟩ :=
    run_reports forest positive (tilesIn next terrain) shown plan (openings_length .. ▸ room)
  have participants : r.participants = entered := by rw [participants,passes,instances]
  refine ⟨r,s.files,ran,?_,fun times => ?_,exits,passes,instances,participants,forest.ascending.filter _,?_⟩
  · unfold runSimulate
    simp only [opens,ran,simulationOutcome,exits]
  · unfold reportLines
    rw [passes,instances,participants]
    rfl
  · rintro before rfl
    obtain ⟨text,rfl,opened⟩ := openStore_parts opens
    obtain ⟨root,_⟩ := DirectoryStore.openAt_shows opened
    generalize s.store = last at filing
    cases filing with
    | @stored _ last _ filed =>
      have again := filed.shows_.openAt
      rw [root] at again
      refine ⟨⟨.ofText text,last.data⟩,?_,filed.respawns,filed.corpses,filed.instances⟩
      simp only [openStore,again]

-- Beside a saved copy: the gap before it is filled first, and a battleground has copies as well.
theorem runSimulate_reports_gap :
    let data : CatalogData := {maps := [
      {id := ⟨36⟩, kind := .dungeon},{id := ⟨0⟩, kind := .common},{id := ⟨30⟩, kind := .battleground},
      {id := ⟨37⟩, kind := .raid, parent := some ⟨36⟩}]}
    ∃ c files r after again, Catalog.build data = .ok c ∧
      openStore files (some "saves") = (.ok (some ⟨⟨["saves"]⟩,⟨[⟨⟨2⟩,⟨36⟩,.heroic,500⟩],[],[]⟩⟩),files) ∧
      runSimulate files (.ok ({},c)) (some "saves") none ⟨7,4,2⟩ =
        ⟨0,fun times => "Replayed 1 instance ids" :: reportLines ⟨7,4,2⟩ r times,none,after⟩ ∧
      (∀ times, (reportLines ⟨7,4,2⟩ r times)[1]? = some "Passes: 2, instances: 2, participants in instances: 2") ∧
      r.passes = 2 ∧ r.instances = 2 ∧ r.participants = 2 ∧
      openStore after (some "saves") = (.ok (some again),after) ∧
      ∀ record ∈ [(⟨⟨1⟩,⟨30⟩,.normal,0⟩ : InstanceRecord),⟨⟨2⟩,⟨36⟩,.heroic,500⟩,⟨⟨3⟩,⟨30⟩,.normal,0⟩,
        ⟨⟨4⟩,⟨36⟩,.normal,0⟩,⟨⟨5⟩,⟨36⟩,.normal,0⟩], record ∈ again.data.instances := by
  intro data
  obtain ⟨c,built⟩ : ∃ c, Catalog.build data = .ok c := ⟨_,rfl⟩
  obtain ⟨_,first,opened,_⟩ := DirectoryStore.vacant_saves.openAt
  obtain ⟨_,shows_⟩ := DirectoryStore.openAt_shows opened
  let record : InstanceRecord := ⟨⟨2⟩,⟨36⟩,.heroic,500⟩
  have proper : record.id.isBase = false := by decide
  have numbered := DirectoryStore.openAt_numbered opened
  obtain ⟨files,_,_,_,shows_⟩ := DirectoryStore.saveInstance_shown shows_ numbered proper
  have opens : openStore files (some "saves") =
      (.ok (some ⟨⟨["saves"]⟩,⟨[⟨⟨2⟩,⟨36⟩,.heroic,500⟩],[],[]⟩⟩),files) := by
    have named : Route.ofText "saves" = ⟨["saves"]⟩ := by decide
    simp only [openStore,named,shows_.openAt]
    rfl
  have listed : roots c = [{id := ⟨0⟩, kind := .common},{id := ⟨30⟩, kind := .battleground},
      {id := ⟨36⟩, kind := .dungeon}] := by
    cases built
    decide
  have unset (map : MapId) : (c.downscale map .normal).getD .normal = .normal := by
    cases built
    rfl
  let spare := Unrecorded [record]
  have number {n k : Nat} (free : spare n) (place : Nat.count spare n = k) : Nat.nth spare k = n := by
    rw [←place]
    exact Nat.nth_count free
  have room : 2 * ((roots c).filter (·.kind.instanceable)).length ≤ Nat.count spare IdTable.largestId := by
    rw [listed]
    have few : 4 ≤ Nat.count spare 10 := by decide
    exact few.trans (Nat.count_monotone spare (by decide))
  have positive : WorldConfig.updateInterval {} ≠ 0 := by decide
  obtain ⟨r,after,_,ran,printed,_,passes,instances,participants,_,kept⟩ :=
    runSimulate_reports built positive opens none ⟨7,4,2⟩ room
  obtain ⟨again,reopened,_,_,records⟩ := kept _ rfl
  rw [listed] at printed instances participants
  refine ⟨c,files,r,after,again,built,opens,ran,printed,passes,instances,participants,reopened,fun new member => ?_⟩
  rw [records,listed]
  simp only [List.mem_cons,List.not_mem_nil,or_false] at member
  rcases member with rfl | rfl | rfl | rfl | rfl
  · exact .inr ⟨0,_,rfl,(number (by decide) (by decide)).symm,rfl,(unset _).symm,rfl⟩
  · exact .inl List.mem_cons_self
  · exact .inr ⟨1,_,rfl,(number (by decide) (by decide)).symm,rfl,(unset _).symm,rfl⟩
  · exact .inr ⟨2,_,rfl,(number (by decide) (by decide)).symm,rfl,(unset _).symm,rfl⟩
  · exact .inr ⟨3,_,rfl,(number (by decide) (by decide)).symm,rfl,(unset _).symm,rfl⟩

end CommandLine
end LiveMaps
