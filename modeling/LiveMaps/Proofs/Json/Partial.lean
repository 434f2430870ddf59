import LiveMaps.Proofs.Json.Formats
import Mathlib.Data.List.Perm.Basic

namespace LiveMaps

namespace Json
variable {members : List (String × Json)} {name : String} {document : Json}

def fields : Json → List (String × Json)
  | .object members => members.filterMap (fun member => member.1.map (fun name => (name,member.2)))
  | _ => []

def replaced (members : List (String × Json)) (name : String) (document : Json) : List (String × Json) :=
  members.map (fun member => if member.1 = name then (name,document) else member)

-- An object with all members of a record but the removed ones, in any order, and besides with any
-- members whose names the record does not know. Those may be repeated.
def Cut (removed : List String) (members : List (String × Json)) (document : Json) : Prop :=
  ∃ given others, document = record given ∧
    given.Perm (members.filter (fun member => member.1 ∉ removed) ++ others) ∧
    ∀ member ∈ others, member.1 ∉ members.map Prod.fst ∧ member.2.Legible

variable {removed : List String}

theorem fields_record (members : List (String × Json)) : (record members).fields = members :=
  List.filterMap_map.trans List.filterMap_some

theorem Legible.fields (legible : document.Legible) : ∀ member ∈ document.fields, member.2.Legible := by
  cases legible with
  | record each =>
    rw [fields_record]
    exact each
  | _ => exact List.forall_mem_nil _

theorem replaced_legible (each : ∀ member ∈ members, member.2.Legible) (name : String) (legible : document.Legible) :
    ∀ member ∈ replaced members name document, member.2.Legible := by
  intro member among
  obtain ⟨old,known,rfl⟩ := List.mem_map.mp among
  split
  · exact legible
  · exact each old known

theorem Cut.legible (cut : Cut removed members document) (each : ∀ member ∈ members, member.2.Legible) :
    document.Legible := by
  obtain ⟨given,others,rfl,order,unknown⟩ := cut
  apply Legible.record
  intro member among
  rcases List.mem_append.mp (order.mem_iff.mp among) with kept | other
  · exact each member (List.mem_of_mem_filter kept)
  · exact (unknown member other).2

theorem lookup_iff (distinct : (members.map Prod.fst).Nodup) :
    members.lookup name = some document ↔ (name,document) ∈ members := by
  constructor
  · intro found
    obtain ⟨front,rest,rfl,_⟩ := List.lookup_eq_some_iff.mp found
    exact List.mem_append_right _ List.mem_cons_self
  · intro member
    obtain ⟨front,rest,rfl⟩ := List.append_of_mem member
    apply List.lookup_eq_some_iff.mpr
    refine ⟨front,rest,rfl,?_⟩
    intro earlier among
    rw [List.map_append,List.map_cons] at distinct
    have apart := (List.nodup_append.mp distinct).2.2 earlier.1 (List.mem_map_of_mem among) name List.mem_cons_self
    exact bne_iff_ne.mpr apart.symm

def Left (removed : List String) (members known : List (String × Json)) : Prop :=
  ∀ name, known.lookup name = if name ∈ removed then none else members.lookup name

theorem Cut.members? (cut : Cut removed members document) (names : List String)
    (named : members.map Prod.fst = names) (distinct : names.Nodup) :
    ∃ known, Codec.members? names document = some known ∧ Left removed members known := by
  subst named
  obtain ⟨given,others,rfl,order,unknown⟩ := cut
  have passed : others.filter (fun member => (members.map Prod.fst).contains member.1) = [] := by
    apply List.filter_eq_nil_iff.mpr
    intro member among
    rw [List.contains_iff_mem]
    exact (unknown member among).1
  have taken : (members.filter (fun member => member.1 ∉ removed)).filter
      (fun member => (members.map Prod.fst).contains member.1) = members.filter (fun member => member.1 ∉ removed) := by
    apply List.filter_eq_self.mpr
    intro member among
    rw [List.contains_iff_mem]
    exact List.mem_map_of_mem (List.mem_of_mem_filter among)
  have known := order.filter (fun member => (members.map Prod.fst).contains member.1)
  rw [List.filter_append,passed,taken,List.append_nil] at known
  have once := (known.map Prod.fst).nodup_iff.mpr (distinct.sublist (List.filter_sublist.map Prod.fst))
  refine ⟨_,(Codec.members?_known _ given).trans (if_pos once),?_⟩
  intro name
  apply Option.ext
  intro document
  rw [lookup_iff once,known.mem_iff,List.mem_filter]
  split
  · rename_i gone
    simp [gone]
  · rename_i kept
    simp [kept,lookup_iff distinct]

end Json

namespace Codec
open Json
variable {α : Type} {codec : Codec α} {value default : α} {name : String} {document : Json} {removed : List String}
  {members known : List (String × Json)}

def remaining (removed : List String) (name : String) (default value : α) : α :=
  if name ∈ removed then default else value

theorem optional_left (left : Left removed members known) (found : members.lookup name = some document)
    (reads : codec.decode document = some value) :
    codec.optional name default known = some (remaining removed name default value) := by
  by_cases gone : name ∈ removed
  · rw [Codec.optional,left name,remaining,if_pos gone,if_pos gone]
  · rw [Codec.optional,left name,remaining,if_neg gone,if_neg gone,found]
    exact reads

theorem Faithful.left (faithful : codec.Faithful value) (left : Left removed members known)
    (found : members.lookup name = some (codec.encode value)) :
    codec.optional name default known = some (remaining removed name default value) :=
  optional_left left found faithful.reads

theorem read?_decode (legible : document.Legible) (style : Style) :
    codec.read? (written (style.chars 0 document)) = codec.decode document := by
  rw [Codec.read?,Json.read?_styled legible style]
  rfl

end Codec

open Codec Json

def AdmissionConfig.without (c : AdmissionConfig) (removed : List String) : AdmissionConfig :=
  let default : AdmissionConfig := {}
  { activeExpansion := remaining removed "active_expansion" default.activeExpansion c.activeExpansion
    ignoreRaidRequirement :=
      remaining removed "ignore_raid_requirement" default.ignoreRaidRequirement c.ignoreRaidRequirement
    maxInstancesPerHour :=
      remaining removed "max_instances_per_hour" default.maxInstancesPerHour c.maxInstancesPerHour
    defaultLocale := remaining removed "default_locale" default.defaultLocale c.defaultLocale }

def WorldConfig.without (c : WorldConfig) (removed inner : List String) : WorldConfig :=
  let default : WorldConfig := {}
  { updateInterval := remaining removed "map_update_interval_ms" default.updateInterval c.updateInterval
    workerThreads := remaining removed "worker_threads" default.workerThreads c.workerThreads
    gridCleanUpDelay := remaining removed "grid_clean_up_delay_ms" default.gridCleanUpDelay c.gridCleanUpDelay
    unloadDelay := remaining removed "instance_unload_delay_ms" default.unloadDelay c.unloadDelay
    admission := remaining removed "admission" default.admission (c.admission.without inner) }

def GroupState.without (g : GroupState) (removed : List String) : GroupState :=
  let default : GroupState := {}
  { kind := remaining removed "kind" default.kind g.kind
    dungeonFinder := remaining removed "dungeon_finder" default.dungeonFinder g.dungeonFinder
    binds := remaining removed "binds" default.binds g.binds }

def ParticipantState.without (p : ParticipantState) (fresh : ParticipantId) (removed inner : List String) :
    ParticipantState :=
  let default : ParticipantState := {id := fresh}
  { id := remaining removed "id" default.id p.id
    name := remaining removed "name" default.name p.name
    level := remaining removed "level" default.level p.level
    gameMaster := remaining removed "game_master" default.gameMaster p.gameMaster
    alive := remaining removed "alive" default.alive p.alive
    corpse := remaining removed "corpse" default.corpse p.corpse
    dungeonDifficulty := remaining removed "dungeon_difficulty" default.dungeonDifficulty p.dungeonDifficulty
    raidDifficulty := remaining removed "raid_difficulty" default.raidDifficulty p.raidDifficulty
    items := remaining removed "items" default.items p.items
    completedQuests := remaining removed "completed_quests" default.completedQuests p.completedQuests
    achievements := remaining removed "achievements" default.achievements p.achievements
    group := remaining removed "group" default.group (p.group.map (fun g => g.without inner))
    binds := remaining removed "binds" default.binds p.binds
    recentInstances := remaining removed "recent_instances" default.recentInstances p.recentInstances
    reconnecting := remaining removed "reconnecting" default.reconnecting p.reconnecting }

variable {removed inner : List String} {document : Json}

theorem AdmissionConfig.decode_cut (c : AdmissionConfig) (cut : Cut removed (codec.encode c).fields document) :
    codec.decode document = some (c.without removed) ∧ document.Legible := by
  have expansion := uint8_faithful c.activeExpansion
  have ignored := bool_faithful c.ignoreRaidRequirement
  have limit := uint32_faithful c.maxInstancesPerHour
  have locale := string_faithful c.defaultLocale
  obtain ⟨known,taken,left⟩ := cut.members? memberNames rfl (by decide)
  constructor
  · exact read_on taken <| read_on (expansion.left left rfl) <| read_on (ignored.left left rfl) <|
      read_on (limit.left left rfl) <| read_on (locale.left left rfl) rfl
  · exact cut.legible (codec_faithful c).legible.fields

theorem WorldConfig.decode_cut (c : WorldConfig) {admission : Json}
    (nested : Cut inner (AdmissionConfig.codec.encode c.admission).fields admission)
    (cut : Cut removed (replaced (codec.encode c).fields "admission" admission) document) :
    codec.decode document = some (c.without removed inner) ∧ document.Legible := by
  have interval := uint32_faithful c.updateInterval
  have threads := uint64_faithful c.workerThreads
  have cleanUp := uint32_faithful c.gridCleanUpDelay
  have unload := uint32_faithful c.unloadDelay
  obtain ⟨reads,legible⟩ := AdmissionConfig.decode_cut c.admission nested
  obtain ⟨known,taken,left⟩ := cut.members? memberNames rfl (by decide)
  constructor
  · exact read_on taken <| read_on (interval.left left rfl) <| read_on (threads.left left rfl) <|
      read_on (cleanUp.left left rfl) <| read_on (unload.left left rfl) <|
      read_on (optional_left left rfl reads) rfl
  · exact cut.legible (replaced_legible (codec_faithful c).legible.fields "admission" legible)

theorem GroupState.decode_cut (g : GroupState) (cut : Cut removed (codec.encode g).fields document) :
    codec.decode document = some (g.without removed) ∧ document.Legible := by
  have kind := GroupKind.codec_faithful g.kind
  have finder := bool_faithful g.dungeonFinder
  have binds := list_faithful fun b (_ : b ∈ g.binds) => InstanceBind.codec_faithful b
  obtain ⟨known,taken,left⟩ := cut.members? memberNames rfl (by decide)
  constructor
  · exact read_on taken <| read_on (kind.left left rfl) <| read_on (finder.left left rfl) <|
      read_on (binds.left left rfl) rfl
  · exact cut.legible (codec_faithful g).legible.fields

theorem GroupState.nullable_cut {group : Option GroupState} (absent : group = none → document = .null)
    (nested : ∀ g ∈ group, Cut removed (codec.encode g).fields document) :
    codec.nullable.decode document = some (group.map (fun g => g.without removed)) ∧ document.Legible := by
  cases group with
  | none =>
    rw [absent rfl]
    exact ⟨rfl,.null⟩
  | some g =>
    have cut := nested g rfl
    obtain ⟨reads,legible⟩ := GroupState.decode_cut g cut
    obtain ⟨given,others,rfl,_⟩ := cut
    exact ⟨congrArg (Option.map some) reads,legible⟩

theorem ParticipantState.decode_cut {p : ParticipantState} (fresh : ParticipantId) (orderly : p.Orderly)
    (finite : ∀ l ∈ p.corpse, l.isFinite = true) {group : Json} (absent : p.group = none → group = .null)
    (nested : ∀ g ∈ p.group, Cut inner (GroupState.codec.encode g).fields group)
    (cut : Cut removed (replaced ((codec fresh).encode p).fields "group" group) document) :
    (codec fresh).decode document = some (p.without fresh removed inner) ∧ document.Legible := by
  have lasting : ∀ l ∈ p.corpse, l.Lasting := fun l member => WorldLocation.lasting_of_finite (finite l member)
  have whole := codec_faithful fresh orderly lasting
  have id := participantId_faithful p.id
  have name := string_faithful p.name
  have level := uint8_faithful p.level
  have gameMaster := bool_faithful p.gameMaster
  have alive := bool_faithful p.alive
  have corpse : WorldLocation.codec.nullable.Faithful p.corpse :=
    nullable_faithful fun l member => ⟨WorldLocation.codec_faithful (lasting l member),nofun⟩
  have dungeon := Difficulty.codec_faithful p.dungeonDifficulty
  have raid := Difficulty.codec_faithful p.raidDifficulty
  have items := numberSet_faithful orderly.items
  have quests := numberSet_faithful orderly.completedQuests
  have achievements := numberSet_faithful orderly.achievements
  have binds := list_faithful fun b (_ : b ∈ p.binds) => InstanceBind.codec_faithful b
  have recent := list_faithful fun id (_ : id ∈ p.recentInstances) => instanceId_faithful id
  have reconnecting := bool_faithful p.reconnecting
  obtain ⟨reads,legible⟩ := GroupState.nullable_cut absent nested
  obtain ⟨known,taken,left⟩ := cut.members? memberNames rfl (by decide)
  constructor
  · exact read_on taken <| read_on (id.left left rfl) <| read_on (name.left left rfl) <|
      read_on (level.left left rfl) <| read_on (gameMaster.left left rfl) <| read_on (alive.left left rfl) <|
      read_on (corpse.left left rfl) <| read_on (dungeon.left left rfl) <| read_on (raid.left left rfl) <|
      read_on (items.left left rfl) <| read_on (quests.left left rfl) <| read_on (achievements.left left rfl) <|
      read_on (optional_left left rfl reads) <| read_on (binds.left left rfl) <| read_on (recent.left left rfl) <|
      read_on (reconnecting.left left rfl) rfl
  · exact cut.legible (replaced_legible whole.legible.fields "group" legible)

-- A document that gives some members of a value, and others that nobody knows, is read as the value with
-- the missing ones at their defaults, however it is laid out.
theorem partial_documents (style : Style) (removed inner : List String) (document : Json) :
    (∀ (c : WorldConfig) (admission : Json), Cut inner (AdmissionConfig.codec.encode c.admission).fields admission →
      Cut removed (replaced (WorldConfig.codec.encode c).fields "admission" admission) document →
      WorldConfig.codec.read? (written (style.chars 0 document)) = some (c.without removed inner) ∧
      WorldConfig.ofSymbols (written (style.chars 0 document)) =
        if (c.without removed inner).updateInterval = 0 then .error .zeroInterval else .ok (c.without removed inner)) ∧
    ∀ (fresh : ParticipantId) (p : ParticipantState) (group : Json), p.Orderly → (∀ l ∈ p.corpse, l.isFinite = true) →
      (p.group = none → group = .null) → (∀ g ∈ p.group, Cut inner (GroupState.codec.encode g).fields group) →
      Cut removed (replaced ((ParticipantState.codec fresh).encode p).fields "group" group) document →
      (ParticipantState.codec fresh).read? (written (style.chars 0 document)) = some (p.without fresh removed inner) := by
  constructor
  · intro c admission nested cut
    obtain ⟨reads,legible⟩ := WorldConfig.decode_cut c nested cut
    have read := (read?_decode legible style).trans reads
    refine ⟨read,?_⟩
    rw [WorldConfig.ofSymbols,read]
    rfl
  · intro fresh p group orderly finite absent nested cut
    obtain ⟨reads,legible⟩ := ParticipantState.decode_cut fresh orderly finite absent nested cut
    exact (read?_decode legible style).trans reads

-- Two members are unknown and of one name, and what is left stands in another order than it is written in.
theorem partial_documents_few :
    let admission := record [("active_expansion",.nat 3)]
    let config := record [("colour",.null),("admission",admission),("worker_threads",.nat 4),("colour",.bool true)]
    let group := record [("kind",.text "raid"),("size",.array [])]
    let participant := record [("group",group),("level",.nat 70),("id",participantId.encode (.ofNat 7))]
    WorldConfig.ofSymbols (written (Style.pretty.chars 0 config)) =
      .ok {workerThreads := 4, admission := {activeExpansion := 3}} ∧
    (ParticipantState.codec .nil).read? (written (Style.compact.chars 0 participant)) =
      some {id := .ofNat 7, level := 70, group := some {kind := .raid}} := by
  intro admission config group participant
  constructor
  · let whole : WorldConfig := {updateInterval := 0, workerThreads := 4, admission := ⟨3,true,0,""⟩}
    have nested : Cut ["ignore_raid_requirement","max_instances_per_hour","default_locale"]
        (AdmissionConfig.codec.encode whole.admission).fields admission :=
      ⟨_,[],rfl,.refl _,List.forall_mem_nil _⟩
    have cut : Cut ["map_update_interval_ms","grid_clean_up_delay_ms","instance_unload_delay_ms"]
        (replaced (WorldConfig.codec.encode whole).fields "admission" admission) config := by
      refine ⟨_,[("colour",.null),("colour",.bool true)],rfl,?_,?_⟩
      · exact (List.reverse_perm [("worker_threads",.nat 4),("admission",admission),("colour",.null)]).append_right
          [("colour",.bool true)]
      · rw [List.forall_mem_cons,List.forall_mem_singleton]
        exact ⟨⟨by decide,.null⟩,⟨by decide,.bool true⟩⟩
    exact ((partial_documents .pretty _ _ config).1 whole admission nested cut).2
  · let whole : ParticipantState := {
      id := .ofNat 7, name := "a", level := 70, gameMaster := true, alive := false
      corpse := some ⟨⟨4⟩,⟨0x3fc00000⟩,⟨0⟩,⟨0xc1200000⟩⟩, items := [3,70000]
      group := some ⟨.raid,true,[⟨⟨36⟩,⟨7⟩,.mythic,true⟩]⟩, recentInstances := [⟨1⟩] }
    have finite : ∀ l ∈ whole.corpse, l.isFinite = true := by
      intro l member
      cases member
      rfl
    have nested : ∀ g ∈ whole.group, Cut ["dungeon_finder","binds"] (GroupState.codec.encode g).fields group := by
      intro g member
      cases member
      refine ⟨_,[("size",.array [])],rfl,.refl _,?_⟩
      rw [List.forall_mem_singleton]
      exact ⟨by decide,.array (List.forall_mem_nil _)⟩
    have cut : Cut ["name","game_master","alive","corpse","dungeon_difficulty","raid_difficulty","items",
        "completed_quests","achievements","binds","recent_instances","reconnecting"]
        (replaced ((ParticipantState.codec .nil).encode whole).fields "group" group) participant :=
      ⟨_,[],rfl,List.reverse_perm [("id",participantId.encode (.ofNat 7)),("level",.nat 70),("group",group)],
        List.forall_mem_nil _⟩
    exact (partial_documents .compact _ _ participant).2 .nil whole group ⟨by decide,by decide,by decide⟩ finite nofun
      nested cut

end LiveMaps
