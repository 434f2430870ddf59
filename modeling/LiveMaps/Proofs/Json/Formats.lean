import LiveMaps.Admission.Participant
import LiveMaps.Config
import LiveMaps.Denial
import LiveMaps.Proofs.Keyed
import LiveMaps.Proofs.Saved.Records
import Mathlib.Data.String.Basic

namespace LiveMaps

namespace Codec
open Json
variable {α β : Type} {codec : Codec α} {value : α}

theorem Faithful.read?_write (faithful : codec.Faithful value) :
    codec.read? (symbols (codec.write value)) = some value := by
  have back : Json.read? ((codec.encode value).chars.map some) = some (codec.encode value) :=
    read?_compact faithful.legible
  rw [Codec.read?,symbols,write,compact,String.toList_ofList,back]
  exact faithful.reads

theorem Faithful.read?_writePretty (faithful : codec.Faithful value) :
    codec.read? (symbols (codec.writePretty value)) = some value := by
  rw [symbols,writePretty,pretty,String.toList_ofList]
  exact faithful.read?

def printers (codec : Codec α) : List (α → String) := [codec.write,codec.writePretty]

theorem Faithful.read?_printed (faithful : codec.Faithful value) {print : α → String}
    (printer : print ∈ codec.printers) : codec.read? (symbols (print value)) = some value := by
  simp only [printers,List.mem_cons,List.not_mem_nil,or_false] at printer
  rcases printer with rfl | rfl
  · exact faithful.read?_write
  · exact faithful.read?_writePretty

def rewrite? (codec : Codec α) (print : α → String) (input : Symbols) : Option String :=
  (codec.read? input).map print

theorem uint8_faithful (n : UInt8) : uint8.Faithful n :=
  (natBelow_faithful n.toNat_lt).via UInt8.ofNat_toNat

theorem bool_faithful (value : Bool) : bool.Faithful value := ⟨rfl,.bool value⟩

theorem string_faithful (value : String) : string.Faithful value := ⟨rfl,.text value⟩

-- Absence is told from presence if nothing present is written as null.
theorem nullable_faithful {value : Option α}
    (present : ∀ v ∈ value, codec.Faithful v ∧ codec.encode v ≠ .null) : codec.nullable.Faithful value := by
  cases value with
  | none => exact ⟨rfl,.null⟩
  | some v =>
    obtain ⟨faithful,proper⟩ := present v rfl
    refine ⟨?_,faithful.legible⟩
    have reads := faithful.decode_encode
    simp only [Reads,nullable,reads,Option.map_some]

theorem numberSet_faithful {numbers : List UInt32} (ascending : Ordered.Ascending UInt32.toNat numbers) :
    numberSet.Faithful numbers := by
  have list := list_faithful fun n (_ : n ∈ numbers) => uint32_faithful n
  refine ⟨?_,list.legible⟩
  simp only [Reads,numberSet,list.decode_encode,Option.map_some,Ordered.ofList_ascending ascending]

theorem textTable_faithful {table : List (String × String)} (rising : Ordered.Ascending Prod.fst table) :
    textTable.Faithful table := by
  constructor
  · have entries : (table.map ((fun member : String × Json => (some member.1,member.2)) ∘
        fun entry => (entry.1,Json.text entry.2))).mapM
        (fun member : Option String × Json => do return (← member.1,← string.decode member.2)) = some table := by
      rw [List.mapM_map]
      exact List.mapM_pure.trans (congrArg some (List.map_id table))
    simp only [Reads,textTable,record,List.map_map]
    rw [entries]
    exact congrArg some (Ordered.ofList_ascending rising)
  · refine .record fun member among => ?_
    obtain ⟨entry,_,rfl⟩ := List.mem_map.mp among
    exact .text entry.2

theorem optional_holds {holds : α → Prop} {name : String} {default : α} {members : List (String × Json)}
    (decoded : ∀ document value, codec.decode document = some value → holds value) (absent : holds default)
    (found : codec.optional name default members = some value) : holds value := by
  unfold Codec.optional at found
  split at found
  · cases found
    exact absent
  · rename_i document _
    exact decoded document value found

theorem list_holds {holds : α → Prop} (decoded : ∀ document value, codec.decode document = some value → holds value)
    {document : Json} {values : List α} (found : codec.list.decode document = some values) :
    ∀ value ∈ values, holds value := by
  cases document with
  | array items =>
    have each : items.mapM codec.decode = some values := found
    clear found
    induction items generalizing values with
    | nil =>
      cases each
      exact List.forall_mem_nil _
    | cons item items ih =>
      rw [List.mapM_cons] at each
      obtain ⟨value,first,rest⟩ := Option.bind_eq_some_iff.mp each
      obtain ⟨others,later,built⟩ := Option.bind_eq_some_iff.mp rest
      cases built
      exact List.forall_mem_cons.mpr ⟨decoded item value first,ih later⟩
  | _ => cases found

theorem numberSet_ascending (document : Json) (numbers : List UInt32)
    (decoded : numberSet.decode document = some numbers) : Ordered.Ascending UInt32.toNat numbers := by
  obtain ⟨entries,_,rfl⟩ := Option.map_eq_some_iff.mp decoded
  exact Ordered.insertAll_ascending .nil entries

theorem textTable_rising (document : Json) (table : List (String × String))
    (decoded : textTable.decode document = some table) : Ordered.Ascending Prod.fst table := by
  cases document with
  | object members =>
    obtain ⟨entries,_,built⟩ := Option.bind_eq_some_iff.mp decoded
    cases built
    exact Ordered.insertAll_ascending .nil entries
  | _ => cases decoded

end Codec

open Codec Json

theorem MapKind.codec_faithful (kind : MapKind) : codec.Faithful kind :=
  choice_faithful (by cases kind <;> rfl)

theorem GroupKind.codec_faithful (kind : GroupKind) : codec.Faithful kind :=
  choice_faithful (by cases kind <;> rfl)

theorem Denial.codec_faithful (denial : Denial) : codec.Faithful denial :=
  choice_faithful (by cases denial <;> rfl)

theorem Decision.codec_faithful (decision : Decision) : codec.Faithful decision := by
  cases decision with
  | allowed => exact ⟨rfl,.text "Allowed"⟩
  | denied reason =>
    have denial := Denial.codec_faithful reason
    constructor
    · simp [Reads,codec,encode,decode,record,denial.decode_encode]
    · refine .record ?_
      simp only [List.forall_mem_cons]
      exact ⟨denial.legible,List.forall_mem_nil _⟩

theorem nullable_mapId_faithful (map : Option MapId) : mapId.nullable.Faithful map :=
  nullable_faithful fun v _ => ⟨mapId_faithful v,nofun⟩

theorem nullable_uint32_faithful (n : Option UInt32) : uint32.nullable.Faithful n :=
  nullable_faithful fun v _ => ⟨uint32_faithful v,nofun⟩

-- A value is orderly if its sets and tables are in the order in which they are kept.

def MapDefinition.Orderly (d : MapDefinition) : Prop := Ordered.Ascending Prod.fst d.names

def CatalogData.Orderly (data : CatalogData) : Prop := ∀ d ∈ data.maps, d.Orderly

structure ParticipantState.Orderly (p : ParticipantState) : Prop where
  items : Ordered.Ascending UInt32.toNat p.items
  completedQuests : Ordered.Ascending UInt32.toNat p.completedQuests
  achievements : Ordered.Ascending UInt32.toNat p.achievements

theorem MapDefinition.codec_faithful {d : MapDefinition} (orderly : d.Orderly) : codec.Faithful d := by
  have id := mapId_faithful d.id
  have kind := MapKind.codec_faithful d.kind
  have parent := nullable_mapId_faithful d.parent
  have cosmetic := nullable_mapId_faithful d.cosmeticParent
  have expansion := uint8_faithful d.expansion
  have names := textTable_faithful orderly
  constructor
  · exact read_on (members?_record rfl (by decide)) <| read_on (id.required rfl) <|
      read_on (kind.required rfl) <| read_on (parent.optional rfl) <| read_on (cosmetic.optional rfl) <|
      read_on (expansion.optional rfl) <| read_on (names.optional rfl) rfl
  · refine .record ?_
    simp only [List.forall_mem_cons]
    exact ⟨id.legible,kind.legible,parent.legible,cosmetic.legible,expansion.legible,names.legible,
      List.forall_mem_nil _⟩

theorem InstanceTemplate.codec_faithful (t : InstanceTemplate) : codec.Faithful t := by
  have map := mapId_faithful t.map
  have parent := nullable_mapId_faithful t.parent
  have maxPlayers := uint32_faithful t.maxPlayers
  constructor
  · exact read_on (members?_record rfl (by decide)) <| read_on (map.required rfl) <|
      read_on (parent.optional rfl) <| read_on (maxPlayers.required rfl) rfl
  · refine .record ?_
    simp only [List.forall_mem_cons]
    exact ⟨map.legible,parent.legible,maxPlayers.legible,List.forall_mem_nil _⟩

theorem AccessRequirement.codec_faithful (r : AccessRequirement) : codec.Faithful r := by
  have map := mapId_faithful r.map
  have difficulty := Difficulty.codec_faithful r.difficulty
  have minLevel := uint8_faithful r.minLevel
  have item := nullable_uint32_faithful r.requiredItem
  have quest := nullable_uint32_faithful r.requiredQuest
  have achievement := nullable_uint32_faithful r.requiredAchievement
  constructor
  · exact read_on (members?_record rfl (by decide)) <| read_on (map.required rfl) <|
      read_on (difficulty.required rfl) <| read_on (minLevel.optional rfl) <| read_on (item.optional rfl) <|
      read_on (quest.optional rfl) <| read_on (achievement.optional rfl) rfl
  · refine .record ?_
    simp only [List.forall_mem_cons]
    exact ⟨map.legible,difficulty.legible,minLevel.legible,item.legible,quest.legible,achievement.legible,
      List.forall_mem_nil _⟩

theorem MapDifficulties.codec_faithful (d : MapDifficulties) : codec.Faithful d := by
  have map := mapId_faithful d.map
  have offered := list_faithful fun value (_ : value ∈ d.offered) => Difficulty.codec_faithful value
  constructor
  · exact read_on (members?_record rfl (by decide)) <| read_on (map.required rfl) <|
      read_on (offered.required rfl) rfl
  · refine .record ?_
    simp only [List.forall_mem_cons]
    exact ⟨map.legible,offered.legible,List.forall_mem_nil _⟩

theorem CatalogData.codec_faithful {data : CatalogData} (orderly : data.Orderly) : codec.Faithful data := by
  have maps := list_faithful fun d member => MapDefinition.codec_faithful (orderly d member)
  have templates := list_faithful fun t (_ : t ∈ data.templates) => InstanceTemplate.codec_faithful t
  have difficulties := list_faithful fun d (_ : d ∈ data.difficulties) => MapDifficulties.codec_faithful d
  have requirements := list_faithful fun r (_ : r ∈ data.requirements) => AccessRequirement.codec_faithful r
  constructor
  · exact read_on (members?_record rfl (by decide)) <| read_on (maps.required rfl) <|
      read_on (templates.optional rfl) <| read_on (difficulties.optional rfl) <|
      read_on (requirements.optional rfl) rfl
  · refine .record ?_
    simp only [List.forall_mem_cons]
    exact ⟨maps.legible,templates.legible,difficulties.legible,requirements.legible,List.forall_mem_nil _⟩

theorem AdmissionConfig.codec_faithful (c : AdmissionConfig) : codec.Faithful c := by
  have expansion := uint8_faithful c.activeExpansion
  have ignored := bool_faithful c.ignoreRaidRequirement
  have limit := uint32_faithful c.maxInstancesPerHour
  have locale := string_faithful c.defaultLocale
  constructor
  · exact read_on (members?_record rfl (by decide)) <| read_on (expansion.optional rfl) <|
      read_on (ignored.optional rfl) <| read_on (limit.optional rfl) <| read_on (locale.optional rfl) rfl
  · refine .record ?_
    simp only [List.forall_mem_cons]
    exact ⟨expansion.legible,ignored.legible,limit.legible,locale.legible,List.forall_mem_nil _⟩

theorem WorldConfig.codec_faithful (c : WorldConfig) : codec.Faithful c := by
  have interval := uint32_faithful c.updateInterval
  have threads := uint64_faithful c.workerThreads
  have cleanUp := uint32_faithful c.gridCleanUpDelay
  have unload := uint32_faithful c.unloadDelay
  have admission := AdmissionConfig.codec_faithful c.admission
  constructor
  · exact read_on (members?_record rfl (by decide)) <| read_on (interval.optional rfl) <|
      read_on (threads.optional rfl) <| read_on (cleanUp.optional rfl) <| read_on (unload.optional rfl) <|
      read_on (admission.optional rfl) rfl
  · refine .record ?_
    simp only [List.forall_mem_cons]
    exact ⟨interval.legible,threads.legible,cleanUp.legible,unload.legible,admission.legible,
      List.forall_mem_nil _⟩

theorem InstanceBind.codec_faithful (b : InstanceBind) : codec.Faithful b := by
  have map := mapId_faithful b.map
  have id := instanceId_faithful b.instanceId
  have difficulty := Difficulty.codec_faithful b.difficulty
  have permanent := bool_faithful b.permanent
  constructor
  · exact read_on (members?_record rfl (by decide)) <| read_on (map.required rfl) <|
      read_on (id.required rfl) <| read_on (difficulty.required rfl) <| read_on (permanent.optional rfl) rfl
  · refine .record ?_
    simp only [List.forall_mem_cons]
    exact ⟨map.legible,id.legible,difficulty.legible,permanent.legible,List.forall_mem_nil _⟩

theorem GroupState.codec_faithful (g : GroupState) : codec.Faithful g := by
  have kind := GroupKind.codec_faithful g.kind
  have finder := bool_faithful g.dungeonFinder
  have binds := list_faithful fun b (_ : b ∈ g.binds) => InstanceBind.codec_faithful b
  constructor
  · exact read_on (members?_record rfl (by decide)) <| read_on (kind.optional rfl) <|
      read_on (finder.optional rfl) <| read_on (binds.optional rfl) rfl
  · refine .record ?_
    simp only [List.forall_mem_cons]
    exact ⟨kind.legible,finder.legible,binds.legible,List.forall_mem_nil _⟩

theorem ParticipantState.codec_faithful {p : ParticipantState} (fresh : ParticipantId) (orderly : p.Orderly)
    (lasting : ∀ l ∈ p.corpse, l.Lasting) : (codec fresh).Faithful p := by
  have id := participantId_faithful p.id
  have name := string_faithful p.name
  have level := uint8_faithful p.level
  have gameMaster := bool_faithful p.gameMaster
  have alive := bool_faithful p.alive
  have corpse : WorldLocation.codec.nullable.Faithful p.corpse :=
    nullable_faithful fun l member => ⟨WorldLocation.codec_faithful (lasting l member),nofun⟩
  have dungeon := Difficulty.codec_faithful p.dungeonDifficulty
  have raid := Difficulty.codec_faithful p.raidDifficulty
  have items := numberSet_faithful orderly.items
  have quests := numberSet_faithful orderly.completedQuests
  have achievements := numberSet_faithful orderly.achievements
  have group : GroupState.codec.nullable.Faithful p.group :=
    nullable_faithful fun g _ => ⟨GroupState.codec_faithful g,nofun⟩
  have binds := list_faithful fun b (_ : b ∈ p.binds) => InstanceBind.codec_faithful b
  have recent := list_faithful fun id (_ : id ∈ p.recentInstances) => instanceId_faithful id
  have reconnecting := bool_faithful p.reconnecting
  constructor
  · exact read_on (members?_record rfl (by decide)) <| read_on (id.optional rfl) <|
      read_on (name.optional rfl) <| read_on (level.optional rfl) <| read_on (gameMaster.optional rfl) <|
      read_on (alive.optional rfl) <| read_on (corpse.optional rfl) <| read_on (dungeon.optional rfl) <|
      read_on (raid.optional rfl) <| read_on (items.optional rfl) <| read_on (quests.optional rfl) <|
      read_on (achievements.optional rfl) <| read_on (group.optional rfl) <| read_on (binds.optional rfl) <|
      read_on (recent.optional rfl) <| read_on (reconnecting.optional rfl) rfl
  · refine .record ?_
    simp only [List.forall_mem_cons]
    exact ⟨id.legible,name.legible,level.legible,gameMaster.legible,alive.legible,corpse.legible,dungeon.legible,
      raid.legible,items.legible,quests.legible,achievements.legible,group.legible,binds.legible,recent.legible,
      reconnecting.legible,List.forall_mem_nil _⟩

theorem MapDefinition.decoded_orderly (document : Json) (d : MapDefinition)
    (decoded : codec.decode document = some d) : d.Orderly := by
  -- Its members, and five of its fields before the names.
  iterate 6 obtain ⟨_,_,decoded⟩ := Option.bind_eq_some_iff.mp decoded
  obtain ⟨_,names,decoded⟩ := Option.bind_eq_some_iff.mp decoded
  cases decoded
  have rising : Ordered.Ascending Prod.fst _ := optional_holds textTable_rising .nil names
  exact rising

theorem CatalogData.decoded_orderly (document : Json) (data : CatalogData)
    (decoded : codec.decode document = some data) : data.Orderly := by
  obtain ⟨_,_,decoded⟩ := Option.bind_eq_some_iff.mp decoded
  obtain ⟨_,maps,decoded⟩ := Option.bind_eq_some_iff.mp decoded
  iterate 3 obtain ⟨_,_,decoded⟩ := Option.bind_eq_some_iff.mp decoded
  cases decoded
  obtain ⟨_,_,listed⟩ := Option.bind_eq_some_iff.mp maps
  exact list_holds MapDefinition.decoded_orderly listed

theorem ParticipantState.decoded_orderly {fresh : ParticipantId} (document : Json) (p : ParticipantState)
    (decoded : (codec fresh).decode document = some p) : p.Orderly := by
  -- Its members, and eight of its fields before the first set.
  iterate 9 obtain ⟨_,_,decoded⟩ := Option.bind_eq_some_iff.mp decoded
  obtain ⟨_,items,decoded⟩ := Option.bind_eq_some_iff.mp decoded
  obtain ⟨_,quests,decoded⟩ := Option.bind_eq_some_iff.mp decoded
  obtain ⟨_,achievements,decoded⟩ := Option.bind_eq_some_iff.mp decoded
  iterate 4 obtain ⟨_,_,decoded⟩ := Option.bind_eq_some_iff.mp decoded
  cases decoded
  exact ⟨optional_holds numberSet_ascending .nil items,optional_holds numberSet_ascending .nil quests,
    optional_holds numberSet_ascending .nil achievements⟩

end LiveMaps
