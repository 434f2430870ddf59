import LiveMaps.Proofs.Json.Formats

namespace LiveMaps
open Json

inductive Kind where
  | mapId
  | instanceId
  | participantId
  | difficulty
  | mapKind
  | groupKind
  | denial
  | decision
  | location
  | mapDefinition
  | instanceTemplate
  | accessRequirement
  | mapDifficulties
  | catalogData
  | admissionConfig
  | worldConfig
  | instanceBind
  | groupState
  | participantState
  | instanceRecord
  | respawnEntry
  | corpseEntry
  | storeMeta
  deriving DecidableEq, Repr

namespace Kind

abbrev Value : Kind → Type
  | .mapId => MapId
  | .instanceId => InstanceId
  | .participantId => ParticipantId
  | .difficulty => Difficulty
  | .mapKind => MapKind
  | .groupKind => GroupKind
  | .denial => Denial
  | .decision => Decision
  | .location => WorldLocation
  | .mapDefinition => MapDefinition
  | .instanceTemplate => InstanceTemplate
  | .accessRequirement => AccessRequirement
  | .mapDifficulties => MapDifficulties
  | .catalogData => CatalogData
  | .admissionConfig => AdmissionConfig
  | .worldConfig => WorldConfig
  | .instanceBind => InstanceBind
  | .groupState => GroupState
  | .participantState => ParticipantState
  | .instanceRecord => InstanceRecord
  | .respawnEntry => RespawnEntry
  | .corpseEntry => CorpseEntry
  | .storeMeta => StoreMeta

-- Reading a participant takes a fresh id along, for a document without one.
def codec (fresh : ParticipantId) : (kind : Kind) → Codec kind.Value
  | .mapId => Codec.mapId
  | .instanceId => Codec.instanceId
  | .participantId => Codec.participantId
  | .difficulty => Difficulty.codec
  | .mapKind => MapKind.codec
  | .groupKind => GroupKind.codec
  | .denial => Denial.codec
  | .decision => Decision.codec
  | .location => WorldLocation.codec
  | .mapDefinition => MapDefinition.codec
  | .instanceTemplate => InstanceTemplate.codec
  | .accessRequirement => AccessRequirement.codec
  | .mapDifficulties => MapDifficulties.codec
  | .catalogData => CatalogData.codec
  | .admissionConfig => AdmissionConfig.codec
  | .worldConfig => WorldConfig.codec
  | .instanceBind => InstanceBind.codec
  | .groupState => GroupState.codec
  | .participantState => ParticipantState.codec fresh
  | .instanceRecord => InstanceRecord.codec
  | .respawnEntry => RespawnEntry.codec
  | .corpseEntry => CorpseEntry.codec
  | .storeMeta => StoreMeta.codec

def Orderly : (kind : Kind) → kind.Value → Prop
  | .mapDefinition => MapDefinition.Orderly
  | .catalogData => CatalogData.Orderly
  | .participantState => ParticipantState.Orderly
  | _ => fun _ => True

def places : (kind : Kind) → kind.Value → List WorldLocation
  | .location => fun l => [l]
  | .participantState => fun p => p.corpse.toList
  | .corpseEntry => fun e => [e.location]
  | _ => fun _ => []

variable {fresh : ParticipantId}

theorem codec_faithful (kind : Kind) {value : kind.Value} (orderly : kind.Orderly value)
    (lasting : ∀ l ∈ kind.places value, l.Lasting) : (kind.codec fresh).Faithful value := by
  cases kind with
  | mapId => exact Codec.mapId_faithful value
  | instanceId => exact Codec.instanceId_faithful value
  | participantId => exact Codec.participantId_faithful value
  | difficulty => exact Difficulty.codec_faithful value
  | mapKind => exact MapKind.codec_faithful value
  | groupKind => exact GroupKind.codec_faithful value
  | denial => exact Denial.codec_faithful value
  | decision => exact Decision.codec_faithful value
  | location => exact WorldLocation.codec_faithful (lasting value List.mem_cons_self)
  | mapDefinition => exact MapDefinition.codec_faithful orderly
  | instanceTemplate => exact InstanceTemplate.codec_faithful value
  | accessRequirement => exact AccessRequirement.codec_faithful value
  | mapDifficulties => exact MapDifficulties.codec_faithful value
  | catalogData => exact CatalogData.codec_faithful orderly
  | admissionConfig => exact AdmissionConfig.codec_faithful value
  | worldConfig => exact WorldConfig.codec_faithful value
  | instanceBind => exact InstanceBind.codec_faithful value
  | groupState => exact GroupState.codec_faithful value
  | participantState =>
    exact ParticipantState.codec_faithful fresh orderly fun l member => lasting l (Option.mem_toList.mpr member)
  | instanceRecord => exact InstanceRecord.codec_faithful value
  | respawnEntry => exact RespawnEntry.codec_faithful value
  | corpseEntry => exact CorpseEntry.codec_faithful (lasting value.location List.mem_cons_self)
  | storeMeta => exact StoreMeta.codec_faithful value

theorem decoded_orderly (kind : Kind) (document : Json) (value : kind.Value)
    (decoded : (kind.codec fresh).decode document = some value) : kind.Orderly value := by
  cases kind with
  | mapDefinition => exact MapDefinition.decoded_orderly document value decoded
  | catalogData => exact CatalogData.decoded_orderly document value decoded
  | participantState => exact ParticipantState.decoded_orderly document value decoded
  | _ => trivial

theorem printers_fresh (kind : Kind) (fresh again : ParticipantId) :
    (kind.codec again).printers = (kind.codec fresh).printers := by
  cases kind <;> rfl

-- Every value is read back from what is written of it. A document that was rewritten once stays as it is.
theorem written_back (kind : Kind) (fresh again : ParticipantId) :
    ∀ print ∈ (kind.codec fresh).printers,
      (∀ value, kind.Orderly value → (∀ l ∈ kind.places value, l.Lasting) →
        (kind.codec again).read? (symbols (print value)) = some value) ∧
      ∀ input value, (kind.codec fresh).read? input = some value → (∀ l ∈ kind.places value, l.Lasting) →
        ∃ text, (kind.codec fresh).rewrite? print input = some text ∧
          (kind.codec again).rewrite? print (symbols text) = some text := by
  intro print printer
  rw [←kind.printers_fresh fresh again] at printer
  have back (value : kind.Value) (orderly : kind.Orderly value) (lasting : ∀ l ∈ kind.places value, l.Lasting) :
      (kind.codec again).read? (symbols (print value)) = some value :=
    (kind.codec_faithful orderly lasting).read?_printed printer
  refine ⟨back,fun input value read lasting => ⟨print value,?_,?_⟩⟩
  · rw [Codec.rewrite?,read,Option.map_some]
  · obtain ⟨document,_,decoded⟩ := Option.bind_eq_some_iff.mp read
    rw [Codec.rewrite?,back value (kind.decoded_orderly document value decoded) lasting,Option.map_some]

-- A participant whose name is written with escapes, with a corpse, sets and a group.
theorem written_back_participant :
    ∃ p : ParticipantState, p.name = "a\x22b\\c\n\t\x01" ∧ p.items = [3,70000] ∧ p.corpse.isSome ∧
      p.group.isSome ∧ p.id ≠ .nil ∧ ∀ fresh again, ∀ print ∈ (codec fresh .participantState).printers,
        (codec again .participantState).read? (symbols (print p)) = some p := by
  let p : ParticipantState := {
    id := .ofNat 0xffffffffffffffffffffffffffffffff
    name := "a\x22b\\c\n\t\x01"
    level := 255
    corpse := some ⟨⟨4294967295⟩,⟨0x3fc00000⟩,⟨0⟩,⟨0xc1200000⟩⟩
    items := [3,70000]
    group := some ⟨.raid,true,[⟨⟨36⟩,⟨7⟩,.mythic,true⟩]⟩ }
  have orderly : p.Orderly := ⟨by decide,by decide,by decide⟩
  have lasting : WorldLocation.Lasting ⟨⟨4294967295⟩,⟨0x3fc00000⟩,⟨0⟩,⟨0xc1200000⟩⟩ := by
    refine ⟨by decide,fun x member _ => ?_⟩
    unfold Codec.Reads
    simp only [List.mem_cons,List.not_mem_nil,or_false] at member
    rcases member with rfl | rfl | rfl <;> decide +kernel
  refine ⟨p,rfl,rfl,rfl,rfl,by decide,fun fresh again print printer => ?_⟩
  refine (written_back .participantState fresh again print printer).1 p orderly fun l member => ?_
  cases List.mem_singleton.mp member
  exact lasting

end Kind
end LiveMaps
