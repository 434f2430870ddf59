import LiveMaps.Proofs.Json.Codecs
import LiveMaps.Saved.Records

namespace LiveMaps
open Codec Json

structure WorldLocation.Lasting (l : WorldLocation) : Prop where
  finite : l.isFinite = true
  reads : ∀ x ∈ [l.x,l.y,l.z], x.isFinite = true → single.Reads x

theorem WorldLocation.lasting_iff {l : WorldLocation} : l.Lasting ↔ l.isFinite = true ∧
    ∀ x ∈ [l.x,l.y,l.z], x.isFinite = true → single.decode (single.encode x) = some x :=
  ⟨fun lasting => ⟨lasting.finite,lasting.reads⟩,fun parts => ⟨parts.1,parts.2⟩⟩

instance (l : WorldLocation) : Decidable l.Lasting := decidable_of_iff _ WorldLocation.lasting_iff.symm

theorem WorldLocation.Lasting.coordinates {l : WorldLocation} (lasting : l.Lasting) :
    ∀ x ∈ [l.x,l.y,l.z], single.Faithful x := by
  intro x member
  have finite := lasting.finite
  simp only [isFinite,Bool.and_eq_true] at finite
  have own : x.isFinite = true := by
    rcases List.mem_cons.mp member with rfl | rest
    · exact finite.1.1
    · rcases List.mem_cons.mp rest with rfl | rest
      · exact finite.1.2
      · cases List.mem_singleton.mp rest
        exact finite.2
  exact single_faithful own

theorem WorldLocation.lasting_of_finite {l : WorldLocation} (finite : l.isFinite = true) : l.Lasting :=
  ⟨finite,fun _ _ own => (single_faithful own).reads⟩

theorem WorldLocation.codec_faithful {l : WorldLocation} (lasting : l.Lasting) : codec.Faithful l := by
  have map := mapId_faithful l.map
  have position := list_faithful lasting.coordinates
  constructor
  · exact read_on (members?_record rfl (by decide)) <| read_on (map.required rfl) <|
      read_on (position.required rfl) rfl
  · refine .record ?_
    simp only [List.forall_mem_cons]
    exact ⟨map.legible,position.legible,List.forall_mem_nil _⟩

theorem InstanceRecord.codec_faithful (r : InstanceRecord) : codec.Faithful r := by
  have id := instanceId_faithful r.id
  have map := mapId_faithful r.map
  have difficulty := Difficulty.codec_faithful r.difficulty
  have resetAt := uint64_faithful r.resetAt
  constructor
  · exact read_on (members?_record rfl (by decide)) <| read_on (id.required rfl) <|
      read_on (map.required rfl) <| read_on (difficulty.required rfl) <| read_on (resetAt.optional rfl) rfl
  · refine .record ?_
    simp only [List.forall_mem_cons]
    exact ⟨id.legible,map.legible,difficulty.legible,resetAt.legible,List.forall_mem_nil _⟩

theorem RespawnEntry.codec_faithful (e : RespawnEntry) : codec.Faithful e := by
  have map := mapId_faithful e.map
  have id := instanceId_faithful e.instanceId
  have spawn := uint64_faithful e.spawnId
  have respawnAt := uint64_faithful e.respawnAt
  constructor
  · exact read_on (members?_record rfl (by decide)) <| read_on (map.required rfl) <|
      read_on (id.optional rfl) <| read_on (spawn.required rfl) <| read_on (respawnAt.required rfl) rfl
  · refine .record ?_
    simp only [List.forall_mem_cons]
    exact ⟨map.legible,id.legible,spawn.legible,respawnAt.legible,List.forall_mem_nil _⟩

theorem CorpseEntry.codec_faithful {e : CorpseEntry} (lasting : e.location.Lasting) : codec.Faithful e := by
  have owner := participantId_faithful e.owner
  have id := instanceId_faithful e.instanceId
  have location := WorldLocation.codec_faithful lasting
  constructor
  · exact read_on (members?_record rfl (by decide)) <| read_on (owner.required rfl) <|
      read_on (id.optional rfl) <| read_on (location.required rfl) rfl
  · refine .record ?_
    simp only [List.forall_mem_cons]
    exact ⟨owner.legible,id.legible,location.legible,List.forall_mem_nil _⟩

theorem StoreMeta.codec_faithful (m : StoreMeta) : codec.Faithful m := by
  have version := uint32_faithful m.schemaVersion
  constructor
  · exact read_on (members?_record rfl (by decide)) <| read_on (version.required rfl) rfl
  · refine .record ?_
    simp only [List.forall_mem_cons]
    exact ⟨version.legible,List.forall_mem_nil _⟩

end LiveMaps
