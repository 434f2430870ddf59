import LiveMaps.Proofs.Saved.Records
import Mathlib.Data.List.Forall2

namespace LiveMaps

namespace Codec
open Json
variable {value : α} {values : List α}

def reread? (codec : Codec α) (value : α) : Option α := codec.decode (codec.encode value)

theorem single_lost {x : Number.Single} (lost : x.isFinite = false) : single.reread? x = none := by
  simp [reread?,single,lost]

theorem single_reread {x : Number.Single} (finite : x.isFinite = true) : ∃ y, single.reread? x = some y := by
  have read := Number.Single.single?_written finite
  exact ⟨x,by simp [reread?,single,finite,read]⟩

theorem single_legible (x : Number.Single) : (single.encode x).Legible := by
  simp only [single]
  split
  · exact .number (ofSingle_decimal x)
  · exact .null

theorem list_reread? (codec : Codec α) (values : List α) : codec.list.reread? values = values.mapM codec.reread? :=
  List.mapM_map

theorem bind_known {part : Option α} {next : α → Option β} (known : part = some value) :
    part >>= next = next value := by
  rw [known]
  rfl

-- One value that is not read again takes the whole list with it.
theorem mapM_lost {f : α → Option β} (member : value ∈ values) (lost : f value = none) : values.mapM f = none := by
  induction values with
  | nil => cases member
  | cons first rest ih =>
    rw [List.mapM_cons]
    rcases List.mem_cons.mp member with rfl | later
    · rw [lost]
      rfl
    · rw [ih later]
      cases f first <;> rfl

theorem mapM_each {f : α → Option β} {related : α → β → Prop}
    (each : ∀ value ∈ values, ∃ result, f value = some result ∧ related value result) :
    ∃ results, values.mapM f = some results ∧ List.Forall₂ related values results := by
  induction values with
  | nil => exact ⟨[],rfl,.nil⟩
  | cons first rest ih =>
    obtain ⟨⟨result,found,own⟩,later⟩ := List.forall_mem_cons.mp each
    obtain ⟨results,others,all⟩ := ih later
    exact ⟨result :: results,by simp [List.mapM_cons,found,others],.cons own all⟩

end Codec

open Codec Json

structure WorldLocation.Reread (l again : WorldLocation) : Prop where
  map : again.map = l.map
  x : single.reread? l.x = some again.x
  y : single.reread? l.y = some again.y
  z : single.reread? l.z = some again.z

structure CorpseEntry.Reread (e again : CorpseEntry) : Prop where
  owner : again.owner = e.owner
  instanceId : again.instanceId = e.instanceId
  location : e.location.Reread again.location

namespace WorldLocation
variable {l again : WorldLocation}

theorem codec_reread? (l : WorldLocation) : codec.reread? l =
    (single.list.reread? [l.x,l.y,l.z]).bind fun
      | [x,y,z] => some ⟨l.map,x,y,z⟩
      | _ => none := by
  have members : members? memberNames (encode l) = some _ := members?_record rfl (by decide)
  refine (bind_known members).trans ?_
  exact bind_known ((mapId_faithful l.map).required rfl)

theorem legible (l : WorldLocation) : (codec.encode l).Legible := by
  refine .record ?_
  simp only [List.forall_mem_cons]
  refine ⟨(mapId_faithful l.map).legible,.array fun item member => ?_,List.forall_mem_nil _⟩
  obtain ⟨x,_,rfl⟩ := List.mem_map.mp member
  exact single_legible x

theorem reread_finite (finite : l.isFinite = true) : ∃ again, codec.reread? l = some again ∧ l.Reread again := by
  simp only [isFinite,Bool.and_eq_true] at finite
  obtain ⟨x,first⟩ := single_reread finite.1.1
  obtain ⟨y,second⟩ := single_reread finite.1.2
  obtain ⟨z,third⟩ := single_reread finite.2
  refine ⟨⟨l.map,x,y,z⟩,?_,rfl,first,second,third⟩
  simp [codec_reread?,list_reread?,List.mapM_cons,first,second,third]

theorem reread_lost (lost : l.isFinite = false) : codec.reread? l = none := by
  simp only [isFinite,Bool.and_eq_false_iff,or_assoc] at lost
  have coordinate : ∃ x ∈ [l.x,l.y,l.z], x.isFinite = false := by simpa using lost
  obtain ⟨x,member,own⟩ := coordinate
  rw [codec_reread?,list_reread?,mapM_lost member (single_lost own)]
  rfl

theorem Lasting.reread (lasting : l.Lasting) (reread : l.Reread again) : again = l := by
  have coordinate {x y : Number.Single} (member : x ∈ [l.x,l.y,l.z]) (read : single.reread? x = some y) : y = x :=
    Option.some.inj (read.symm.trans (lasting.coordinates x member).reads)
  obtain ⟨map,x,y,z⟩ := again
  obtain ⟨rfl,first,second,third⟩ := reread
  cases coordinate (by simp) first
  cases coordinate (by simp) second
  cases coordinate (by simp) third
  rfl

theorem Reread.lasting (reread : l.Reread l) (finite : l.isFinite = true) : l.Lasting := by
  refine ⟨finite,fun x member _ => ?_⟩
  simp only [List.mem_cons,List.not_mem_nil,or_false] at member
  rcases member with rfl | rfl | rfl
  · exact reread.x
  · exact reread.y
  · exact reread.z

end WorldLocation

namespace CorpseEntry
variable {e again : CorpseEntry}

theorem codec_reread? (e : CorpseEntry) : codec.reread? e =
    (WorldLocation.codec.reread? e.location).map fun location => {e with location} := by
  have members : members? memberNames (encode e) = some _ := members?_record rfl (by decide)
  refine (bind_known members).trans ?_
  refine (bind_known ((participantId_faithful e.owner).required rfl)).trans ?_
  refine (bind_known ((instanceId_faithful e.instanceId).optional rfl)).trans ?_
  show (WorldLocation.codec.reread? e.location).bind _ = _
  cases WorldLocation.codec.reread? e.location <;> rfl

theorem legible (e : CorpseEntry) : (codec.encode e).Legible := by
  refine .record ?_
  simp only [List.forall_mem_cons]
  exact ⟨(participantId_faithful e.owner).legible,(instanceId_faithful e.instanceId).legible,e.location.legible,
    List.forall_mem_nil _⟩

theorem reread_finite (finite : e.location.isFinite = true) :
    ∃ again, codec.reread? e = some again ∧ e.Reread again := by
  obtain ⟨location,read,same⟩ := WorldLocation.reread_finite finite
  exact ⟨{e with location},by rw [codec_reread?,read]; rfl,rfl,rfl,same⟩

theorem reread_lost (lost : e.location.isFinite = false) : codec.reread? e = none := by
  rw [codec_reread?,WorldLocation.reread_lost lost]
  rfl

theorem Reread.same (reread : e.Reread again) (lasting : e.location.Lasting) : again = e := by
  obtain ⟨owner,id,location⟩ := again
  obtain ⟨rfl,rfl,place⟩ := reread
  cases lasting.reread place
  rfl

theorem reread_owned {entries others : List CorpseEntry} (each : List.Forall₂ Reread entries others)
    (owner : ParticipantId) : List.Forall₂ Reread (entries.filter (fun e => e.owner == owner))
      (others.filter (fun e => e.owner == owner)) := by
  induction each with
  | nil => exact .nil
  | cons reread _ ih =>
    rw [List.filter_cons,List.filter_cons,reread.owner]
    split
    · exact .cons reread ih
    · exact ih

end CorpseEntry
end LiveMaps
