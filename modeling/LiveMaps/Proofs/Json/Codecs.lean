import LiveMaps.Difficulty
import LiveMaps.Proofs.Json.Documents
import LiveMaps.Proofs.Number.Written

namespace LiveMaps

namespace ParticipantId
variable {sizes : List Nat} {digits : List Char}

theorem hyphenate_length (total : digits.length = sizes.sum) (proper : sizes ≠ []) :
    (hyphenate sizes digits).length + 1 = digits.length + sizes.length := by
  induction sizes,digits using hyphenate.induct with
  | case1 digits => exact absurd rfl proper
  | case2 size digits =>
    have whole : digits.length = size := total
    simp [hyphenate,whole]
  | case3 size rest digits more ih =>
    rw [List.sum_cons] at total
    have later := ih (by rw [List.length_drop]; omega) more
    simp only [hyphenate,List.length_append,List.length_cons,List.length_take,List.length_drop] at later ⊢
    omega

theorem unhyphenate_hyphenate (total : digits.length = sizes.sum) (proper : sizes ≠ []) :
    unhyphenate sizes (hyphenate sizes digits) = some digits := by
  induction sizes,digits using hyphenate.induct with
  | case1 digits => exact absurd rfl proper
  | case2 size digits =>
    have whole : digits.length = size := total
    have all : digits.take size = digits := List.take_of_length_le (Nat.le_of_eq whole)
    simp [hyphenate,unhyphenate,all,whole]
  | case3 size rest digits more ih =>
    rw [List.sum_cons] at total
    have later := ih (by rw [List.length_drop]; omega) more
    have cut : (digits.take size).length = size := by rw [List.length_take]; omega
    rw [hyphenate,unhyphenate,List.drop_left' cut,List.take_left' cut]
    · simp [later]
    · exact more
    · exact more

theorem ofText?_text (id : ParticipantId) : ofText? id.text = some id := by
  have total : (Hex.digits 32 id.order).length = groups.sum := Hex.digits_length 32 _
  have long : (hyphenate groups (Hex.digits 32 id.order)).length = 36 := by
    have hyphens := hyphenate_length total (by decide)
    rw [Hex.digits_length] at hyphens
    exact Nat.succ.inj hyphens
  have digits := unhyphenate_hyphenate total (by decide)
  have value := Hex.ofDigits?_digits 32 id.order
  have below : id.order < Nat.pow 16 32 := id.value.isLt
  rw [Nat.mod_eq_of_lt below] at value
  have same : ofNat id.order = id := congrArg mk (by simp [order])
  simp [ofText?,text,long,digits,value,same]

end ParticipantId

namespace Codec
open Json

-- What is written of the value can be read, and is the value.
structure Faithful (codec : Codec α) (value : α) : Prop where
  reads : codec.Reads value
  legible : (codec.encode value).Legible

theorem Faithful.decode_encode {codec : Codec α} {value : α} (faithful : codec.Faithful value) :
    codec.decode (codec.encode value) = some value := faithful.reads

theorem Faithful.read? {codec : Codec α} {value : α} (faithful : codec.Faithful value) :
    codec.read? (written ((codec.encode value).prettyChars 0)) = some value := by
  rw [Codec.read?,read?_pretty faithful.legible]
  exact faithful.reads

theorem Faithful.via {codec : Codec β} {into : α → β} {back : β → α} {value : α}
    (faithful : codec.Faithful (into value)) (inverse : back (into value) = value) :
    (codec.via into back).Faithful value := by
  refine ⟨?_,faithful.legible⟩
  have reads := faithful.reads
  unfold Reads Codec.via at *
  simp [reads,inverse]

theorem natBelow_faithful {bound n : Nat} (below : n < bound) : (natBelow bound).Faithful n := by
  refine ⟨?_,.number (ofNat_decimal n)⟩
  simp [Reads,natBelow,Json.nat,Number.Numeral.natBelow?,Number.Numeral.ofNat,below]

theorem uint32_faithful (n : UInt32) : uint32.Faithful n :=
  (natBelow_faithful n.toNat_lt).via UInt32.ofNat_toNat

theorem uint64_faithful (n : UInt64) : uint64.Faithful n :=
  (natBelow_faithful n.toNat_lt).via UInt64.ofNat_toNat

theorem mapId_faithful (map : MapId) : mapId.Faithful map := (uint32_faithful map.number).via rfl

theorem instanceId_faithful (id : InstanceId) : instanceId.Faithful id := (uint32_faithful id.number).via rfl

theorem participantId_faithful (id : ParticipantId) : participantId.Faithful id := by
  refine ⟨?_,.text id.text⟩
  simp only [Reads,participantId,Json.text]
  exact ParticipantId.ofText?_text id

theorem single_faithful {x : Number.Single} (finite : x.isFinite = true) : single.Faithful x := by
  constructor
  · simp only [Reads,single,finite,if_true]
    exact Number.Single.single?_written finite
  · simp only [single,finite,if_true]
    exact .number (ofSingle_decimal x)

theorem list_faithful {codec : Codec α} {values : List α} (each : ∀ value ∈ values, codec.Faithful value) :
    codec.list.Faithful values := by
  constructor
  · unfold Reads list
    simp only
    induction values with
    | nil => rfl
    | cons value values ih =>
      have first : codec.decode (codec.encode value) = some value := (each value List.mem_cons_self).reads
      have later := ih fun value member => each value (List.mem_cons_of_mem _ member)
      simp [List.mapM_cons,first,later]
  · refine .array fun item member => ?_
    obtain ⟨value,known,rfl⟩ := List.mem_map.mp member
    exact (each value known).legible

theorem choice_faithful {all : List α} {name : α → String} {value : α}
    (first : all.find? (fun other => name other == name value) = some value) :
    (choice all name).Faithful value := ⟨first,.text (name value)⟩

variable {names : List String} {members : List (String × Json)}

-- Of the members of a record those are taken that are asked for, if none of them is repeated.
theorem members?_known (names : List String) (given : List (String × Json)) :
    let known := given.filter (fun member => names.contains member.1)
    members? names (record given) = if (known.map Prod.fst).Nodup then some known else none := by
  have keys : (given.map (fun member => (some member.1,member.2))).mapM
      (fun member : Option String × Json => member.1.map (fun key => (key,member.2))) = some given := by
    rw [List.mapM_map]
    exact List.mapM_pure.trans (congrArg some (List.map_id given))
  simp only [members?,record,keys,Option.bind_eq_bind,Option.bind_some]

theorem members?_record (named : members.map Prod.fst = names) (distinct : names.Nodup) :
    members? names (record members) = some members := by
  have known : members.filter (fun member => names.contains member.1) = members := by
    refine List.filter_eq_self.mpr fun member among => ?_
    rw [List.contains_iff_mem,←named]
    exact List.mem_map_of_mem among
  simp only [members?_known,known,named,distinct,if_true]

theorem Faithful.required {codec : Codec α} {value : α} {name : String} (faithful : codec.Faithful value)
    (found : members.lookup name = some (codec.encode value)) : codec.required name members = some value := by
  rw [Codec.required,found]
  exact faithful.reads

theorem Faithful.optional {codec : Codec α} {value default : α} {name : String} (faithful : codec.Faithful value)
    (found : members.lookup name = some (codec.encode value)) :
    codec.optional name default members = some value := by
  rw [Codec.optional,found]
  exact faithful.reads

theorem read_on {part : Option α} {next : α → Option β} {value : α} {result : β} (read : part = some value)
    (rest : next value = some result) : (part >>= next) = some result := by
  rw [read]
  exact rest

end Codec

theorem Difficulty.codec_faithful (d : Difficulty) : codec.Faithful d :=
  Codec.choice_faithful (by cases d <;> rfl)

end LiveMaps
