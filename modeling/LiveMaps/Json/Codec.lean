import LiveMaps.Ident
import LiveMaps.Ordered
import LiveMaps.Json.Reader
import LiveMaps.Json.Writer

namespace LiveMaps

structure Codec (α : Type) where
  encode : α → Json
  decode : Json → Option α

namespace Codec
open Json

def Reads (codec : Codec α) (value : α) : Prop := codec.decode (codec.encode value) = some value

def via (codec : Codec β) (into : α → β) (back : β → α) : Codec α where
  encode value := codec.encode (into value)
  decode document := (codec.decode document).map back

def natBelow (bound : Nat) : Codec Nat where
  encode := Json.nat
  decode
    | .number n => n.natBelow? bound
    | _ => none

def uint8 : Codec UInt8 := (natBelow 0x100).via UInt8.toNat UInt8.ofNat
def uint32 : Codec UInt32 := (natBelow 0x100000000).via UInt32.toNat UInt32.ofNat
def uint64 : Codec UInt64 := (natBelow 0x10000000000000000).via UInt64.toNat UInt64.ofNat

def bool : Codec Bool where
  encode := .bool
  decode
    | .bool value => some value
    | _ => none

def string : Codec String where
  encode := Json.text
  decode
    | .string value => value
    | _ => none

-- A number that is not finite is written as null, which reads back as no number at all.
def single : Codec Number.Single where
  encode value := if value.isFinite then .number (.ofSingle value) else .null
  decode
    | .number n => n.single?
    | _ => none

def mapId : Codec MapId := uint32.via MapId.number MapId.mk
def instanceId : Codec InstanceId := uint32.via InstanceId.number InstanceId.mk

def participantId : Codec ParticipantId where
  encode id := Json.text id.text
  decode
    | .string (some text) => ParticipantId.ofText? text
    | _ => none

def nullable (codec : Codec α) : Codec (Option α) where
  encode
    | none => .null
    | some value => codec.encode value
  decode
    | .null => some none
    | document => (codec.decode document).map some

def list (codec : Codec α) : Codec (List α) where
  encode values := .array (values.map codec.encode)
  decode
    | .array items => items.mapM codec.decode
    | _ => none

def numberSet : Codec (List UInt32) where
  encode := (list uint32).encode
  decode document := ((list uint32).decode document).map (Ordered.ofList UInt32.toNat)

def textTable : Codec (List (String × String)) where
  encode table := Json.record (table.map (fun entry => (entry.1,Json.text entry.2)))
  decode
    | .object members => do
      let entries ← members.mapM (fun member => do
        return (← member.1,← string.decode member.2))
      return Ordered.ofList Prod.fst entries
    | _ => none

def choice (all : List α) (name : α → String) : Codec α where
  encode value := Json.text (name value)
  decode
    | .string (some text) => all.find? (fun value => name value == text)
    | .object [(some text,.null)] => all.find? (fun value => name value == text)
    | _ => none

-- Members of other names are passed over. A known member that is repeated is refused, and so are keys
-- without text and items past the last member.
def members? (names : List String) : Json → Option (List (String × Json))
  | .object members => do
    let members ← members.mapM (fun member => member.1.map (fun key => (key,member.2)))
    let known := members.filter (fun member => names.contains member.1)
    if (known.map Prod.fst).Nodup then some known else none
  | .array items => if items.length ≤ names.length then some (names.zip items) else none
  | _ => none

def required (codec : Codec α) (name : String) (members : List (String × Json)) : Option α :=
  (members.lookup name).bind codec.decode

def optional (codec : Codec α) (name : String) (default : α) (members : List (String × Json)) :
    Option α :=
  match members.lookup name with
  | none => some default
  | some document => codec.decode document

def write (codec : Codec α) (value : α) : String := (codec.encode value).compact

def writePretty (codec : Codec α) (value : α) : String := (codec.encode value).pretty

def read? (codec : Codec α) (input : Symbols) : Option α := (Json.read? input).bind codec.decode

end Codec
end LiveMaps
