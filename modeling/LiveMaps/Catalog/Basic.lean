import LiveMaps.Catalog.Ancestry
import LiveMaps.Catalog.Records

namespace LiveMaps

inductive CatalogError where
  | unreadable
  | malformed
  | duplicateMap (map : MapId)
  | unknownParent (map parent : MapId)
  | parentCycle (map : MapId)
  | unknownMap (map : MapId)
  deriving DecidableEq, Repr

namespace CatalogError

def message : CatalogError → String
  | .unreadable => "IO error"
  | .malformed => "JSON error"
  | .duplicateMap map => "duplicate map definition " ++ map.text
  | .unknownParent map parent => "map " ++ map.text ++ " references unknown parent " ++ parent.text
  | .parentCycle map => "parent chain of map " ++ map.text ++ " loops back on itself"
  | .unknownMap map => "map " ++ map.text ++ " has no definition"

end CatalogError

-- Read-only data on all maps. Of several entries for one key the one at the head
-- counts; definitions stand once each, ascending by id.
structure Catalog where
  definitions : List MapDefinition
  templates : List InstanceTemplate
  difficulties : List MapDifficulties
  requirements : List AccessRequirement
  deriving Repr

namespace Catalog

def empty : Catalog := ⟨[],[],[],[]⟩

def definition? (c : Catalog) (map : MapId) : Option MapDefinition :=
  c.definitions.find? (fun d => d.id == map)

def terrainParent? (c : Catalog) (map : MapId) : Option MapId :=
  (c.definition? map).bind MapDefinition.terrainParent

def template? (c : Catalog) (map : MapId) : Option InstanceTemplate :=
  c.templates.find? (fun t => t.map == map)

def templateParent? (c : Catalog) (map : MapId) : Option MapId :=
  (c.template? map).bind InstanceTemplate.parent

def offered? (c : Catalog) (map : MapId) : Option (List Difficulty) :=
  (c.difficulties.find? (fun d => d.map == map)).map MapDifficulties.offered

def requirement? (c : Catalog) (map : MapId) (difficulty : Difficulty) : Option AccessRequirement :=
  c.requirements.find? (fun r => r.map == map && r.difficulty == difficulty)

def addTemplate (c : Catalog) (t : InstanceTemplate) : Catalog := {c with templates := t :: c.templates}

def addDifficulties (c : Catalog) (d : MapDifficulties) : Catalog :=
  {c with difficulties := d :: c.difficulties}

def addRequirement (c : Catalog) (r : AccessRequirement) : Catalog :=
  {c with requirements := r :: c.requirements}

def childrenOf (c : Catalog) (map : MapId) : List MapId :=
  (c.definitions.filter (fun d => d.terrainParent == some map)).map MapDefinition.id

def offers (c : Catalog) (map : MapId) (difficulty : Difficulty) : Bool :=
  match c.offered? map with
  | none => false
  | some offered => offered.contains difficulty

def downscale (c : Catalog) (map : MapId) (requested : Difficulty) : Option Difficulty :=
  match c.offered? map with
  | none => none
  | some offered =>
    match requested.descent.find? offered.contains with
    | some difficulty => some difficulty
    | none => offered.head?

def firstRepeat? (seen : List MapId) : List MapId → Option MapId
  | [] => none
  | map :: rest => if seen.contains map then some map else firstRepeat? (map :: seen) rest

-- A chain of defined maps without a repetition has at most as many maps as there
-- are definitions. One step further and some map stands on it twice.
def loops (c : Catalog) (map : MapId) : Bool :=
  (Ancestry.climb c.terrainParent? c.definitions.length map).isSome

def undefinedParent? (c : Catalog) (d : MapDefinition) : Option MapId :=
  match d.terrainParent with
  | none => none
  | some parent => if (c.definition? parent).isSome then none else some parent

def build (data : CatalogData) : Except CatalogError Catalog :=
  match firstRepeat? [] (data.maps.map MapDefinition.id) with
  | some map => .error (.duplicateMap map)
  | none =>
    let bare : Catalog := {empty with definitions := Ordered.ofList MapDefinition.order data.maps}
    match bare.definitions.findSome? (fun d => (bare.undefinedParent? d).map (fun p => (d.id,p))) with
    | some (map,parent) => .error (.unknownParent map parent)
    | none =>
      match bare.definitions.find? (fun d => bare.loops d.id) with
      | some d => .error (.parentCycle d.id)
      | none =>
        let c := data.templates.foldl addTemplate bare
        let c := data.difficulties.foldl addDifficulties c
        .ok (data.requirements.foldl addRequirement c)

def ofSymbols (input : Json.Symbols) : Except CatalogError Catalog :=
  match CatalogData.codec.read? input with
  | none => .error .malformed
  | some data => build data

def isValidMap (c : Catalog) (map : MapId) (startup : Bool) : Bool :=
  match c.definition? map with
  | none => false
  | some d => startup || !d.kind.isDungeon || (c.template? map).isSome

end Catalog
end LiveMaps
