import LiveMaps.CommandLine.Numbers

namespace LiveMaps.CommandLine
open Number

inductive Command where
  | info
  | catalog (path : String)
  | simulate (catalog : String) (config store terrain : Option String)
      (ticks step : UInt32) (threads : Option UInt64) (copies : UInt32)
  | attempt (catalog : String) (config : Option String) (participant : String)
      (map : UInt32) (login : Bool)
  | probe (terrain : String) (map : UInt32) (x y : Single)
  deriving DecidableEq, Repr

-- A `free` value may start with a hyphen even as an argument of its own.
inductive OptionKind where
  | switch
  | value
  | free
  deriving DecidableEq, Repr

structure OptionSpec where
  name : String
  short : Option Char
  kind : OptionKind
  deriving DecidableEq, Repr

inductive Token where
  | plain
  | escape
  | long (name : String) (value : Option String)
  | short (letters : List Char)
  deriving DecidableEq, Repr

def token (argument : String) : Token :=
  match argument.toList with
  | ['-','-'] => .escape
  | '-' :: '-' :: rest =>
    let name := String.ofList (rest.takeWhile (· != '='))
    match rest.dropWhile (· != '=') with
    | [] => .long name none
    | _ :: value => .long name (some (String.ofList value))
  | '-' :: c :: rest => .short (c :: rest)
  | _ => .plain

abbrev Settings := List (String × String)

structure Reading where
  settings : Settings
  waiting : Option OptionSpec

def readLong (specs : List OptionSpec) (name : String) (value : Option String) : Option Reading :=
  match specs.find? (fun spec => spec.name == name) with
  | none => none
  | some spec =>
    match spec.kind,value with
    | .switch,none => some ⟨[(name,"")],none⟩
    | .switch,some _ => none
    | _,some value => some ⟨[(name,value)],none⟩
    | _,none => some ⟨[],some spec⟩

def readShort (specs : List OptionSpec) : List Char → Option Reading
  | [] => some ⟨[],none⟩
  | c :: rest =>
    match specs.find? (fun spec => spec.short == some c) with
    | none => none
    | some spec =>
      match spec.kind,rest with
      | .switch,_ =>
        (readShort specs rest).map (fun r => {r with settings := (spec.name,"") :: r.settings})
      | _,[] => some ⟨[],some spec⟩
      | _,'=' :: value => some ⟨[(spec.name,String.ofList value)],none⟩
      | _,value => some ⟨[(spec.name,String.ofList value)],none⟩

def acceptsNext (spec : OptionSpec) (argument : String) : Bool :=
  spec.kind == .free || token argument == .plain

def gather (specs : List OptionSpec) : List String → Option (Settings × List String)
  | [] => some ([],[])
  | argument :: rest =>
    let reading : Option (Option Reading) :=
      match token argument with
      | .plain => some none
      | .escape => none
      | .long name value => (readLong specs name value).map some
      | .short letters => (readShort specs letters).map some
    match token argument,reading with
    | .escape,_ => some ([],rest)
    | _,none => none
    | _,some none => (gather specs rest).map (fun (settings,plain) => (settings,argument :: plain))
    | _,some (some ⟨settings,none⟩) =>
      (gather specs rest).map (fun (more,plain) => (settings ++ more,plain))
    | _,some (some ⟨settings,some spec⟩) =>
      match rest with
      | [] => none
      | value :: rest =>
        if acceptsNext spec value then
          (gather specs rest).map (fun (more,plain) => (settings ++ (spec.name,value) :: more,plain))
        else none

def settle (specs : List OptionSpec) (arguments : List String) : Option (Settings × List String) :=
  match gather specs arguments with
  | none => none
  | some (settings,plain) => if (settings.map Prod.fst).Nodup then some (settings,plain) else none

def optionsOnly (specs : List OptionSpec) (arguments : List String) : Option Settings :=
  match settle specs arguments with
  | some (settings,[]) => some settings
  | _ => none

def path? (text : String) : Option String := if text = "" then none else some text

def required (settings : Settings) (name : String) (read : String → Option α) : Option α :=
  (settings.lookup name).bind read

def optional (settings : Settings) (name : String) (read : String → Option α) : Option (Option α) :=
  match settings.lookup name with
  | none => some none
  | some text => (read text).map some

def defaulted (settings : Settings) (name : String) (default : α) (read : String → Option α) :
    Option α :=
  (optional settings name read).map (fun value => value.getD default)

def topOptions : List OptionSpec := [⟨"verbose",some 'v',.switch⟩]

def simulateOptions : List OptionSpec :=
  [⟨"catalog",none,.value⟩,⟨"config",none,.value⟩,⟨"store",none,.value⟩,⟨"terrain",none,.value⟩,
    ⟨"ticks",some 't',.value⟩,⟨"step-ms",none,.value⟩,⟨"threads",none,.value⟩,
    ⟨"instances",some 'i',.value⟩]

def admitOptions : List OptionSpec :=
  [⟨"catalog",none,.value⟩,⟨"config",none,.value⟩,⟨"participant",none,.value⟩,
    ⟨"map",none,.value⟩,⟨"login",none,.switch⟩]

def probeOptions : List OptionSpec :=
  [⟨"terrain",none,.value⟩,⟨"map",none,.value⟩,⟨"x",none,.free⟩,⟨"y",none,.free⟩]

def readInfo (arguments : List String) : Option Command :=
  (optionsOnly [] arguments).map (fun _ => .info)

def readCatalog (arguments : List String) : Option Command :=
  match settle [] arguments with
  | some (_,[path]) => (path? path).map .catalog
  | _ => none

def readSimulate (arguments : List String) : Option Command := do
  let settings ← optionsOnly simulateOptions arguments
  return .simulate (← required settings "catalog" path?) (← optional settings "config" path?)
    (← optional settings "store" path?) (← optional settings "terrain" path?)
    (← defaulted settings "ticks" 100 word?) (← defaulted settings "step-ms" 50 word?)
    (← optional settings "threads" count?) (← defaulted settings "instances" 1 word?)

def readAdmit (arguments : List String) : Option Command := do
  let settings ← optionsOnly admitOptions arguments
  return .attempt (← required settings "catalog" path?) (← optional settings "config" path?)
    (← required settings "participant" path?) (← required settings "map" word?)
    (settings.lookup "login").isSome

def readProbe (arguments : List String) : Option Command := do
  let settings ← optionsOnly probeOptions arguments
  return .probe (← required settings "terrain" path?) (← required settings "map" word?)
    (← required settings "x" single?) (← required settings "y" single?)

def readNamed (name : String) (arguments : List String) : Option Command :=
  match name with
  | "info" => readInfo arguments
  | "catalog" => readCatalog arguments
  | "simulate" => readSimulate arguments
  | "admit" => readAdmit arguments
  | "probe" => readProbe arguments
  | _ => none

def splitCommand : List String → List String × List String
  | [] => ([],[])
  | argument :: rest =>
    if token argument = .plain then ([],argument :: rest)
    else let (switches,command) := splitCommand rest; (argument :: switches,command)

def command? (arguments : List String) : Option Command :=
  match splitCommand arguments with
  | (switches,name :: rest) =>
    match settle topOptions switches with
    | some _ => if switches.contains "--" then none else readNamed name rest
    | none => none
  | (_,[]) => none

end LiveMaps.CommandLine
