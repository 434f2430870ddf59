import LiveMaps.Files.Content
import LiveMaps.Files.Route

namespace LiveMaps

inductive Entry where
  | file (content : Content)
  | directory
  deriving DecidableEq, Repr

structure FileTree where
  entries : List (Path × Entry)
  deriving Repr

inductive DeadEnd where
  | missing
  | blocked
  deriving DecidableEq, Repr

namespace FileTree

def empty : FileTree := ⟨[]⟩

-- The top and what is above it, and the root of all: directories in any tree.
def isOutside (path : Path) : Bool := path = ["/"] || path.all (· = "..")

def entry? (tree : FileTree) (path : Path) : Option Entry :=
  if isOutside path then some .directory else tree.entries.lookup path

def isDirectory (tree : FileTree) (path : Path) : Bool := tree.entry? path == some .directory

def set (tree : FileTree) (path : Path) (entry : Entry) : FileTree :=
  ⟨(path,entry) :: tree.entries.filter (fun e => e.1 != path)⟩

def walk (tree : FileTree) : Path → List String → Except DeadEnd Path
  | place,[] => .ok place
  | place,part :: rest =>
    match tree.entry? place with
    | none => .error .missing
    | some (.file _) => .error .blocked
    | some .directory =>
      if Route.longestPart < part.utf8ByteSize then .error .blocked
      else walk tree (Route.follow place part) rest

def trace (tree : FileTree) (r : Route) : Except DeadEnd Path :=
  if r.isUnusable then .error .blocked else tree.walk [] r.parts

def place? (tree : FileTree) (r : Route) : Option Path :=
  match tree.trace r with
  | .ok place => some place
  | .error _ => none

def entryAt? (tree : FileTree) (r : Route) : Option Entry := (tree.place? r).bind tree.entry?

def exist (tree : FileTree) (r : Route) : Bool := (tree.entryAt? r).isSome

def isFile (tree : FileTree) (r : Route) : Bool :=
  match tree.entryAt? r with
  | some (.file _) => true
  | _ => false

def read? (tree : FileTree) (r : Route) : Option Content :=
  match tree.entryAt? r with
  | some (.file content) => some content
  | _ => none

def write? (tree : FileTree) (r : Route) (content : Content) : Option FileTree :=
  (tree.place? r).bind (fun place =>
    if tree.isDirectory place then none else some (tree.set place (.file content)))

def makeDirectory (tree : FileTree) (r : Route) : Except DeadEnd FileTree :=
  match tree.trace ⟨(r.parts.reverse.dropWhile (· = "")).reverse⟩ with
  | .error e => .error e
  | .ok place =>
    match tree.entry? place with
    | some .directory => .ok tree
    | some (.file _) => .error .blocked
    | none => .ok (tree.set place .directory)

-- The directories above stay even where the last one cannot be made after all.
def makeFirst (tree : FileTree) (r : Route) (above : List Route) : Bool × FileTree :=
  match tree.makeDirectory r with
  | .ok tree => (true,tree)
  | .error .blocked => (false,tree)
  | .error .missing =>
    match above with
    | [] => (false,tree)
    | next :: rest =>
      match makeFirst tree next rest with
      | (false,tree) => (false,tree)
      | (true,tree) =>
        match tree.makeDirectory r with
        | .ok tree => (true,tree)
        | .error _ => (false,tree)

def createDirectories (tree : FileTree) (r : Route) : Bool × FileTree := tree.makeFirst r r.above

def provide? (tree : FileTree) (r : Route) (content : Content) : Option FileTree :=
  match tree.createDirectories ⟨r.parts.dropLast⟩ with
  | (false,_) => none
  | (true,tree) => tree.write? r content

def remove (tree : FileTree) (r : Route) : FileTree :=
  match tree.place? r with
  | none => tree
  | some place => ⟨tree.entries.filter (fun e => !place.isPrefixOf e.1)⟩

def nameOf (path : Path) (entry : Entry) : String :=
  String.intercalate "/" path ++ if entry = .directory then "/" else ""

def isBelow (path : Path) : Bool := path.head? ≠ some ".." && path.head? ≠ some "/"

def names (tree : FileTree) : List String :=
  ((tree.entries.filter (fun e => isBelow e.1)).map (fun e => nameOf e.1 e.2)).mergeSort
    (fun a b => decide (a ≤ b))

end FileTree
end LiveMaps
