import LiveMaps.Number.Natural

namespace LiveMaps

abbrev Path := List String

-- Cut at its slashes. Where it leads depends on the directories that are there.
structure Route where
  parts : List String
  deriving DecidableEq, Repr

namespace Route

def ofText (text : String) : Route :=
  let chars := text.toList
  let parts := (chars.splitOn '/').map String.ofList
  ⟨if chars.head? = some '/' then "/" :: parts else parts⟩

def join (r : Route) (names : Path) : Route := ⟨r.parts ++ names⟩

def size (r : Route) : Nat := (r.parts.map String.utf8ByteSize).foldr (· + ·) 0 + (r.parts.length - 1)

def longest : Nat := 4095

def longestPart : Nat := 255

def isUnusable (r : Route) : Bool := longest < r.size || r.parts.any (fun part => part.toList.contains '\x00')

def isIdle (part : String) : Bool := part = "" || part = "."

def trimmed (parts : List String) : List String := (parts.reverse.dropWhile isIdle).reverse

def above (r : Route) : List Route :=
  let parts := trimmed r.parts
  let shorter := (List.range parts.length).reverse.map parts.take
  (shorter.filter (fun parts => !(parts.getLast?.any isIdle))).map Route.mk

-- Two dots lead out of the top too, but not out of the root of all, which has the name of a slash.
def follow (place : Path) (part : String) : Path :=
  if isIdle part then place
  else if part = "/" then ["/"]
  else if part = ".." then
    if place.all (· = "..") then place ++ [".."]
    else if place = ["/"] then place
    else place.dropLast
  else place ++ [part]

def places (r : Route) : List Path :=
  (List.range r.parts.length).map (fun n => (r.parts.take (n + 1)).foldl follow [])

end Route
end LiveMaps
