import LiveMaps.Number.Single

namespace LiveMaps.Terrain
open Number

def gridCount : Nat := 64

-- Edge of one grid in world units: the double nearest to 533.33333333.
def gridSize : Rat := (Format.double.round 53333333333 100000000).toRat

structure Cell where
  x : Int
  y : Int
  deriving DecidableEq, Repr

structure Tile where
  gx : Nat
  gy : Nat
  deriving DecidableEq, Repr

-- Each operation is followed by `rounding`; with the identity this is the exact value.
def gridOffset (rounding : Rat → Rat) (x : Rat) : Rat :=
  let centred := rounding (x - gridSize / 2)
  let scaled := rounding (centred / gridSize)
  let shifted := rounding (scaled + 32)
  rounding (shifted + 1 / 2)

def truncate (x : Rat) : Int := x.num.tdiv x.den

def wordMin : Int := -0x80000000
def wordMax : Int := 0x7fffffff

def clamp (n : Int) : Int := max wordMin (min wordMax n)

def axisCell (x : Single) : Int :=
  if x.isNaN then 0
  else if x.isFinite then clamp (truncate (gridOffset Format.double.roundRat x.toRat))
  else if x.isNegative then wordMin
  else wordMax

def Cell.ofWorld (x y : Single) : Cell := ⟨axisCell x,axisCell y⟩

def flipped (index : Int) : Int := gridCount - 1 - index

def Cell.tile? (cell : Cell) : Option Tile :=
  let gx := flipped cell.x
  let gy := flipped cell.y
  if 0 ≤ gx ∧ gx < gridCount ∧ 0 ≤ gy ∧ gy < gridCount then some ⟨gx.toNat,gy.toNat⟩ else none

end LiveMaps.Terrain
