import LiveMaps.Number.Natural

namespace LiveMaps

-- What the two phases of a pass took, in nanoseconds, as measured from outside.
structure PassTimes where
  primary : Nat
  delayed : Nat
  deriving DecidableEq, Repr

structure PassRecord where
  maps : Nat
  diff : UInt32
  primaryTime : Nat
  delayedTime : Nat
  deriving DecidableEq, Repr, Inhabited

def PassRecord.total (p : PassRecord) : Nat := p.primaryTime + p.delayedTime

structure PassHistory where
  passes : List PassRecord
  capacity : Nat
  deriving DecidableEq, Repr

namespace PassHistory

def ofCapacity (capacity : Nat) : PassHistory := ⟨[],max capacity 1⟩

def recordBytes : Nat := 48

-- All room is set aside from the start, and there is none of half a word of bytes.
def ofCapacity? (capacity : Nat) : Option PassHistory :=
  let h := ofCapacity capacity
  if h.capacity * recordBytes < 0x8000000000000000 then some h else none

def record (h : PassHistory) (pass : PassRecord) : PassHistory :=
  {h with passes := (if h.passes.length = h.capacity then h.passes.drop 1 else h.passes) ++ [pass]}

def mean (h : PassHistory) (time : PassRecord → Nat) : Nat :=
  (h.passes.map time).foldr (· + ·) 0 / h.passes.length

def meanPrimary (h : PassHistory) : Nat := h.mean PassRecord.primaryTime

def meanDelayed (h : PassHistory) : Nat := h.mean PassRecord.delayedTime

def later (best : Option PassRecord) (pass : PassRecord) : Option PassRecord :=
  match best with
  | none => some pass
  | some b => if b.total ≤ pass.total then some pass else some b

def slowest? (h : PassHistory) : Option PassRecord := h.passes.foldl later none

end PassHistory
end LiveMaps
