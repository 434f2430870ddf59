import LiveMaps.Ident
import LiveMaps.Ordered

namespace LiveMaps

inductive IdError where
  | exhausted
  | outOfRange (id : InstanceId)
  | sentinel
  | inUse (id : InstanceId)
  deriving DecidableEq, Repr

namespace IdError

def message : IdError → String
  | .exhausted => "instance id space exhausted"
  | .outOfRange id => "instance id " ++ id.text ++ " is outside the allocation table"
  | .sentinel => "instance id 0 is reserved"
  | .inUse id => "instance id " ++ id.text ++ " already backs a live copy"

end IdError

-- The cursor is where allocation looks first, and may stand on a used slot. Allocation
-- stops only when it stands exactly on the limit.
structure IdTable where
  free : Array Bool
  claimed : List InstanceId
  next : Nat
  limit : Nat
  deriving Repr

namespace IdTable

-- The cursor is counted in one machine word: past its largest number it is zero again.
def word : Nat := 0x100000000

def largestId : Nat := 0xffffffff

def limited (limit highest : Nat) : IdTable :=
  ⟨(Array.replicate (highest + 2) true).setIfInBounds 0 false,[],1,limit⟩

def sized (highest : Nat) : IdTable := limited largestId highest

def capacity (t : IdTable) : Nat := t.free.size

def slotFree (t : IdTable) (slot : Nat) : Bool := t.free.getD slot false

def isFree (t : IdTable) (id : InstanceId) : Bool := t.slotFree id.order

def isClaimed (t : IdTable) (id : InstanceId) : Bool := t.claimed.contains id

def reserve (t : IdTable) (id : InstanceId) : Except IdError IdTable :=
  if id.isBase then .error .sentinel
  else if t.free.size ≤ id.order then .error (.outOfRange id)
  else .ok {t with
    free := t.free.setIfInBounds id.order false
    next := if t.next = id.order then (t.next + 1) % word else t.next }

def grow (t : IdTable) (size : Nat) : IdTable :=
  {t with free := t.free ++ Array.replicate (size - t.free.size) true}

def claim (t : IdTable) (id : InstanceId) : Except IdError IdTable :=
  if t.isClaimed id then .error (.inUse id) else
  let grown := if id.isBase then t else t.grow (id.order + 2)
  match grown.reserve id with
  | .error e => .error e
  | .ok t => .ok {t with claimed := Ordered.insert InstanceId.order id t.claimed}

def scan (free : Array Bool) : Nat → Nat → Option Nat
  | 0,_ => none
  | count+1,slot => if free.getD slot false then some slot else scan free count (slot + 1)

def scanFrom (t : IdTable) (start : Nat) : IdTable × Nat :=
  match scan t.free (t.free.size - start) start with
  | some slot => (t,slot % word)
  | none => ({t with free := t.free.push true},t.free.size % word)

def allocate (t : IdTable) : Except IdError (InstanceId × IdTable) :=
  if t.next = t.limit then .error .exhausted else
  let (t,slot) := if t.slotFree t.next then (t,t.next) else t.scanFrom t.next
  let (t,next) := {t with free := t.free.setIfInBounds slot false}.scanFrom (slot + 1)
  .ok (.ofNat slot,{t with next := next})

def release (t : IdTable) (id : InstanceId) : Except IdError IdTable :=
  if id.isBase then .error .sentinel
  else if t.free.size ≤ id.order then .error (.outOfRange id)
  else .ok {t with
    free := t.free.setIfInBounds id.order true
    claimed := t.claimed.filter (· != id)
    next := min t.next id.order }

end IdTable
end LiveMaps
