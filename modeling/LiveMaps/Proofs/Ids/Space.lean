import LiveMaps.Proofs.Ids.Table
import Mathlib.Data.Finset.Lattice.Fold
import Mathlib.Order.Bounds.Basic

namespace LiveMaps

inductive IdCall where
  | reserve (id : InstanceId)
  | claim (id : InstanceId)
  | release (id : InstanceId)
  | allocate
  deriving DecidableEq, Repr

abbrev IdAnswer := Except IdError (Option InstanceId)

def IdCall.run (step : σ → IdCall → σ × IdAnswer) : σ → List IdCall → σ × List IdAnswer
  | s,[] => (s,[])
  | s,call :: rest =>
    let (s,first) := step s call
    let (s,later) := run step s rest
    (s,first :: later)

namespace IdTable

def answer (t : IdTable) : Except IdError IdTable → IdTable × IdAnswer
  | .ok after => (after,.ok none)
  | .error e => (t,.error e)

def call (t : IdTable) : IdCall → IdTable × IdAnswer
  | .reserve id => t.answer (t.reserve id)
  | .claim id => t.answer (t.claim id)
  | .release id => t.answer (t.release id)
  | .allocate =>
    match t.allocate with
    | .ok (id,after) => (after,.ok (some id))
    | .error e => (t,.error e)

-- The same calls on a table that is changed in place, with a cursor of one machine word. What a call has
-- changed before it fails stays changed. No answer at all stands for an access past the end of the table,
-- or for a cursor that is counted past the largest word.

def write? (t : IdTable) (slot : Nat) (value : Bool) : Option IdTable :=
  if slot < t.capacity then some {t with free := t.free.setIfInBounds slot value} else none

def seek? (bits : Array Bool) : Nat → Nat → Option (Option Nat)
  | 0,_ => some none
  | count+1,slot => do
    if ← bits[slot]? then return some slot else seek? bits count (slot + 1)

def seekFrom? (t : IdTable) (start : Nat) : Option (IdTable × Nat) := do
  match ← seek? t.free (t.capacity - start) start with
  | some slot => return (t,slot % word)
  | none => return ({t with free := t.free.push true},t.capacity % word)

def reserveInPlace? (t : IdTable) (id : InstanceId) : Option (IdTable × IdAnswer) :=
  if id.isBase then some (t,.error .sentinel)
  else if t.capacity ≤ id.order then some (t,.error (.outOfRange id))
  else do
    let t ← t.write? id.order false
    if t.next = id.order then
      if t.next + 1 < word then return ({t with next := t.next + 1},.ok none) else none
    else return (t,.ok none)

def claimInPlace? (t : IdTable) (id : InstanceId) : Option (IdTable × IdAnswer) :=
  if t.isClaimed id then some (t,.error (.inUse id)) else do
    let t := if id.isBase then t else t.grow (id.order + 2)
    match ← t.reserveInPlace? id with
    | (t,.error e) => return (t,.error e)
    | (t,.ok _) => return ({t with claimed := Ordered.insert InstanceId.order id t.claimed},.ok none)

def releaseInPlace? (t : IdTable) (id : InstanceId) : Option (IdTable × IdAnswer) :=
  if id.isBase then some (t,.error .sentinel)
  else if t.capacity ≤ id.order then some (t,.error (.outOfRange id))
  else do
    let t ← {t with next := min t.next id.order}.write? id.order true
    return ({t with claimed := t.claimed.filter (· != id)},.ok none)

def firstSlot? (t : IdTable) : Option (IdTable × Nat) :=
  if t.slotFree t.next then some (t,t.next) else t.seekFrom? t.next

def allocateInPlace? (t : IdTable) : Option (IdTable × IdAnswer) :=
  if t.next = t.limit then some (t,.error .exhausted) else do
    let (t,slot) ← t.firstSlot?
    let t ← {t with next := slot}.write? slot false
    let (t,next) ← t.seekFrom? (slot + 1)
    return ({t with next := next},.ok (some (.ofNat slot)))

def perform? (t : IdTable) : IdCall → Option (IdTable × IdAnswer)
  | .reserve id => t.reserveInPlace? id
  | .claim id => t.claimInPlace? id
  | .release id => t.releaseInPlace? id
  | .allocate => t.allocateInPlace?

end IdTable

-- An allocator without table and cursor: which positive identifiers are used,
-- which of them back a live copy, and how many slots there are.
@[ext]
structure IdSpace where
  used : Finset Nat
  claimed : Finset Nat
  length : Nat
  deriving DecidableEq

namespace IdSpace

def ofHighest (highest : Nat) : IdSpace := ⟨∅,∅,highest + 2⟩

theorem unused_exists (used : Finset Nat) (start : Nat) : ∃ n, start ≤ n ∧ n ∉ used := by
  refine ⟨max start (used.sup id + 1),Nat.le_max_left _ _,fun member => ?_⟩
  have bound : max start (used.sup id + 1) ≤ used.sup id := Finset.le_sup (f := id) member
  omega

def firstUnused (used : Finset Nat) (start : Nat) : Nat := Nat.find (unused_exists used start)

def call (s : IdSpace) : IdCall → IdSpace × IdAnswer
  | .reserve id =>
    if id = .base then (s,.error .sentinel)
    else if s.length ≤ id.order then (s,.error (.outOfRange id))
    else ({s with used := insert id.order s.used},.ok none)
  | .claim id =>
    if id.order ∈ s.claimed then (s,.error (.inUse id))
    else if id = .base then (s,.error .sentinel)
    else (⟨insert id.order s.used,insert id.order s.claimed,max s.length (id.order + 2)⟩,.ok none)
  | .release id =>
    if id = .base then (s,.error .sentinel)
    else if s.length ≤ id.order then (s,.error (.outOfRange id))
    else (⟨s.used.erase id.order,s.claimed.erase id.order,s.length⟩,.ok none)
  | .allocate =>
    let id := firstUnused s.used 1
    let spare := firstUnused s.used (id + 1)
    (⟨insert id s.used,s.claimed,max s.length (spare + 1)⟩,.ok (some (.ofNat id)))

theorem firstUnused_isLeast (used : Finset Nat) (start : Nat) :
    IsLeast {n | start ≤ n ∧ n ∉ used} (firstUnused used start) :=
  ⟨Nat.find_spec (unused_exists used start),fun _ member => Nat.find_min' _ member⟩

theorem firstUnused_eq {used : Finset Nat} (reached : start ≤ n) (unused : n ∉ used)
    (least : ∀ k, start ≤ k → k < n → k ∈ used) : firstUnused used start = n := by
  obtain ⟨member,bound⟩ := firstUnused_isLeast used start
  refine Nat.le_antisymm (bound ⟨reached,unused⟩) (Nat.le_of_not_lt fun below => ?_)
  exact member.2 (least _ member.1 below)

end IdSpace
end LiveMaps
