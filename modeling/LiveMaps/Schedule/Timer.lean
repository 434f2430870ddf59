namespace LiveMaps

structure IntervalTimer where
  interval : UInt32
  current : UInt32
  deriving DecidableEq, Repr, Inhabited

namespace IntervalTimer

def every (interval : UInt32) : IntervalTimer := ⟨interval,0⟩

-- Time past the largest word is dropped.
def add (t : IntervalTimer) (elapsed : UInt32) : IntervalTimer :=
  {t with current :=
    if t.current.toNat + elapsed.toNat < 0x100000000 then t.current + elapsed else 0xffffffff }

def passed (t : IntervalTimer) : Bool := t.interval.toNat ≤ t.current.toNat

def setInterval (t : IntervalTimer) (interval : UInt32) : IntervalTimer := {t with interval := interval}

def reset (t : IntervalTimer) : IntervalTimer := {t with current := 0}

end IntervalTimer
end LiveMaps
