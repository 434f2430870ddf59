import LiveMaps.Number.Natural
import Mathlib.Algebra.Order.Ring.Nat

namespace LiveMaps

structure Duration where
  seconds : UInt64
  nanos : UInt32
  below : nanos.toNat < 1000000000
  deriving DecidableEq, Repr

namespace Duration

def zero : Duration := ⟨0,0,by decide⟩

def length (d : Duration) : Nat := d.seconds.toNat * 1000000000 + d.nanos.toNat

end Duration
end LiveMaps
