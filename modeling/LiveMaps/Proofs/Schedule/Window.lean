import LiveMaps.Proofs.Schedule.Durations
import LiveMaps.Schedule.History
import Mathlib.Algebra.Group.Action.Defs
import Mathlib.Algebra.Order.BigOperators.Group.List
import Mathlib.Algebra.Order.Ring.Nat
import Mathlib.Data.List.Induction

namespace LiveMaps

namespace PassRecord

def Short (p : PassRecord) : Prop := p.primaryTime < 2 ^ 64 ∧ p.delayedTime < 2 ^ 64

instance Short.decidable (p : PassRecord) : Decidable p.Short :=
  inferInstanceAs (Decidable (p.primaryTime < 2 ^ 64 ∧ p.delayedTime < 2 ^ 64))

end PassRecord

namespace PassHistory
variable {h : PassHistory} {capacity : Nat} {passes : List PassRecord} {pass : PassRecord} {best : Option PassRecord}

def recorded (capacity : Nat) (passes : List PassRecord) : PassHistory := passes.foldl record (.ofCapacity capacity)

structure Window (capacity : Nat) (passes : List PassRecord) (h : PassHistory) : Prop where
  room : h.capacity = max capacity 1
  kept : h.passes = passes.drop (passes.length - h.capacity)

theorem Window.length (window : Window capacity passes h) : h.passes.length = min passes.length h.capacity := by
  rw [window.kept,List.length_drop]
  omega

theorem Window.record (window : Window capacity passes h) (pass : PassRecord) :
    Window capacity (passes ++ [pass]) (h.record pass) := by
  have room := window.room
  have length := window.length
  refine ⟨room,?_⟩
  have next : (if h.passes.length = h.capacity then h.passes.drop 1 else h.passes) =
      passes.drop (passes.length + 1 - h.capacity) := by
    split
    · rename_i full
      rw [window.kept,List.drop_drop]
      congr 1
      omega
    · rename_i spare
      rw [window.kept]
      congr 1
      omega
  simp only [PassHistory.record,next,List.length_append,List.length_singleton]
  rw [List.drop_append_of_le_length (by omega)]

-- The longest pass, the latest of several.
def Slowest (passes : List PassRecord) : Option PassRecord → Prop
  | none => passes = []
  | some p => ∃ earlier rest, passes = earlier ++ p :: rest ∧
      (∀ q ∈ earlier, q.total ≤ p.total) ∧ ∀ q ∈ rest, q.total < p.total

theorem Slowest.later (slowest : Slowest passes best) (pass : PassRecord) :
    Slowest (passes ++ [pass]) (later best pass) := by
  cases best with
  | none =>
    rw [show passes = [] from slowest]
    exact ⟨[],[],rfl,nofun,nofun⟩
  | some b =>
    obtain ⟨earlier,rest,rfl,before,after⟩ := slowest
    unfold PassHistory.later
    dsimp only
    split
    · rename_i longer
      refine ⟨earlier ++ b :: rest,[],rfl,fun q member => ?_,nofun⟩
      rcases List.mem_append.mp member with old | member
      · exact Nat.le_trans (before q old) longer
      · rcases List.mem_cons.mp member with rfl | new
        · exact longer
        · exact Nat.le_trans (Nat.le_of_lt (after q new)) longer
    · rename_i shorter
      refine ⟨earlier,rest ++ [pass],by simp,before,fun q member => ?_⟩
      rcases List.mem_append.mp member with new | last
      · exact after q new
      · rw [List.mem_singleton.mp last]
        omega

end PassHistory
end LiveMaps
