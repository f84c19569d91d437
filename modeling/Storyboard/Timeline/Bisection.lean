/-!
# Bisection

The place in an array up to which a condition holds, found by halving.  If the
condition holds for the front of the array and for nothing behind it, the place
is where the front ends.
-/

namespace Storyboard

/-- Where a condition stops to hold between two places of an array. -/
def splitBetween {β : Type} (p : β → Bool) (a : Array β) (low high : Nat)
    (h : high ≤ a.size) : Nat :=
  if hlt : low < high then
    have hmiddle : (low + high) / 2 < a.size := by omega
    if p a[(low + high) / 2] then splitBetween p a ((low + high) / 2 + 1) high h
    else splitBetween p a low ((low + high) / 2) (by omega)
  else low
termination_by high - low
decreasing_by all_goals omega

/-- Where a condition stops to hold in an array. -/
def splitPoint {β : Type} (p : β → Bool) (a : Array β) : Nat :=
  splitBetween p a 0 a.size (Nat.le_refl _)

/-- The last item of the front of an array, and the first behind it. -/
def neighbours {β : Type} (p : β → Bool) (a : Array β) : Option β × Option β :=
  let split := splitPoint p a
  (if split = 0 then none else a[split - 1]?, a[split]?)

end Storyboard
