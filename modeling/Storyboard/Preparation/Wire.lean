import Storyboard.Preparation.Basic
import Storyboard.Review.Wire
import Storyboard.Timeline.Wire

/-!
# Terms as JSON

Reading and writing the terms on which scripts are prepared.
-/

namespace Storyboard.Terms

/-- Reads terms; what is left out is as usual. -/
def ofJson? (j : Json) : Option (Terms Float) := do
  let usual : Terms Float := Terms.usual
  let r ← j.record? ["validator", "compiler", "autoRepair"]
  let standards ← r.defaulted "validator" usual.standards Standards.ofJson?
  let timing ← r.defaulted "compiler" usual.timing Timing.ofJson?
  let autoRepair ← r.defaulted "autoRepair" usual.autoRepair Json.bool?
  return ⟨standards, timing, autoRepair⟩

def toJson (t : Terms Float) : Json :=
  .obj [("validator", t.standards.toJson), ("compiler", t.timing.toJson),
    ("autoRepair", .bool t.autoRepair)]

end Storyboard.Terms
