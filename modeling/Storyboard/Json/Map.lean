import Storyboard.Json.Basic
import Storyboard.OrderedMap

/-!
# Maps as JSON

A map from names is an object with a field for every name.
-/

namespace Storyboard

/-- Writes a map as an object, each value as given. -/
def OrderedMap.toJson {ν : Type} (m : OrderedMap String ν) (value : ν → Json) : Json :=
  .obj (m.entries.map fun e => (e.1, value e.2))

end Storyboard
