import Storyboard.Json.Record
import Storyboard.Space.Spherical

/-!
# Vectors and spherical positions as JSON

Records of their numbers, read from objects or from arrays.
-/

namespace Storyboard

def Vec.toJson (v : Vec Float) : Json :=
  .obj [("x", .ofFloat v.x), ("y", .ofFloat v.y), ("z", .ofFloat v.z)]

def Vec.ofJson? (j : Json) : Option (Vec Float) := do
  let r ← j.record? ["x", "y", "z"]
  let x ← r.required "x" Json.number?
  let y ← r.required "y" Json.number?
  let z ← r.required "z" Json.number?
  return ⟨x, y, z⟩

def Spherical.toJson (s : Spherical Float) : Json :=
  .obj [("radius", .ofFloat s.radius), ("theta", .ofFloat s.theta), ("phi", .ofFloat s.phi)]

def Spherical.ofJson? (j : Json) : Option (Spherical Float) := do
  let r ← j.record? ["radius", "theta", "phi"]
  let radius ← r.required "radius" Json.number?
  let theta ← r.required "theta" Json.number?
  let phi ← r.required "phi" Json.number?
  return ⟨radius, theta, phi⟩

end Storyboard
