import Omniscience.Base.Python

/-!
# Reading JSON mappings

What the source does with a decoded JSON value: `mapping.get` and `type(value)`.
-/

namespace Omniscience

/-- `type(value).__name__`. -/
def Json.typeName : Json → String
  | .null => "NoneType"
  | .bool _ => "bool"
  | .int _ => "int"
  | .float _ => "float"
  | .str _ => "str"
  | .arr _ => "list"
  | .obj _ => "dict"

namespace Mapping

/-- `mapping.get(key, default)`. -/
def getD (m : Metadata) (key : String) (default : Json) : Json := (m.lookup key).getD default

/-- `mapping.get(key)`. -/
def get (m : Metadata) (key : String) : Json := getD m key .null

theorem getD_of_lookup {m : Metadata} {key : String} {v : Json} (h : m.lookup key = some v)
    (default : Json) : getD m key default = v := by
  rw [getD, h, Option.getD_some]

end Mapping

end Omniscience
