import Omniscience.Parsers.Terraform

/-!
# YAML values

What `yaml.safe_load` yields, and what the source does with it: `mapping.get`, iteration, `str` and
the truth value.  Loading itself stays abstract.
-/

namespace Omniscience.Parsers

/-- A loaded YAML value; `other` is a scalar of another type (a date, a byte string). -/
inductive Yaml where
  | null
  | bool (b : Bool)
  | int (n : ℤ)
  | float (text : String)
  | str (s : String)
  | other (typeName text : String)
  | seq (items : List Yaml)
  | set (items : List Yaml)
  | map (members : List (Yaml × Yaml))

namespace Yaml

/-- A mapping. -/
abbrev Members := List (Yaml × Yaml)

/-- `type(value).__name__`. -/
def typeName : Yaml → String
  | null => "NoneType"
  | bool _ => "bool"
  | int _ => "int"
  | float _ => "float"
  | str _ => "str"
  | other name _ => name
  | seq _ => "list"
  | set _ => "set"
  | map _ => "dict"

/-- `bool(value)`. -/
def truthy : Yaml → Bool
  | null => false
  | bool b => b
  | int n => n ≠ 0
  | float text => text ≠ "0.0" ∧ text ≠ "-0.0"
  | str s => s ≠ ""
  | other _ text => text ≠ "b''"
  | seq items => !items.isEmpty
  | set items => !items.isEmpty
  | map members => !members.isEmpty

/-- The key is the text. -/
def isText (key : String) : Yaml → Bool
  | str s => s = key
  | _ => false

/-- `mapping.get(key)`, where `none` is a missing key. -/
def lookup (m : Members) (key : String) : Option Yaml :=
  (m.find? fun p => isText key p.1).map Prod.snd

/-- `mapping.get(key, default)`. -/
def getD (m : Members) (key : String) (default : Yaml) : Yaml := (lookup m key).getD default

/-- `value or default`. -/
def orElse (v default : Yaml) : Yaml := if v.truthy then v else default

/-- A value on which a method of mappings is called. -/
def asMapping (method : String) : Yaml → Except Exc Members
  | map members => .ok members
  | v => .error ⟨.attributeError, "'" ++ v.typeName ++ "' object has no attribute '" ++ method ++
      "'"⟩

/-- `for x in value`. -/
def iterate : Yaml → Except Exc (List Yaml)
  | seq l => .ok l
  | set l => .ok l
  | str s => .ok (s.toList.map fun c => str (String.singleton c))
  | map members => .ok (members.map Prod.fst)
  | v => .error ⟨.typeError, "'" ++ v.typeName ++ "' object is not iterable"⟩

end Yaml

/-- What loading a text comes to.  Syntax errors are `YAMLError`s; a scalar that looks like a date
but is none, for instance, raises another exception. -/
inductive Loaded where
  | value (v : Yaml)
  | yamlError (text : String)
  | raised (exc : Exc)

/-- The runtime with the YAML library. -/
structure YamlPy extends ParserPy where
  /-- `yaml.safe_load`. -/
  safeLoad : String → Loaded
  /-- `str(value)` of a value that is no text. -/
  shown : Yaml → String

/-- `str(value)`. -/
def YamlPy.yamlStr (py : YamlPy) : Yaml → String
  | .str s => s
  | v => py.shown v

/-- `_safe_str`. -/
def YamlPy.safeStr (py : YamlPy) : Yaml → String
  | .null => ""
  | v => py.yamlStr v

end Omniscience.Parsers
