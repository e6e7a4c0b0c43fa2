/-!
# TOML values

Strings, whole numbers and truth values are kept as what they mean. Fractions and dates are kept as
spelled.
-/

namespace RecordStore

/-- A value. -/
inductive Toml where
  | string (value : String)
  | integer (value : Int)
  | float (spelling : String)
  | boolean (value : Bool)
  | moment (spelling : String)
  | array (items : List Toml)
  /-- A table between braces, with its keys as dotted. -/
  | table (pairs : List (List String × Toml))

namespace Toml

/-- How deep values may be nested, and how many names a key may have. -/
def maxDepth : Nat := 79

instance : Inhabited Toml := ⟨boolean false⟩

end Toml

end RecordStore
