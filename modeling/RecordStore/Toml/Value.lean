import RecordStore.Toml.Layout
import RecordStore.Toml.Number
import RecordStore.Toml.Text

/-!
# The values of TOML

* Arrays may span lines, hold comments and have a comma behind their last item.
* Tables in braces stay on their line and have none. Their keys are laid out as those of a table.
* Values are nested no deeper than `maxDepth`.
-/

namespace RecordStore.Toml.Read

open Text

/-- A truth value. -/
def boolean : Reader Bool :=
  (do Reader.exactly "true"; return true) <|> (do Reader.exactly "false"; return false)

/-- A value that holds no others. -/
def atom : Reader Toml :=
  (.string <$> string) <|> (.boolean <$> boolean) <|> (.moment <$> Reader.spelling moment) <|>
    (.float <$> Reader.spelling float) <|> (.integer <$> integer)

/-- An array of items. -/
def array (item : Reader Toml) : Reader Toml := do
  Reader.exactly "["
  let items ← Reader.optional <|
    Reader.separated (do gap; let v ← item; gap; return v) (Reader.exactly ",")
  if items.isSome then discard (Reader.optional (Reader.exactly ","))
  gap
  Reader.exactly "]"
  return .array (items.getD [])

/-- A key and its value. -/
def pair (item : Reader Toml) : Reader (List String × Toml) := do
  let key ← key
  Reader.exactly "="
  blanks
  return (key, ← item)

/-- A table in braces. -/
def table (item : Reader Toml) : Reader Toml := do
  Reader.exactly "\x7b"
  let pairs ← Reader.optional <|
    Reader.separated (do let p ← pair item; blanks; return p) (Reader.exactly ",")
  blanks
  Reader.exactly "\x7d"
  let pairs := pairs.getD []
  if (Layout.ofPairs? pairs).isSome then return .table pairs else failure

/-- A value nested no deeper than this. -/
def nested : Nat → Reader Toml
  | 0 => atom
  | depth + 1 => atom <|> array (nested depth) <|> table (nested depth)

/-- A value. -/
def value : Reader Toml := nested maxDepth

end RecordStore.Toml.Read
