import RecordStore.Toml.Value

/-!
# TOML documents

A document is read line by line: keys with their values, headers of tables and of series of tables,
comments and blank lines. A value may span several lines. A byte order mark may stand in front.

* `Line` is what a line says, `Read.lines?` reads them all.
* `Layout.ofText?` lays out what they say, each pair in the table of the header above it.
-/

namespace RecordStore.Toml

open Text

/-- What a line says. -/
inductive Line where
  | pair (key : List String) (value : Toml)
  | table (key : List String)
  | item (key : List String)

namespace Read

/-- A key between brackets. -/
def header (left right : String) : Reader (List String) := do
  Reader.exactly left
  let key ← key
  Reader.exactly right
  return key

/-- A line that says something. -/
def line : Reader Line :=
  (.item <$> header "[[" "]]") <|> (.table <$> header "[" "]") <|>
    (do let (key, v) ← pair value; return .pair key v)

/-- The lines of a document. -/
def lines? (text : List Char) : Option (List Line) :=
  Reader.all? (do
    discard (Reader.optional (Reader.exactly "\uFEFF"))
    let lines ← Reader.many do
      blanks
      let line ← Reader.optional line
      lineEnd
      return line
    return lines.filterMap id) text

end Read

namespace Layout

/-- What one more line adds, below the header of a table. -/
def addLine : Path × Layout → Line → Option (Path × Layout)
  | (base, l), .pair key v => (l.put base key v).map (base, ·)
  | (_, l), .table key => l.openTable key
  | (_, l), .item key => l.openItem key

/-- The layout of a document. -/
def ofText? (text : String) : Option Layout :=
  ((Read.lines? text.toList).bind fun lines => lines.foldlM addLine ([], {})).map (·.2)

end Layout

end RecordStore.Toml
