import RecordStore.Text.Hex
import RecordStore.Text.Reader
import RecordStore.Toml.Basic

/-!
# The text of TOML

Blanks, comments and line ends, strings in their four forms, and keys.

* A string in double quotes has escapes, one in single quotes has none.
* A string in three quotes may span lines. A line end behind its opening is left out, and every line
  end counts as a line feed. One or two quotes may stand in it anywhere, also before its closing.
* No control character but the tab stands anywhere.
* A key has no more than `maxDepth` names.
-/

namespace RecordStore.Toml

open Text

/-- A blank within a line. -/
def isBlank (c : Char) : Bool := c = ' ' || c = '\t'

/-- A character that may stand on a line. -/
def isPrintable (c : Char) : Bool := c = '\t' || (0x20 ≤ c.toNat && c.toNat ≠ 0x7F)

/-- A character that may stand in double quotes as it is. -/
def isPlain (c : Char) : Bool := isPrintable c && c ≠ '"' && c ≠ '\\'

/-- A character that may stand in single quotes. -/
def isLiteral (c : Char) : Bool := isPrintable c && c ≠ '\x27'

/-- A character of a key without quotes. -/
def isBare (c : Char) : Bool := c.isAlphanum || c = '_' || c = '-'

namespace Read

/-- Blanks, if any. -/
def blanks : Reader Unit := discard (Reader.run isBlank)

/-- The end of a line, but not of the text. -/
def newline : Reader Unit := Reader.exactly "\n" <|> Reader.exactly "\r\n"

/-- A comment up to the end of its line. -/
def comment : Reader Unit := do
  Reader.exactly "#"
  discard (Reader.run isPrintable)

/-- What may follow on a line that is complete. -/
def lineEnd : Reader Unit := do
  blanks
  discard (Reader.optional comment)
  newline <|> Reader.ending

/-- Blanks, comments and line ends. -/
def gap : Reader Unit := do
  discard (Reader.many (do blanks; discard (Reader.optional comment); newline))
  blanks

/-- The character that so many hexadecimal digits name. -/
def scalar (count : Nat) : Reader Char := do
  let digits ← Reader.ofOption ((← Reader.take count).mapM hexDigit?)
  let code := digits.foldl (fun n d => 16 * n + d.val) 0
  if code.isValidChar then return Char.ofNat code else failure

/-- An escaped character. -/
def escape : Reader Char := do
  Reader.exactly "\\"
  match ← Reader.one fun _ => true with
  | 'b' => return '\x08'
  | 't' => return '\t'
  | 'n' => return '\n'
  | 'f' => return '\x0c'
  | 'r' => return '\r'
  | '"' => return '"'
  | '\\' => return '\\'
  | 'u' => scalar 4
  | 'U' => scalar 8
  | _ => failure

/-- Some characters in double quotes. -/
def stretch : Reader (List Char) := Reader.some1 isPlain <|> (do return [← escape])

/-- A string in double quotes. -/
def quoted : Reader String := do
  Reader.exactly "\""
  let parts ← Reader.many stretch
  Reader.exactly "\""
  return .ofList parts.flatten

/-- A string in single quotes. -/
def literal : Reader String := do
  Reader.exactly "'"
  let cs ← Reader.run isLiteral
  Reader.exactly "'"
  return .ofList cs

/-- One or two quotes, which close nothing. -/
def fewQuotes (quote : Char) : Reader (List Char) := do
  let cs ← Reader.some1 (· = quote)
  if cs.length < 3 then return cs else failure

/-- The three quotes that close a string, and up to two before them that belong to it. -/
def closing (quote : Char) : Reader (List Char) := do
  let count := (← Reader.run (· = quote)).length
  if 3 ≤ count ∧ count ≤ 5 then return List.replicate (count - 3) quote else failure

/-- The end of a line behind a backslash, with all blanks and line ends that follow. -/
def fold : Reader (List Char) := do
  Reader.exactly "\\"
  blanks
  newline
  discard (Reader.many (newline <|> discard (Reader.one isBlank)))
  return []

/-- A string over several lines. -/
def lines (quote : Char) (part : Reader (List Char)) : Reader String := do
  Reader.exactly (.ofList [quote, quote, quote])
  discard (Reader.optional newline)
  let parts ← Reader.many (part <|> (do newline; return ['\n']) <|> fewQuotes quote)
  return .ofList (parts.flatten ++ (← closing quote))

/-- A string in any form. -/
def string : Reader String :=
  lines '"' (stretch <|> fold) <|> lines '\x27' (Reader.some1 isLiteral) <|>
    quoted <|> literal

/-- A key without dots. -/
def name : Reader String := (.ofList <$> Reader.some1 isBare) <|> quoted <|> literal

/-- A key as its names between the dots, few enough. -/
def key : Reader (List String) := do
  let names ← Reader.separated (do blanks; let n ← name; blanks; return n) (Reader.exactly ".")
  if names.length ≤ maxDepth then return names else failure

end Read

end RecordStore.Toml
