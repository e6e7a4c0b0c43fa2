import RecordStore.Json.Basic

/-!
# Reading JSON

A text is read byte by byte by a machine that keeps its own stack of open arrays and objects, so
values may be nested to any depth. It checks the whole syntax: blanks, commas, colons and brackets,
the spelling of numbers and literals, escapes, and that no string holds a bare control character.

* `Reader.step` is the machine, `Json.read?` runs it over a text.
* A number ends only at the byte behind it, so that byte is read as what follows a value.
* `Reader.run_append`: reading a text is reading its parts in turn.
-/

namespace RecordStore

/-- How much of a number has been read. -/
inductive Numeral.Stage where
  | sign
  | zero
  | whole
  | point
  | fraction
  | mark
  | markSign
  | exponent
  deriving DecidableEq, Repr

/-- A number in the reading, its digits newest first. -/
structure Numeral.Partial where
  stage : Numeral.Stage
  negative : Bool
  whole : List Nat := []
  fraction : List Nat := []
  scaleNegative : Bool := false
  scale : Nat := 0
  deriving Repr

namespace Numeral.Partial

/-- The number that begins with this character. -/
def start? (c : Char) : Option Partial :=
  if c = '-' then some { stage := .sign, negative := true }
  else if c = '0' then some { stage := .zero, negative := false, whole := [0] }
  else if c.isDigit then some { stage := .whole, negative := false, whole := [c.toNat - 48] }
  else none

/-- The number with one more character, if it can have it. -/
def push? (n : Partial) (c : Char) : Option Partial :=
  let d := c.toNat - 48
  match n.stage with
  | .sign =>
    if c = '0' then some { n with stage := .zero, whole := [0] }
    else if c.isDigit then some { n with stage := .whole, whole := [d] }
    else none
  | .zero =>
    if c = '.' then some { n with stage := .point }
    else if c = 'e' ∨ c = 'E' then some { n with stage := .mark }
    else none
  | .whole =>
    if c.isDigit then some { n with whole := d :: n.whole }
    else if c = '.' then some { n with stage := .point }
    else if c = 'e' ∨ c = 'E' then some { n with stage := .mark }
    else none
  | .point => if c.isDigit then some { n with stage := .fraction, fraction := [d] } else none
  | .fraction =>
    if c.isDigit then some { n with fraction := d :: n.fraction }
    else if c = 'e' ∨ c = 'E' then some { n with stage := .mark }
    else none
  | .mark =>
    if c = '+' then some { n with stage := .markSign }
    else if c = '-' then some { n with stage := .markSign, scaleNegative := true }
    else if c.isDigit then some { n with stage := .exponent, scale := d }
    else none
  | .markSign => if c.isDigit then some { n with stage := .exponent, scale := d } else none
  | .exponent => if c.isDigit then some { n with scale := 10 * n.scale + d } else none

/-- The number as it stands, if it may end here. -/
def finish? (n : Partial) : Option Numeral :=
  let numeral := ⟨n.negative, n.whole.reverse, n.fraction.reverse, none⟩
  match n.stage with
  | .zero | .whole | .fraction => some numeral
  | .exponent =>
    some { numeral with exponent := some (if n.scaleNegative then -n.scale else n.scale) }
  | _ => none

end Numeral.Partial

/-- An open array or object with what it holds so far, newest first. -/
inductive Json.Frame where
  | array (items : List Json)
  | object (fields : List (List Piece × Json))
  | field (fields : List (List Piece × Json)) (name : List Piece)

/-- What the machine reads next. -/
inductive Json.Mode where
  /-- A value. -/
  | value
  /-- A value, or the end of an empty array. -/
  | firstItem
  /-- The name of a field. -/
  | name
  /-- The name of a field, or the end of an empty object. -/
  | firstName
  /-- The colon behind a name. -/
  | colon
  /-- A comma or a closing bracket. -/
  | separator
  /-- The rest of a literal. -/
  | literal (rest : List Char) (value : Json)
  /-- More of a number. -/
  | number (part : Numeral.Partial)
  /-- More of a string, which is a name or a value, with its elements newest first. -/
  | string (isName : Bool) (pieces : List Piece)
  /-- The letter of an escape. -/
  | escape (isName : Bool) (pieces : List Piece)
  /-- More hexadecimal digits of an escape. -/
  | unit (isName : Bool) (pieces : List Piece) (missing : Nat) (value : Nat)
  /-- Nothing but blanks. -/
  | finished (value : Json)

/-- The machine between two bytes. -/
structure Json.Reader where
  mode : Json.Mode
  stack : List Json.Frame

namespace Json.Reader

/-- Before the first byte. -/
def start : Reader := ⟨.value, []⟩

/-- A blank between tokens. -/
def isBlank (c : Char) : Bool := c = ' ' || c = '\t' || c = '\n' || c = '\r'

/-- Hands a value that has been read to what it belongs to. -/
def deliver (v : Json) : List Frame → Option Reader
  | [] => some ⟨.finished v, []⟩
  | .array items :: stack => some ⟨.separator, .array (v :: items) :: stack⟩
  | .field fields name :: stack => some ⟨.separator, .object ((name, v) :: fields) :: stack⟩
  | .object _ :: _ => none

/-- Hands over a string that has been read. -/
def deliverString (isName : Bool) (pieces : List Piece) (stack : List Frame) : Option Reader :=
  if isName then
    match stack with
    | .object fields :: stack => some ⟨.colon, .field fields pieces.reverse :: stack⟩
    | _ => none
  else deliver (.string pieces.reverse) stack

/-- The first character of a value. -/
def beginValue (c : Char) (stack : List Frame) : Option Reader :=
  if c = '{' then some ⟨.firstName, .object [] :: stack⟩
  else if c = '[' then some ⟨.firstItem, .array [] :: stack⟩
  else if c = '"' then some ⟨.string false [], stack⟩
  else if c = 't' then some ⟨.literal "rue".toList (.bool true), stack⟩
  else if c = 'f' then some ⟨.literal "alse".toList (.bool false), stack⟩
  else if c = 'n' then some ⟨.literal "ull".toList .null, stack⟩
  else (Numeral.Partial.start? c).map fun part => ⟨.number part, stack⟩

/-- A comma or a closing bracket behind a value. -/
def separate (c : Char) : List Frame → Option Reader
  | .array items :: stack =>
    if c = ',' then some ⟨.value, .array items :: stack⟩
    else if c = ']' then deliver (.array items.reverse) stack
    else none
  | .object fields :: stack =>
    if c = ',' then some ⟨.name, .object fields :: stack⟩
    else if c = '}' then deliver (.object fields.reverse) stack
    else none
  | _ => none

/-- The byte of an escape of one letter. -/
def shortEscape? (c : Char) : Option UInt8 :=
  match c with
  | '"' => some 0x22
  | '\\' => some 0x5C
  | '/' => some 0x2F
  | 'b' => some 0x08
  | 'f' => some 0x0C
  | 'n' => some 0x0A
  | 'r' => some 0x0D
  | 't' => some 0x09
  | _ => none

/-- The element that an escape of four digits writes. -/
def unitPiece (u : Nat) : Piece :=
  if u < 0x80 then .byte (.ofNat u) else .unit (.ofNat u)

/-- A byte between tokens, or the first of a token. -/
def stepToken (r : Reader) (b : UInt8) : Option Reader :=
  let c := Char.ofUInt8 b
  if isBlank c then some r
  else match r.mode with
    | .value => beginValue c r.stack
    | .firstItem => if c = ']' then separate c r.stack else beginValue c r.stack
    | .name => if c = '"' then some ⟨.string true [], r.stack⟩ else none
    | .firstName =>
      if c = '}' then separate c r.stack
      else if c = '"' then some ⟨.string true [], r.stack⟩
      else none
    | .colon => if c = ':' then some ⟨.value, r.stack⟩ else none
    | .separator => separate c r.stack
    | _ => none

/-- One byte. -/
def step (r : Reader) (b : UInt8) : Option Reader :=
  let c := Char.ofUInt8 b
  match r.mode with
  | .literal rest v =>
    match rest with
    | [] => none
    | [e] => if c = e then deliver v r.stack else none
    | e :: rest => if c = e then some ⟨.literal rest v, r.stack⟩ else none
  | .number part =>
    match part.push? c with
    | some part => some ⟨.number part, r.stack⟩
    | none => do stepToken (← deliver (.number (← part.finish?)) r.stack) b
  | .string isName pieces =>
    if c = '"' then deliverString isName pieces r.stack
    else if c = '\\' then some ⟨.escape isName pieces, r.stack⟩
    else if b < 0x20 then none
    else some ⟨.string isName (.byte b :: pieces), r.stack⟩
  | .escape isName pieces =>
    if c = 'u' then some ⟨.unit isName pieces 4 0, r.stack⟩
    else (shortEscape? c).map fun e => ⟨.string isName (.byte e :: pieces), r.stack⟩
  | .unit isName pieces missing value =>
    (Text.hexDigit? c).map fun d =>
      let value := 16 * value + d.val
      if missing ≤ 1 then ⟨.string isName (unitPiece value :: pieces), r.stack⟩
      else ⟨.unit isName pieces (missing - 1) value, r.stack⟩
  | _ => stepToken r b

/-- Some bytes in turn. -/
def run (r : Reader) (bytes : List UInt8) : Option Reader := bytes.foldlM step r

/-- The value that has been read, if the text may end here. -/
def finish? (r : Reader) : Option Json :=
  match r.mode with
  | .finished v => some v
  | .number part =>
    if r.stack.isEmpty then part.finish?.map .number else none
  | _ => none

theorem run_append (r : Reader) (xs ys : List UInt8) :
    r.run (xs ++ ys) = (r.run xs).bind (·.run ys) :=
  List.foldlM_append

end Json.Reader

/-- The value that a text writes. -/
def Json.read? (text : List UInt8) : Option Json :=
  (Json.Reader.start.run text).bind Json.Reader.finish?

end RecordStore
