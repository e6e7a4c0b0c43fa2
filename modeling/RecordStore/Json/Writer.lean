import RecordStore.Json.Basic

/-!
# Writing JSON

A value is written without blanks. In a string only the quotation mark, the backslash and the
control characters are escaped, by a letter where there is one and as `\u00xx` otherwise; every
other byte stands for itself.

* `Json.escapeByte` is the escaping rule, byte by byte, and `Json.write` writes a value.
-/

namespace RecordStore

namespace Json

/-- The bytes of an ASCII text. -/
def ascii (text : String) : List UInt8 := text.toList.map Char.toUInt8

/-- Four hexadecimal digits behind `\u`. -/
def unitEscape (u : Nat) : List UInt8 :=
  let digit (n : Nat) := (Text.hexChar (Text.lastDigit n)).toUInt8
  ascii "\\u" ++ [digit (u / 4096), digit (u / 256), digit (u / 16), digit u]

/-- A byte of a string as written. -/
def escapeByte (b : UInt8) : List UInt8 :=
  if b = 0x22 then ascii "\\\""
  else if b = 0x5C then ascii "\\\\"
  else if b = 0x08 then ascii "\\b"
  else if b = 0x0C then ascii "\\f"
  else if b = 0x0A then ascii "\\n"
  else if b = 0x0D then ascii "\\r"
  else if b = 0x09 then ascii "\\t"
  else if b < 0x20 then unitEscape b.toNat
  else [b]

/-- An element of a string as written. -/
def escape : Piece → List UInt8
  | .byte b => escapeByte b
  | .unit u => unitEscape u.toNat

/-- A string as written. -/
def writeString (pieces : List Piece) : List UInt8 :=
  ascii "\"" ++ (pieces.flatMap escape ++ ascii "\"")

/-- Digits as written. -/
def writeDigits (digits : List Nat) : List UInt8 := digits.map fun d => .ofNat (d + 48)

/-- A number as written. -/
def writeNumeral (n : Numeral) : List UInt8 :=
  (if n.negative then ascii "-" else []) ++ writeDigits n.whole ++
    (if n.fraction = [] then [] else ascii "." ++ writeDigits n.fraction) ++
    match n.exponent with
    | none => []
    | some e => ascii (if e < 0 then "e-" else "e") ++ ascii e.natAbs.repr

mutual

/-- A value as written. -/
def write : Json → List UInt8
  | null => ascii "null"
  | bool true => ascii "true"
  | bool false => ascii "false"
  | number n => writeNumeral n
  | string pieces => writeString pieces
  | array items => ascii "[" ++ (writeItems items ++ ascii "]")
  | object fields => ascii "\x7b" ++ (writeFields fields ++ ascii "\x7d")

/-- The items of an array, joined by commas. -/
def writeItems : List Json → List UInt8
  | [] => []
  | [v] => write v
  | v :: w :: rest => write v ++ (ascii "," ++ writeItems (w :: rest))

/-- The fields of an object, joined by commas. -/
def writeFields : List (List Piece × Json) → List UInt8
  | [] => []
  | [(name, v)] => writeString name ++ (ascii ":" ++ write v)
  | (name, v) :: next :: rest =>
    writeString name ++ (ascii ":" ++ (write v ++ (ascii "," ++ writeFields (next :: rest))))

end

end Json

end RecordStore
