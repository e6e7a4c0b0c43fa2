import RecordStore.Text.Decimal
import RecordStore.Text.Double
import RecordStore.Text.Hex
import RecordStore.Text.Reader

/-!
# The numbers and dates of TOML

* A whole number fits into 64 bits. It is decimal with a sign or none, or hexadecimal, octal or
  binary without one. A decimal number has no zero in front, and single underscores may stand
  between digits.
* A fraction has a point, an exponent or both, or is a word for infinity or no number. One too
  large for double precision is refused, but not one too far below zero.
* A date is one of the calendar. It stands alone or with a time of day, which may have an offset.
-/

namespace RecordStore.Toml.Read

open Text

/-- Digits of a class with single underscores between them. -/
def digits (p : Char → Bool) : Reader (List Char) := do
  let first ← Reader.one p
  return first :: (← Reader.many (Reader.one p <|> (do Reader.exactly "_"; Reader.one p)))

/-- A sign, if any. -/
def sign : Reader (List Char) := do
  return (← Reader.optional (Reader.one fun c => c = '+' || c = '-')).toList

/-- Decimal digits without a zero in front. -/
def whole : Reader (List Char) :=
  (do return [← Reader.one (· = '0')]) <|> digits Char.isDigit

/-- A decimal number. -/
def decimal : Reader Int := do
  let sign ← sign
  Reader.ofOption (signedWord? (sign ++ (← whole)))

/-- A number in another radix behind its mark. -/
def inRadix (mark : String) (radix : Nat) : Reader Int := do
  Reader.exactly mark
  let digits ← digits fun c => (hexDigit? c).any (·.val < radix)
  let value := (digits.filterMap hexDigit?).foldl (fun n d => radix * n + d.val) 0
  if isSignedWord value then return value else failure

/-- A whole number. -/
def integer : Reader Int :=
  inRadix "0x" 16 <|> inRadix "0o" 8 <|> inRadix "0b" 2 <|> decimal

/-- A point and the digits behind it. -/
def fraction : Reader (List Char) := do
  Reader.exactly "."
  digits Char.isDigit

/-- A power of ten. -/
def exponent : Reader Int := do
  Reader.exactly "e" <|> Reader.exactly "E"
  let sign ← sign
  Reader.ofOption (integer? (sign ++ (← digits Char.isDigit)))

/-- The digits of a fraction, and the power of ten of the last one. -/
def scaled : Reader (List Char × Int) := do
  let whole ← whole
  (do return (whole, ← exponent)) <|> do
    let fraction ← fraction
    let power := (← Reader.optional exponent).getD 0
    return (whole ++ fraction, power - fraction.length)

/-- A fraction, or what stands for one. -/
def float : Reader Unit := do
  let sign ← sign
  Reader.exactly "inf" <|> Reader.exactly "nan" <|> do
    let (digits, power) ← scaled
    if sign = ['-'] ∨ Double.isFinite digits power then return () else failure

/-- A number of so many decimal digits within bounds. -/
def field (count low high : Nat) : Reader Nat := do
  let n ← Reader.ofOption (digits? (← Reader.take count))
  if low ≤ n ∧ n ≤ high then return n else failure

/-- How many days a month has. -/
def daysIn (year month : Nat) : Nat :=
  if month = 2 then
    if year % 4 = 0 ∧ (year % 100 ≠ 0 ∨ year % 400 = 0) then 29 else 28
  else if month ∈ [4, 6, 9, 11] then 30
  else 31

/-- A day. -/
def date : Reader Unit := do
  let year ← field 4 0 9999
  Reader.exactly "-"
  let month ← field 2 1 12
  Reader.exactly "-"
  discard (field 2 1 (daysIn year month))

/-- A time of day. -/
def time : Reader Unit := do
  discard (field 2 0 23)
  Reader.exactly ":"
  discard (field 2 0 59)
  Reader.exactly ":"
  discard (field 2 0 60)
  discard (Reader.optional (do Reader.exactly "."; Reader.some1 Char.isDigit))

/-- How far a time is off. -/
def offset : Reader Unit :=
  Reader.exactly "Z" <|> Reader.exactly "z" <|> do
    discard (Reader.one fun c => c = '+' || c = '-')
    discard (field 2 0 23)
    Reader.exactly ":"
    discard (field 2 0 59)

/-- A day, a time or both. -/
def moment : Reader Unit :=
  (do
    date
    discard <| Reader.optional do
      discard (Reader.one fun c => c = 'T' || c = 't' || c = ' ')
      time
      Reader.optional offset) <|> time

end RecordStore.Toml.Read
