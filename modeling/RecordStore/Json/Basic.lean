import RecordStore.Text.Double
import RecordStore.Text.Hex

/-!
# JSON values

A JSON value as a tree that keeps strings and numbers as they were spelled, as far as that decides
whether they are usable. Escapes are taken apart, but whether a string is Unicode at all, and
whether a number has a finite value, is asked only where it matters.

* `Piece`: an element of a string, a byte or a 16-bit unit written by an escape.
* `Numeral`: the digits of a number.
* `text?`, `integer?`: the string or whole number that a value is.
* `plain`: the value holds Unicode strings and finite numbers only, and is nested no deeper than
  allowed.
-/

namespace RecordStore

/-- An element of a string. ASCII characters are bytes, however they are spelled. -/
inductive Piece where
  | byte (b : UInt8)
  | unit (u : UInt16)
  deriving DecidableEq, Repr

namespace Piece

/-- The bytes of a string's elements. A unit of a surrogate pair needs its other half. -/
def bytes? : List Piece → Option (List UInt8)
  | [] => some []
  | byte b :: rest => (bytes? rest).map (b :: ·)
  | unit u :: rest =>
    let u := u.toNat
    if u < 0xD800 ∨ 0xE000 ≤ u then (bytes? rest).map (String.utf8EncodeChar (Char.ofNat u) ++ ·)
    else match rest with
      | unit v :: rest =>
        let v := v.toNat
        if u < 0xDC00 ∧ 0xDC00 ≤ v ∧ v < 0xE000 then
          let c := Char.ofNat (0x10000 + (u - 0xD800) * 0x400 + (v - 0xDC00))
          (bytes? rest).map (String.utf8EncodeChar c ++ ·)
        else none
      | _ => none

/-- The string that the elements spell, if it is Unicode. -/
def text? (pieces : List Piece) : Option String :=
  (bytes? pieces).bind fun bs => String.fromUTF8? bs.toByteArray

/-- The elements of a string. -/
def ofText (s : String) : List Piece :=
  s.toUTF8.data.toList.map byte

theorem bytes?_map_byte (bs : List UInt8) : bytes? (bs.map byte) = some bs := by
  induction bs with
  | nil => rfl
  | cons b bs ih => simp [bytes?, ih]

theorem fromUTF8?_toUTF8 (s : String) : String.fromUTF8? s.toUTF8 = some s := by
  have h : s.toUTF8.IsValidUTF8 := s.isValidUTF8
  simp only [String.fromUTF8?, h, dite_true]
  rfl

theorem text?_ofText (s : String) : text? (ofText s) = some s := by
  have h : s.toUTF8.data.toList.toByteArray = s.toUTF8 := by
    apply ByteArray.ext; simp [List.data_toByteArray]
  simp only [text?, ofText, bytes?_map_byte, Option.bind_some, h, fromUTF8?_toUTF8]

end Piece

/-- The digits of a number. A number with neither a fraction nor an exponent is whole. -/
structure Numeral where
  negative : Bool
  whole : List Nat
  fraction : List Nat := []
  exponent : Option Int := none
  deriving DecidableEq, Repr

namespace Numeral

/-- The number that decimal digits write. -/
def ofDigits (digits : List Nat) : Nat :=
  digits.foldl (fun n d => 10 * n + d) 0

/-- A whole number. Minus zero is none. -/
def integer? (n : Numeral) : Option Int :=
  let value := ofDigits n.whole
  if n.fraction ≠ [] ∨ n.exponent ≠ none ∨ (n.negative ∧ value = 0) then none
  else if n.negative then some (-value) else some value

/-- The numeral of a whole number. -/
def ofInt (n : Int) : Numeral :=
  ⟨n < 0, (Nat.toDigits 10 n.natAbs).map fun c => c.toNat - 48, [], none⟩

/-- Appends digits to a number of 64 bits while it stays one: the number, and how many of the digits
are left over. -/
def extend (n : Nat) : List Nat → Nat × Nat
  | [] => (n, 0)
  | d :: ds =>
    if 10 * n + d < 0x10000000000000000 then extend (10 * n + d) ds else (n, ds.length + 1)

/-- The nearest number with 53 significant bits, an even one from between two. -/
def round53 (n : Nat) : Nat :=
  let shift := n.log2 - 52
  let q := n >>> shift
  let rest := n - (q <<< shift)
  let half := 1 <<< shift
  let q := if 2 * rest > half ∨ (2 * rest = half ∧ q % 2 = 1) then q + 1 else q
  q <<< shift

/-- Whether the number has a finite value in double precision. Its leading digits and its power of
ten are rounded apart, and then multiplied. -/
def finite (n : Numeral) : Bool :=
  let (whole, dropped) := extend 0 n.whole
  let (value, ignored) := extend whole n.fraction
  let power : Int := dropped + ignored - n.fraction.length + n.exponent.getD 0
  if value = 0 ∨ power < 0 then true
  else if 308 < power then false
  else round53 value * round53 (Nat.pow 10 power.toNat) < Text.Double.overflow

end Numeral

/-- A JSON value as spelled. -/
inductive Json where
  | null
  | bool (value : Bool)
  | number (value : Numeral)
  | string (value : List Piece)
  | array (items : List Json)
  | object (fields : List (List Piece × Json))

namespace Json

instance : Inhabited Json := ⟨null⟩

/-- A string value. -/
def ofText (s : String) : Json := string (Piece.ofText s)

/-- An object with these fields. -/
def ofFields (fields : List (String × Json)) : Json :=
  object (fields.map fun field => (Piece.ofText field.1, field.2))

/-- The string that a value is, if it is Unicode. -/
def text? : Json → Option String
  | string pieces => Piece.text? pieces
  | _ => none

/-- The whole number that a value is. -/
def integer? : Json → Option Int
  | number n => n.integer?
  | _ => none

/-- The items of an array. -/
def items? : Json → Option (List Json)
  | array items => some items
  | _ => none

/-- The fields of an object, if all their names are Unicode. -/
def fields? : Json → Option (List (String × Json))
  | object fields => fields.mapM fun field => (Piece.text? field.1).map (·, field.2)
  | _ => none

/-- The value of the only field of a name. -/
def only? (name : String) (fields : List (String × Json)) : Option Json :=
  match fields.filter (·.1 = name) with
  | [field] => some field.2
  | _ => none

/-- Whether every string is Unicode, every number finite, and no value nested deeper than this. -/
def plain : Nat → Json → Bool
  | _, null => true
  | _, bool _ => true
  | _, number n => n.finite
  | _, string pieces => (Piece.text? pieces).isSome
  | 0, _ => false
  | depth + 1, array items => items.all (plain depth)
  | depth + 1, object fields =>
    fields.all fun field => (Piece.text? field.1).isSome && plain depth field.2

end Json

end RecordStore
