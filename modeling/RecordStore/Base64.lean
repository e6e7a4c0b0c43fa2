/-!
# Base 64

Bytes as text: three bytes are four digits of six bits, in the alphabet `A–Z a–z 0–9 + /`. A last
group of one or two bytes is filled up with `=`, and its unused bits are zero.

* `encode` writes that form and `decode?` reads nothing else: no missing or further `=`, no unused
  bit that is set, no blank.
* `digitValue?_digit`: the alphabet has 64 different characters.
-/

namespace RecordStore.Base64

/-- The digit of a value below 64. -/
def digit (n : Nat) : Char :=
  if n < 26 then Char.ofNat (n + 65)
  else if n < 52 then Char.ofNat (n + 71)
  else if n < 62 then Char.ofNat (n - 4)
  else if n = 62 then '+' else '/'

/-- The value of a digit. -/
def digitValue? (c : Char) : Option Nat :=
  if 'A' ≤ c ∧ c ≤ 'Z' then some (c.toNat - 65)
  else if 'a' ≤ c ∧ c ≤ 'z' then some (c.toNat - 71)
  else if '0' ≤ c ∧ c ≤ '9' then some (c.toNat + 4)
  else if c = '+' then some 62
  else if c = '/' then some 63
  else none

theorem digitValue?_digit {n : Nat} (h : n < 64) : digitValue? (digit n) = some n := by
  have : ∀ i : Fin 64, digitValue? (digit i) = some i.val := by decide +kernel
  exact this ⟨n, h⟩

/-- The digits of some bytes. -/
def encodeChars : List UInt8 → List Char
  | [] => []
  | [a] =>
    let n := a.toNat * 16
    [digit (n / 64), digit (n % 64), '=', '=']
  | [a, b] =>
    let n := (a.toNat * 256 + b.toNat) * 4
    [digit (n / 4096), digit (n / 64 % 64), digit (n % 64), '=']
  | a :: b :: c :: rest =>
    let n := (a.toNat * 256 + b.toNat) * 256 + c.toNat
    digit (n / 262144) :: digit (n / 4096 % 64) :: digit (n / 64 % 64) :: digit (n % 64) ::
      encodeChars rest

/-- The bytes of some digits. -/
def decodeChars : List Char → Option (List UInt8)
  | [] => some []
  | [w, x, '=', '='] => do
    let n := (← digitValue? w) * 64 + (← digitValue? x)
    if n % 16 = 0 then some [.ofNat (n / 16)] else none
  | [w, x, y, '='] => do
    let n := ((← digitValue? w) * 64 + (← digitValue? x)) * 64 + (← digitValue? y)
    if n % 4 = 0 then some [.ofNat (n / 1024), .ofNat (n / 4)] else none
  | w :: x :: y :: z :: rest => do
    let n := (((← digitValue? w) * 64 + (← digitValue? x)) * 64 + (← digitValue? y)) * 64
      + (← digitValue? z)
    let more ← decodeChars rest
    return .ofNat (n / 65536) :: .ofNat (n / 256) :: .ofNat n :: more
  | _ => none

/-- Bytes as text. -/
def encode (bytes : List UInt8) : String := .ofList (encodeChars bytes)

/-- The bytes that a text writes. -/
def decode? (text : String) : Option (List UInt8) := decodeChars text.toList

end RecordStore.Base64
