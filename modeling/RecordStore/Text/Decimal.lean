/-!
# Decimal numerals

Reading numbers from text: one or more ASCII digits after at most one sign. Zeros may lead, and
nothing else may stand around the digits. A reader with a word size refuses what does not fit.

* `digits?` reads the digits, `natural?` allows a plus sign, `integer?` either sign.
* `word?` and `signedWord?` keep the numbers of 64 bits.
* `digits?_toDigits`: what `Nat.toDigits 10` writes is read back. `word?_repr`: so is a numeral of
  64 bits.
-/

namespace RecordStore.Text

/-- The number written by one or more decimal digits. -/
def digits? (cs : List Char) : Option Nat :=
  if cs ≠ [] ∧ cs.all Char.isDigit then some (Nat.ofDigitChars 10 cs 0) else none

/-- Digits after at most one plus sign. -/
def natural? : List Char → Option Nat
  | '+' :: cs => digits? cs
  | cs => digits? cs

/-- Digits after at most one sign. -/
def integer? : List Char → Option Int
  | '-' :: cs => (digits? cs).map fun n => -(n : Int)
  | cs => (natural? cs).map fun n => (n : Int)

/-- A number of 64 bits. -/
def word? (cs : List Char) : Option Nat :=
  (natural? cs).filter (· < 0x10000000000000000)

/-- Whether 64 bits hold the number and its sign. -/
def isSignedWord (n : Int) : Bool :=
  -0x8000000000000000 ≤ n && n < 0x8000000000000000

/-- A number of 64 bits with a sign. -/
def signedWord? (cs : List Char) : Option Int :=
  (integer? cs).filter isSignedWord

theorem digits?_toDigits (n : Nat) : digits? (Nat.toDigits 10 n) = some n := by
  have h : (Nat.toDigits 10 n).all Char.isDigit = true :=
    List.all_eq_true.mpr fun _ hc => Nat.isDigit_of_mem_toDigits (by decide) (by decide) hc
  simp [digits?, Nat.toDigits_ne_nil, h]

theorem natural?_toDigits (n : Nat) : natural? (Nat.toDigits 10 n) = some n := by
  unfold natural?
  split
  · rename_i cs h
    have hd : '+'.isDigit = true :=
      Nat.isDigit_of_mem_toDigits (by decide) (by decide) (h ▸ List.mem_cons_self)
    cases hd
  · exact digits?_toDigits n

theorem word?_repr {n : Nat} (h : n < 0x10000000000000000) : word? n.repr.toList = some n := by
  have hr : n.repr.toList = Nat.toDigits 10 n := by simp [Nat.repr]
  rw [word?, hr, natural?_toDigits]
  simp [h]

end RecordStore.Text
