/-!
# Hexadecimal digits

* `lastDigit` is the last hexadecimal digit of a number.
* `hexDigit?` reads a digit of either case, `hexChar` writes one in lower case.
* `hexDigit?_hexChar`: a written digit is read back as itself.
* `SpellsDigit`: a digit in either case. `hexDigit?_of_spellsDigit`: so is this.
-/

namespace RecordStore.Text

/-- The last four bits of a number. -/
def lastDigit (n : Nat) : Fin 16 := ⟨n % 16, Nat.mod_lt n (by decide)⟩

/-- The value of a hexadecimal digit of either case. -/
def hexDigit? (c : Char) : Option (Fin 16) :=
  if '0' ≤ c ∧ c ≤ '9' then some (lastDigit (c.toNat - 48))
  else if 'a' ≤ c ∧ c ≤ 'f' then some (lastDigit (c.toNat - 87))
  else if 'A' ≤ c ∧ c ≤ 'F' then some (lastDigit (c.toNat - 55))
  else none

/-- A hexadecimal digit in lower case. -/
def hexChar (d : Fin 16) : Char :=
  Nat.digitChar d

theorem hexDigit?_hexChar (d : Fin 16) : hexDigit? (hexChar d) = some d := by
  revert d; decide

/-- That a character is a digit, in lower or in upper case. -/
def SpellsDigit (d : Fin 16) (c : Char) : Prop := c = hexChar d ∨ c = (hexChar d).toUpper

instance (d : Fin 16) (c : Char) : Decidable (SpellsDigit d c) :=
  inferInstanceAs (Decidable (_ ∨ _))

theorem hexDigit?_of_spellsDigit {d : Fin 16} {c : Char} (h : SpellsDigit d c) :
    hexDigit? c = some d := by
  have hupper : ∀ d, hexDigit? (hexChar d).toUpper = some d := by decide
  rcases h with rfl | rfl
  · exact hexDigit?_hexChar d
  · exact hupper d

end RecordStore.Text
