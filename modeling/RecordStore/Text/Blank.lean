/-!
# White space

The characters with the Unicode property `White_Space`, and trimming by it.

* `isBlank`: the property, by code point. It holds of every character that `Char.isWhitespace`
  knows (`isBlank_of_isWhitespace`) and of those that only Unicode counts.
* `trim`: a text without the blanks at its two ends.
-/

namespace RecordStore.Text

/-- The Unicode property `White_Space`. -/
def isBlank (c : Char) : Bool :=
  let n := c.toNat
  (0x09 ≤ n && n ≤ 0x0D) || n == 0x20 || n == 0x85 || n == 0xA0 || n == 0x1680 ||
    (0x2000 ≤ n && n ≤ 0x200A) || n == 0x2028 || n == 0x2029 || n == 0x202F || n == 0x205F ||
    n == 0x3000

/-- The characters without the blanks at either end. -/
def trim (cs : List Char) : List Char :=
  ((cs.dropWhile isBlank).reverse.dropWhile isBlank).reverse

theorem isBlank_of_isWhitespace {c : Char} (h : c.isWhitespace = true) : isBlank c = true := by
  simp only [Char.isWhitespace, Bool.or_eq_true, decide_eq_true_eq] at h
  rcases h with ((rfl | rfl) | rfl) | rfl <;> rfl

@[simp]
theorem trim_nil : trim [] = [] := rfl

end RecordStore.Text
