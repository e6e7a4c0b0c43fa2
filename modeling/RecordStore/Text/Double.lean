/-!
# Double precision

A number is rounded to the nearest double, and to an even one from between two.

* `overflow` is the least number that is rounded to infinity.
* `isFinite` tells from the decimal digits of a number whether it is less.
-/

namespace RecordStore.Text.Double

/-- The middle between the greatest double and the power of two above it. -/
def overflow : Nat := Nat.pow 2 1024 - Nat.pow 2 970

/-- How many decimal digits `overflow` has. -/
def overflowSize : Nat := 309

/-- Whether the nearest double is finite, for decimal digits and the power of ten of the last one.
As `overflow` is whole, the digits behind the point decide nothing. -/
def isFinite (digits : List Char) (power : Int) : Bool :=
  let digits := digits.dropWhile (· = '0')
  let size := digits.length + power
  if digits.isEmpty ∨ size < overflowSize then true
  else if overflowSize < size then false
  else
    let whole := (digits ++ List.replicate overflowSize '0').take overflowSize
    Nat.ofDigitChars 10 whole 0 < overflow

end RecordStore.Text.Double
