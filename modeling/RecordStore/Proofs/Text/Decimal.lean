import Mathlib.Data.List.Induction
import RecordStore.Text.Decimal

/-!
# What decimal numerals denote

A numeral is the decimal text of a number, behind any zeros and at most one plus sign. So a number
has many numerals, but a text denotes one number at most, and reading finds just this number.

* `Denotes`: that a text is a numeral of a number.
* `exists_toDigits`: digits are the decimal text of a number behind zeros.
* `natural?_eq_some_iff`, `word?_eq_some_iff`: **a text is read as the number that it denotes**, if
  this fits. `signedWord?_eq_some_iff`: so is one that may have a sign, above zero.
-/

namespace RecordStore.Text

/-- That a text denotes a number. -/
inductive Denotes : List Char → Nat → Prop
  | plain (zeros n : Nat) : Denotes (List.replicate zeros '0' ++ Nat.toDigits 10 n) n
  | signed (zeros n : Nat) : Denotes ('+' :: (List.replicate zeros '0' ++ Nat.toDigits 10 n)) n

variable {cs : List Char} {n : Nat}

theorem exists_digitChar {c : Char} (h : c.isDigit = true) : ∃ d < 10, c = Nat.digitChar d := by
  obtain ⟨hlow, hhigh⟩ := Char.isDigit_iff_toNat.mp h
  have hd : ∀ d : Fin 10, Nat.digitChar d = Char.ofNat (48 + d) := by decide
  have hc : c.toNat - 48 < 10 := by
    simp at hlow hhigh
    omega
  refine ⟨c.toNat - 48, hc, ?_⟩
  have hof := hd ⟨c.toNat - 48, hc⟩
  have hsum : 48 + (c.toNat - 48) = c.toNat := Nat.add_sub_cancel' hlow
  rw [hsum, Char.ofNat_toNat] at hof
  exact hof.symm

/-- **Digits are the decimal text of the number that they spell**, behind zeros. -/
theorem exists_toDigits (hne : cs ≠ []) (hcs : cs.all Char.isDigit = true) :
    ∃ zeros, cs = List.replicate zeros '0' ++ Nat.toDigits 10 (Nat.ofDigitChars 10 cs 0) := by
  induction cs using List.reverseRecOn with
  | nil => exact absurd rfl hne
  | append_singleton cs c ih =>
    rw [List.all_append, Bool.and_eq_true, List.all_cons, Bool.and_eq_true] at hcs
    obtain ⟨d, hd, rfl⟩ := exists_digitChar hcs.2.1
    have hone : Nat.toDigits 10 d = [Nat.digitChar d] := Nat.toDigits_of_lt_base hd
    rw [Nat.ofDigitChars_append, Nat.ofDigitChars_cons_digitChar_of_lt_ten hd, Nat.ofDigitChars_nil]
    by_cases hnil : cs = []
    · subst hnil
      refine ⟨0, ?_⟩
      rw [Nat.ofDigitChars_nil, Nat.mul_zero, Nat.zero_add, hone]
      rfl
    · obtain ⟨zeros, hz⟩ := ih hnil hcs.1
      rcases Nat.eq_zero_or_pos (Nat.ofDigitChars 10 cs 0) with h0 | hpos
      · -- There are only zeros before the last digit.
        refine ⟨zeros + 1, ?_⟩
        rw [h0, Nat.toDigits_zero] at hz
        rw [h0, Nat.mul_zero, Nat.zero_add, hone, List.replicate_succ', ← hz]
      · refine ⟨zeros, ?_⟩
        rw [← Nat.toDigits_append_toDigits (by decide) hpos hd, hone, ← List.append_assoc, ← hz]

/-- Reading digits finds the number whose decimal text they are behind zeros. -/
theorem digits?_eq_some_iff :
    digits? cs = some n ↔ ∃ zeros, cs = List.replicate zeros '0' ++ Nat.toDigits 10 n := by
  constructor
  · intro h
    unfold digits? at h
    split at h
    · rename_i hcs
      obtain rfl := Option.some.inj h
      exact exists_toDigits hcs.1 hcs.2
    · cases h
  · rintro ⟨zeros, rfl⟩
    have hzeros : (List.replicate zeros '0').all Char.isDigit = true := by
      simp [List.all_replicate]
    have hdigits : (Nat.toDigits 10 n).all Char.isDigit = true :=
      List.all_eq_true.mpr fun _ hc => Nat.isDigit_of_mem_toDigits (by decide) (by decide) hc
    have hvalue : Nat.ofDigitChars 10 (List.replicate zeros '0' ++ Nat.toDigits 10 n) 0 = n := by
      rw [Nat.ofDigitChars_append, Nat.ofDigitChars_replicate_zero, Nat.mul_zero,
        Nat.ofDigitChars_ten_toDigits]
    rw [digits?, if_pos, hvalue]
    refine ⟨List.append_ne_nil_of_right_ne_nil _ Nat.toDigits_ne_nil, ?_⟩
    rw [List.all_append, hzeros, hdigits]
    rfl

/-- **A text is read as the number that it denotes.** -/
theorem natural?_eq_some_iff : natural? cs = some n ↔ Denotes cs n := by
  constructor
  · intro h
    unfold natural? at h
    split at h
    · obtain ⟨zeros, rfl⟩ := digits?_eq_some_iff.mp h
      exact .signed zeros n
    · obtain ⟨zeros, rfl⟩ := digits?_eq_some_iff.mp h
      exact .plain zeros n
  · intro h
    cases h with
    | signed zeros => exact digits?_eq_some_iff.mpr ⟨zeros, rfl⟩
    | plain zeros =>
      have hd : digits? (List.replicate zeros '0' ++ Nat.toDigits 10 n) = some n :=
        digits?_eq_some_iff.mpr ⟨zeros, rfl⟩
      unfold natural?
      split
      · -- No digit is a sign.
        rename_i cs hcs
        rw [hcs] at hd
        simp [digits?] at hd
      · exact hd

/-- **A word is read when the number that a text denotes has 64 bits.** -/
theorem word?_eq_some_iff : word? cs = some n ↔ Denotes cs n ∧ n < 0x10000000000000000 := by
  rw [word?, Option.filter_eq_some_iff, natural?_eq_some_iff, decide_eq_true_eq]

/-- **A number with a sign is read when a text denotes it**, and no text denotes one below zero. -/
theorem signedWord?_eq_some_iff (hn : 0 < n) :
    signedWord? cs = some (n : Int) ↔ Denotes cs n ∧ n < 0x8000000000000000 := by
  have hsize : isSignedWord n = true ↔ n < 0x8000000000000000 := by
    simp only [isSignedWord, Bool.and_eq_true, decide_eq_true_eq]
    omega
  rw [signedWord?, Option.filter_eq_some_iff, hsize, ← natural?_eq_some_iff]
  refine and_congr_left fun _ => ?_
  unfold integer?
  split
  · -- Behind a minus sign stands no number above zero, and the sign is no digit.
    rename_i cs
    have hminus : natural? ('-' :: cs) = none := by simp [natural?, digits?]
    rw [hminus]
    cases digits? cs with
    | none => simp
    | some m =>
      simp
      omega
  · cases natural? cs with
    | none => simp
    | some m =>
      show some (m : Int) = some (n : Int) ↔ some m = some n
      rw [Option.some_inj, Option.some_inj, Int.ofNat_inj]

/-- A text denotes one number at most. -/
theorem Denotes.unique {m : Nat} (hn : Denotes cs n) (hm : Denotes cs m) : n = m :=
  Option.some.inj ((natural?_eq_some_iff.mpr hn).symm.trans (natural?_eq_some_iff.mpr hm))

end RecordStore.Text
