import Mathlib.Data.List.DropRight
import Mathlib.Data.List.Forall2
import RecordStore.Text.Blank

/-!
# Words between blanks

A word that a text gives may have blanks around it, and its letters may be in either ASCII case.

* `Trimmed`: that characters are those of a text without the blanks at its ends. `trimmed_iff`:
  **there is one way to take the blanks off**, and trimming takes it.
* `trim_eq_self`: nothing is taken off characters that are no blanks.
* `InAnyCase`: that characters are a word, each in either case. `map_toLower_eq_iff`: **in lower
  case they are the word.**
-/

namespace RecordStore.Text

variable {cs core word : List Char}

/-! ## Blanks at the ends -/

/-- That `core` is what a text is without the blanks at its ends. -/
structure Trimmed (cs core : List Char) : Prop where
  exists_append : ∃ before after, cs = before ++ (core ++ after) ∧
    (∀ c ∈ before, isBlank c = true) ∧ ∀ c ∈ after, isBlank c = true
  head_not_blank : ∀ c ∈ core.head?, ¬isBlank c = true
  last_not_blank : ∀ c ∈ core.getLast?, ¬isBlank c = true

theorem trim_eq (cs : List Char) : trim cs = (cs.dropWhile isBlank).rdropWhile isBlank := rfl

theorem trimmed_trim (cs : List Char) : Trimmed cs (trim cs) := by
  refine ⟨⟨cs.takeWhile isBlank, (cs.dropWhile isBlank).rtakeWhile isBlank, ?_,
    fun _ => List.mem_takeWhile_imp, fun _ => List.mem_rtakeWhile_imp⟩, fun c hc => ?_,
    fun c hc => ?_⟩
  · rw [trim_eq, List.rdropWhile_append_rtakeWhile, List.takeWhile_append_dropWhile]
  · -- What is not taken off at the end begins as before.
    obtain ⟨after, ha⟩ := List.rdropWhile_prefix isBlank (l := cs.dropWhile isBlank)
    have hhead : (cs.dropWhile isBlank).head? = some c := by
      rw [← ha, List.head?_append, ← trim_eq, Option.mem_def.mp hc]
      rfl
    simpa [hhead] using List.head?_dropWhile_not isBlank cs
  · obtain ⟨hne, rfl⟩ := List.mem_getLast?_eq_getLast hc
    exact List.rdropWhile_last_not isBlank _ hne

/-- **There is one way to take the blanks off**, and trimming takes it. -/
theorem trimmed_iff : Trimmed cs core ↔ trim cs = core := by
  constructor
  · rintro ⟨⟨before, after, rfl, hbefore, hafter⟩, hhead, hlast⟩
    rw [trim_eq, List.dropWhile_append_of_pos hbefore]
    cases core with
    | nil =>
      rw [List.nil_append, List.dropWhile_eq_nil_iff.mpr hafter, List.rdropWhile_nil]
    | cons c core =>
      have hfirst : ¬isBlank c = true := hhead c rfl
      rw [List.cons_append, List.dropWhile_cons_of_neg hfirst, ← List.cons_append,
        List.rdropWhile, List.reverse_append, List.dropWhile_append_of_pos (by simpa using hafter),
        ← List.rdropWhile]
      exact List.rdropWhile_eq_self_iff.mpr fun hne => hlast _ (List.getLast_mem_getLast? hne)
  · rintro rfl
    exact trimmed_trim cs

/-- Nothing is taken off what is no blank. -/
theorem trim_eq_self (h : ∀ c ∈ cs, ¬isBlank c = true) : trim cs = cs :=
  trimmed_iff.mp ⟨⟨[], [], by simp, by simp, by simp⟩, fun c hc => h c (List.mem_of_mem_head? hc),
    fun c hc => h c (List.mem_of_mem_getLast? hc)⟩

theorem not_isBlank_of_isDigit {c : Char} (h : c.isDigit = true) : ¬isBlank c = true := by
  obtain ⟨hlow, hhigh⟩ := Char.isDigit_iff_toNat.mp h
  simp only [Char.reduceToNat] at hlow hhigh
  simp only [isBlank, Bool.or_eq_true, Bool.and_eq_true, decide_eq_true_eq, beq_iff_eq]
  omega

/-! ## Letters in either case -/

/-- That characters are a word, which is in lower case, each letter of it in either case. -/
def InAnyCase (word cs : List Char) : Prop :=
  List.Forall₂ (fun l c => c = l ∨ c = l.toUpper) word cs

instance (word cs : List Char) : Decidable (InAnyCase word cs) :=
  inferInstanceAs (Decidable (List.Forall₂ _ _ _))

theorem toNat_toLower (c : Char) :
    c.toLower.toNat = if 65 ≤ c.toNat ∧ c.toNat ≤ 90 then c.toNat + 32 else c.toNat := by
  have hval : c.toLower.val = if 'A'.val ≤ c.val ∧ c.val ≤ 'Z'.val
      then c.val + ('a'.val - 'A'.val) else c.val := by
    delta Char.toLower
    split <;> rfl
  have hfirst : 'A'.val ≤ c.val ↔ 65 ≤ c.toNat := UInt32.le_iff_toNat_le
  have hlast : c.val ≤ 'Z'.val ↔ c.toNat ≤ 90 := UInt32.le_iff_toNat_le
  have hsum : (c.val + ('a'.val - 'A'.val)).toNat = (c.toNat + 32) % 0x100000000 :=
    UInt32.toNat_add _ _
  grind [Char.toNat]

theorem toNat_toUpper (c : Char) :
    c.toUpper.toNat = if 97 ≤ c.toNat ∧ c.toNat ≤ 122 then c.toNat - 32 else c.toNat := by
  have hval : c.toUpper.val = if 'a'.val ≤ c.val ∧ c.val ≤ 'z'.val
      then c.val + ('A'.val - 'a'.val) else c.val := by
    delta Char.toUpper
    split <;> rfl
  have hfirst : 'a'.val ≤ c.val ↔ 97 ≤ c.toNat := UInt32.le_iff_toNat_le
  have hlast : c.val ≤ 'z'.val ↔ c.toNat ≤ 122 := UInt32.le_iff_toNat_le
  -- The difference of the two letters is below zero.
  have hsum : (c.val + ('A'.val - 'a'.val)).toNat = (c.toNat + 0xFFFFFFE0) % 0x100000000 :=
    UInt32.toNat_add _ _
  grind [Char.toNat]

theorem toLower_eq_iff {c l : Char} (hl : l.toLower = l) :
    c.toLower = l ↔ c = l ∨ c = l.toUpper := by
  simp only [← Char.toNat_inj, toNat_toLower, toNat_toUpper] at *
  grind

/-- **A word in any case is the word when it is in lower case.** -/
theorem map_toLower_eq_iff (hw : ∀ l ∈ word, l.toLower = l) :
    cs.map Char.toLower = word ↔ InAnyCase word cs := by
  induction word generalizing cs with
  | nil => simp [InAnyCase]
  | cons l word ih =>
    obtain ⟨hl, hw⟩ := List.forall_mem_cons.mp hw
    cases cs with
    | nil => simp [InAnyCase]
    | cons c cs =>
      rw [List.map_cons, List.cons.injEq, ih hw, toLower_eq_iff hl]
      simp only [InAnyCase, List.forall₂_cons]

end RecordStore.Text
