import RecordStore.History
import RecordStore.Proofs.Lists
import RecordStore.Proofs.Text.Decimal
import RecordStore.Proofs.Text.Word

/-!
# Which texts name a version

Between its blanks a text has the word for the latest version, a numeral of the number of a version,
or neither. It never is both, and what a version is written as names this version.

* `latestWord`: the word for the latest version. `not_denotes_of_inAnyCase`: it is no numeral.
* `parse_cases`: how a text is read, by what is between its blanks.
* `parse_eq_latest_iff`, `parse_eq_number_iff`, `parse_eq_error_iff`: the same for each result.
* `parse_toText`: a version is read back from its text.
* `parse_named`: **which texts name which version**, and what is said of all others.
-/

namespace RecordStore.Version

open Text (Denotes InAnyCase Trimmed trim word? word?_eq_some_iff)

variable {text : String} {cs : List Char}

/-! ## Between the blanks -/

/-- The word for the latest version. -/
def latestWord : List Char := "latest".toList

theorem map_toLower_eq_iff : cs.map Char.toLower = "latest".toList ↔ InAnyCase latestWord cs :=
  Text.map_toLower_eq_iff (Lists.forall_mem_of_all (by decide))

/-- The word for the latest version begins with a letter, and so with no digit or sign. -/
theorem not_denotes_of_inAnyCase (h : InAnyCase latestWord cs) (n : Nat) : ¬Denotes cs n := by
  have hword : latestWord = 'l' :: "atest".toList := rfl
  rw [InAnyCase, hword] at h
  rw [← Text.natural?_eq_some_iff]
  obtain ⟨c, cs, rfl | rfl, -, rfl⟩ := List.forall₂_cons_left_iff.mp h <;>
    simp [Text.natural?, Text.digits?]

/-- **How a text is read**, by what is between its blanks. -/
theorem parse_cases (text : String) :
    (InAnyCase latestWord (trim text.toList) ∧ parse text = .ok latest) ∨
    (∃ n : UInt64, Denotes (trim text.toList) n.toNat ∧ parse text = .ok (number n)) ∨
    (¬InAnyCase latestWord (trim text.toList) ∧
      (∀ n < 0x10000000000000000, ¬Denotes (trim text.toList) n) ∧
      parse text = .error (.invalidVersion text)) := by
  by_cases hl : InAnyCase latestWord (trim text.toList)
  · exact .inl ⟨hl, if_pos (map_toLower_eq_iff.mpr hl)⟩
  · have hlower := mt map_toLower_eq_iff.mp hl
    cases hw : word? (trim text.toList) with
    | some n =>
      obtain ⟨hd, hlt⟩ := word?_eq_some_iff.mp hw
      have hn : (UInt64.ofNat n).toNat = n := UInt64.toNat_ofNat_of_lt' hlt
      refine .inr (.inl ⟨.ofNat n, hn.symm ▸ hd, ?_⟩)
      simp only [parse, if_neg hlower, hw]
    | none =>
      refine .inr (.inr ⟨hl, fun n hlt hd => ?_, ?_⟩)
      · rw [word?_eq_some_iff.mpr ⟨hd, hlt⟩] at hw
        cases hw
      · simp only [parse, if_neg hlower, hw]

theorem parse_eq_latest_iff :
    parse text = .ok latest ↔ InAnyCase latestWord (trim text.toList) := by
  obtain ⟨hl, hp⟩ | ⟨n, hd, hp⟩ | ⟨hl, -, hp⟩ := parse_cases text
  · simp [hl, hp]
  · have hl := mt not_denotes_of_inAnyCase (not_forall_not.mpr ⟨_, hd⟩)
    simp [hl, hp]
  · simp [hl, hp]

theorem parse_eq_number_iff {n : UInt64} :
    parse text = .ok (number n) ↔ Denotes (trim text.toList) n.toNat := by
  obtain ⟨hl, hp⟩ | ⟨m, hd, hp⟩ | ⟨-, hall, hp⟩ := parse_cases text
  · simp [not_denotes_of_inAnyCase hl, hp]
  · have huniq : Denotes (trim text.toList) n.toNat ↔ m = n := by
      constructor
      · exact fun hn => UInt64.toNat_inj.mp (hd.unique hn)
      · rintro rfl
        exact hd
    simp [huniq, hp]
  · simp [hall _ n.toNat_lt, hp]

theorem parse_eq_error_iff {e : StoreError} :
    parse text = .error e ↔ e = .invalidVersion text ∧
      ¬InAnyCase latestWord (trim text.toList) ∧
      ∀ n < 0x10000000000000000, ¬Denotes (trim text.toList) n := by
  obtain ⟨hl, hp⟩ | ⟨n, hd, hp⟩ | ⟨hl, hall, hp⟩ := parse_cases text
  · simp [hl, hp]
  · have hsome : ¬∀ n < 0x10000000000000000, ¬Denotes (trim text.toList) n :=
      fun hall => hall _ n.toNat_lt hd
    simp [hsome, hp]
  · simp only [hp, hl, Except.error.injEq, not_false_eq_true, true_and, eq_comm]
    exact ⟨fun he => ⟨he, hall⟩, And.left⟩

/-! ## Writing -/

/-- A version is read back from its text. -/
theorem parse_toText (v : Version) : parse v.toText = .ok v := by
  cases v with
  | latest => exact parse_eq_latest_iff.mpr (by decide)
  | number n =>
    have hdigits : n.toNat.repr.toList = Nat.toDigits 10 n.toNat := by simp [Nat.repr]
    have htrim : trim (Nat.toDigits 10 n.toNat) = Nat.toDigits 10 n.toNat :=
      Text.trim_eq_self fun c hc => Text.not_isBlank_of_isDigit
        (Nat.isDigit_of_mem_toDigits (by decide) (by decide) hc)
    rw [parse_eq_number_iff, toText, hdigits, htrim]
    exact .plain 0 n.toNat

/-- **Which texts name which version.** Without its blanks, a text is the word for the latest
version in any case, or it is a numeral of a number of 64 bits, or it is refused as it is. What a
version is written as names the version. -/
theorem parse_named :
    (∀ text : String, ∃ word, (∀ core, Trimmed text.toList core ↔ core = word) ∧
      (parse text = .ok latest ↔ InAnyCase latestWord word) ∧
      (∀ n : UInt64, parse text = .ok (number n) ↔ Denotes word n.toNat) ∧
      ∀ e, parse text = .error e ↔ e = .invalidVersion text ∧ ¬InAnyCase latestWord word ∧
        ∀ n < 0x10000000000000000, ¬Denotes word n) ∧
    ∀ v : Version, parse v.toText = .ok v := by
  refine ⟨fun text => ⟨trim text.toList, fun core => ?_, parse_eq_latest_iff,
    fun n => parse_eq_number_iff, fun e => parse_eq_error_iff⟩, parse_toText⟩
  rw [Text.trimmed_iff, eq_comm]

end RecordStore.Version
