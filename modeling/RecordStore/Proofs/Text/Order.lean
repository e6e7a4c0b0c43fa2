import Mathlib.Data.String.Basic
import RecordStore.Dict

/-!
# Texts in the order of their bytes

Texts are compared by code point, and one begins with another when its characters do. In UTF-8 both
can be told from the bytes: of two characters the greater has the greater first byte, or bytes that
are greater from the first on that differs, and no character's bytes begin with another's.

* `Text.bytes`: the bytes of a text in UTF-8.
* `utf8EncodeChar_lt`: **characters are ordered as their bytes are, whatever comes behind.**
* `bytes_lt`, `bytes_prefix_iff`: so are texts, and so is the beginning of a text told.
-/

namespace RecordStore.Text

/-- The bytes of a text in UTF-8. -/
def bytes (s : String) : List UInt8 := s.toUTF8.data.toList

theorem bytes_eq (s : String) : bytes s = s.toList.flatMap String.utf8EncodeChar := by
  conv_lhs => rw [← String.ofList_toList (s := s)]
  rw [bytes, String.toUTF8_eq_toByteArray, String.toByteArray_ofList, List.utf8Encode,
    List.data_toByteArray]

/-! ## Characters -/

theorem ofNat_lt_ofNat {m n : Nat} (hm : m < 256) (hn : n < 256) :
    UInt8.ofNat m < UInt8.ofNat n ↔ m < n := by
  rw [UInt8.lt_iff_toNat_lt, UInt8.toNat_ofNat', UInt8.toNat_ofNat', Nat.mod_eq_of_lt hm,
    Nat.mod_eq_of_lt hn]

theorem ofNat_inj {m n : Nat} (hm : m < 256) (hn : n < 256) :
    UInt8.ofNat m = UInt8.ofNat n ↔ m = n := by
  rw [← UInt8.toNat_inj, UInt8.toNat_ofNat', UInt8.toNat_ofNat', Nat.mod_eq_of_lt hm,
    Nat.mod_eq_of_lt hn]

theorem toNat_val_lt (c : Char) : c.val.toNat < 0x110000 := by
  have hc := c.valid
  simp only [UInt32.isValidChar, Nat.isValidChar] at hc
  omega

/-- The bytes of a character, by how many there are. -/
theorem utf8EncodeChar_cases (c : Char) :
    let n := c.val.toNat
    (n < 0x80 ∧ String.utf8EncodeChar c = [.ofNat n]) ∨
    (0x80 ≤ n ∧ n < 0x800 ∧
      String.utf8EncodeChar c = [.ofNat (n / 64 + 0xC0), .ofNat (n % 64 + 0x80)]) ∨
    (0x800 ≤ n ∧ n < 0x10000 ∧ String.utf8EncodeChar c =
      [.ofNat (n / 4096 + 0xE0), .ofNat (n / 64 % 64 + 0x80), .ofNat (n % 64 + 0x80)]) ∨
    (0x10000 ≤ n ∧ n < 0x110000 ∧ String.utf8EncodeChar c =
      [.ofNat (n / 262144 + 0xF0), .ofNat (n / 4096 % 64 + 0x80), .ofNat (n / 64 % 64 + 0x80),
        .ofNat (n % 64 + 0x80)]) := by
  have hn := toNat_val_lt c
  unfold String.utf8EncodeChar
  generalize c.val.toNat = n at *
  dsimp only
  split
  · exact .inl ⟨by omega, rfl⟩
  · split
    · rw [Nat.mod_eq_of_lt (by omega : n / 64 < 32)]
      exact .inr (.inl ⟨by omega, by omega, rfl⟩)
    · split
      · rw [Nat.mod_eq_of_lt (by omega : n / 4096 < 16)]
        exact .inr (.inr (.inl ⟨by omega, by omega, rfl⟩))
      · rw [Nat.mod_eq_of_lt (by omega : n / 262144 < 8)]
        exact .inr (.inr (.inr ⟨by omega, hn, rfl⟩))

theorem utf8EncodeChar_ne_nil (c : Char) : String.utf8EncodeChar c ≠ [] := by
  rw [← List.length_pos_iff, String.length_utf8EncodeChar]
  exact c.utf8Size_pos

/-- **Characters are ordered as their bytes are**, whatever comes behind these. -/
theorem utf8EncodeChar_lt {c d : Char} (h : c < d) (xs ys : List UInt8) :
    String.utf8EncodeChar c ++ xs < String.utf8EncodeChar d ++ ys := by
  have hlt : c.val.toNat < d.val.toNat := h
  -- The first byte tells how many there are, and else the first digit in base 64 that differs.
  rcases utf8EncodeChar_cases c with ⟨_, hc⟩ | ⟨_, _, hc⟩ | ⟨_, _, hc⟩ | ⟨_, _, hc⟩ <;>
  rcases utf8EncodeChar_cases d with ⟨_, hd⟩ | ⟨_, _, hd⟩ | ⟨_, _, hd⟩ | ⟨_, _, hd⟩ <;>
  rw [hc, hd] <;>
  simp (disch := omega) only [List.cons_append, List.cons_lt_cons_iff, ofNat_lt_ofNat,
    ofNat_inj] <;>
  omega

/-- Equal bytes are those of the same character. -/
theorem utf8EncodeChar_append_inj {c d : Char} {xs ys : List UInt8}
    (h : String.utf8EncodeChar c ++ xs = String.utf8EncodeChar d ++ ys) : c = d ∧ xs = ys := by
  rcases Std.lt_trichotomy c d with hlt | rfl | hlt
  · exact absurd (h ▸ utf8EncodeChar_lt hlt xs ys) (List.lt_irrefl _)
  · exact ⟨rfl, List.append_cancel_left h⟩
  · exact absurd (h ▸ utf8EncodeChar_lt hlt ys xs) (List.lt_irrefl _)

/-! ## Texts -/

/-- **Texts are ordered as their bytes are.** -/
theorem bytes_lt {s t : String} (h : s < t) : bytes s < bytes t := by
  rw [String.lt_iff_toList_lt] at h
  rw [bytes_eq, bytes_eq]
  generalize s.toList = cs at h ⊢
  generalize t.toList = ds at h ⊢
  induction cs generalizing ds with
  | nil =>
    cases ds with
    | nil => cases h
    | cons d ds =>
      obtain ⟨b, bs, hb⟩ := List.exists_cons_of_ne_nil (utf8EncodeChar_ne_nil d)
      rw [List.flatMap_cons, hb]
      exact .nil
  | cons c cs ih =>
    cases ds with
    | nil => cases h
    | cons d ds =>
      rw [List.flatMap_cons, List.flatMap_cons]
      rcases List.cons_lt_cons_iff.mp h with hlt | ⟨rfl, hlt⟩
      · exact utf8EncodeChar_lt hlt _ _
      · exact List.append_left_lt (ih ds hlt)

/-- **A text begins with another when its bytes do.** -/
theorem bytes_prefix_iff {s t : String} : bytes s <+: bytes t ↔ s.toList <+: t.toList := by
  rw [bytes_eq, bytes_eq]
  generalize s.toList = cs
  generalize t.toList = ds
  constructor
  · intro h
    induction cs generalizing ds with
    | nil => exact List.nil_prefix
    | cons c cs ih =>
      obtain ⟨rest, h⟩ := h
      rw [List.flatMap_cons, List.append_assoc] at h
      cases ds with
      | nil => exact absurd (List.append_eq_nil_iff.mp h).1 (utf8EncodeChar_ne_nil c)
      | cons d ds =>
        rw [List.flatMap_cons] at h
        obtain ⟨rfl, htail⟩ := utf8EncodeChar_append_inj h
        exact List.cons_prefix_cons.mpr ⟨rfl, ih ds ⟨rest, htail⟩⟩
  · rintro ⟨rest, rfl⟩
    rw [List.flatMap_append]
    exact List.prefix_append _ _

end RecordStore.Text
