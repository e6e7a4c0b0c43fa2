import RecordStore.Proofs.Json.Spelling
import RecordStore.Proofs.Lists
import RecordStore.Proofs.Text.Order

/-!
# The text that a string spells

A token that spells a text is the token of a string with elements, and these make up the text: a
character stands for its bytes, for an ASCII character, or for one or two 16-bit units.

* `exists_pieces_char`: what spells a character is the elements of its bytes, whatever comes behind.
* `exists_pieces`: **so the tokens that spell a text are tokens of a string that is the text.**
-/

namespace RecordStore

namespace Piece

open String (utf8EncodeChar)

theorem bytes?_map_byte_append (bs : List UInt8) (more : List Piece) :
    bytes? (bs.map byte ++ more) = (bytes? more).map (bs ++ ·) := by
  induction bs with
  | nil => simp
  | cons b bs ih =>
    rw [List.map_cons, List.cons_append, bytes?, ih, Option.map_map]
    rfl

/-- A unit that stands for a character alone. -/
theorem bytes?_unit {c : Char} (h : c.toNat < 0x10000) (more : List Piece) :
    bytes? (.unit (.ofNat c.toNat) :: more) = (bytes? more).map (utf8EncodeChar c ++ ·) := by
  have hv : c.toNat < 0xD800 ∨ 0xE000 ≤ c.toNat := c.valid.imp_right fun h => h.1
  rw [bytes?.eq_def]
  simp only [UInt16.toNat_ofNat', Nat.mod_eq_of_lt h, hv, if_true, Char.ofNat_toNat]

/-- Two units that stand for a character together. -/
theorem bytes?_pair {c : Char} (h : 0x10000 ≤ c.toNat) (more : List Piece) :
    bytes? (.unit (.ofNat (0xD800 + (c.toNat - 0x10000) / 0x400)) ::
      .unit (.ofNat (0xDC00 + (c.toNat - 0x10000) % 0x400)) :: more) =
        (bytes? more).map (utf8EncodeChar c ++ ·) := by
  have hc : c.toNat < 0x110000 := Text.toNat_val_lt c
  -- The halves of what exceeds 16 bits, ten bits each.
  obtain ⟨a, b, ha, hb, hhigh, hlow, hsum⟩ : ∃ a b, a < 0x400 ∧ b < 0x400 ∧
      (c.toNat - 0x10000) / 0x400 = a ∧ (c.toNat - 0x10000) % 0x400 = b ∧
      0x10000 + a * 0x400 + b = c.toNat :=
    ⟨_, _, by omega, by omega, rfl, rfl, by omega⟩
  have hhigh' : (0xD800 + a) % 2 ^ 16 = 0xD800 + a := Nat.mod_eq_of_lt (by omega)
  have hlow' : (0xDC00 + b) % 2 ^ 16 = 0xDC00 + b := Nat.mod_eq_of_lt (by omega)
  have hpaired : ¬ (0xD800 + a < 0xD800 ∨ 0xE000 ≤ 0xD800 + a) := by omega
  have hhalves : 0xD800 + a < 0xDC00 ∧ 0xDC00 ≤ 0xDC00 + b ∧ 0xDC00 + b < 0xE000 := by omega
  rw [bytes?.eq_def, hhigh, hlow]
  simp only [UInt16.toNat_ofNat', hhigh', hlow', hpaired, hhalves, Nat.add_sub_cancel_left, hsum,
    if_true, if_false, and_self, Char.ofNat_toNat]

theorem text?_of_bytes? {s : String} {ps : List Piece} (h : bytes? ps = some (Text.bytes s)) :
    text? ps = some s := by
  have hs := text?_ofText s
  rw [text?, ofText, bytes?_map_byte] at hs
  rw [text?, h]
  exact hs

end Piece

namespace Json

open String (utf8EncodeChar)

theorem UnitText.lt {u : Nat} {text : List UInt8} (h : UnitText u text) : u < 0x10000 := by
  obtain @⟨a, b, c, d, _⟩ := h
  omega

theorem PiecesText.append {ps qs : List Piece} {xs ys : List UInt8} (hp : PiecesText ps xs)
    (hq : PiecesText qs ys) : PiecesText (ps ++ qs) (xs ++ ys) := by
  induction hp with
  | nil => exact hq
  | cons first _ ih =>
    rw [List.append_assoc]
    exact .cons first ih

theorem PiecesText.singleton {p : Piece} {text : List UInt8} (h : PieceText p text) :
    PiecesText [p] text := by
  rw [← List.append_nil text]
  exact .cons h .nil

/-- Bytes that need no escape stand for themselves. -/
theorem piecesText_map_byte {bs : List UInt8}
    (h : ∀ b ∈ bs, 0x20 ≤ b ∧ b ≠ 0x22 ∧ b ≠ 0x5C) : PiecesText (bs.map .byte) bs := by
  induction bs with
  | nil => exact .nil
  | cons b bs ih =>
    obtain ⟨hc, hq, hb⟩ := h b List.mem_cons_self
    have ih := ih fun c hc => h c (List.mem_cons_of_mem b hc)
    exact .append (.singleton (.itself hc hq hb)) ih

theorem printing_ofNat {n : Nat} (hn : n < 256) (hc : 0x20 ≤ n) (hq : n ≠ 0x22) (hb : n ≠ 0x5C) :
    (0x20 : UInt8) ≤ .ofNat n ∧ UInt8.ofNat n ≠ 0x22 ∧ UInt8.ofNat n ≠ 0x5C := by
  refine ⟨?_, fun h => hq ?_, fun h => hb ?_⟩
  · rw [UInt8.le_iff_toNat_le, UInt8.toNat_ofNat', Nat.mod_eq_of_lt hn]
    exact hc
  · exact (Text.ofNat_inj hn (by decide)).mp h
  · exact (Text.ofNat_inj hn (by decide)).mp h

/-- A character that needs no escape has no byte that does. -/
theorem printing_of_mem_utf8EncodeChar {c : Char} (hc : 0x20 ≤ c.toNat) (hq : c ≠ '"')
    (hb : c ≠ '\\') : ∀ b ∈ utf8EncodeChar c, 0x20 ≤ b ∧ b ≠ 0x22 ∧ b ≠ 0x5C := by
  have hq' : c.val.toNat ≠ 0x22 := fun h => hq (Char.toNat_inj.mp h)
  have hb' : c.val.toNat ≠ 0x5C := fun h => hb (Char.toNat_inj.mp h)
  have hc' : 0x20 ≤ c.val.toNat := hc
  have hbeyond {n : Nat} (hn : n < 256) (hlow : 0x80 ≤ n) :
      (0x20 : UInt8) ≤ .ofNat n ∧ UInt8.ofNat n ≠ 0x22 ∧ UInt8.ofNat n ≠ 0x5C :=
    printing_ofNat hn (by omega) (by omega) (by omega)
  rcases Text.utf8EncodeChar_cases c with ⟨_, h⟩ | ⟨_, _, h⟩ | ⟨_, _, h⟩ | ⟨_, _, h⟩
  all_goals
    intro b hmem
    simp only [h, List.mem_cons, List.not_mem_nil, or_false] at hmem
  · obtain rfl := hmem
    exact printing_ofNat (by omega) hc' hq' hb'
  · rcases hmem with rfl | rfl <;> exact hbeyond (by omega) (by omega)
  · rcases hmem with rfl | rfl | rfl <;> exact hbeyond (by omega) (by omega)
  · rcases hmem with rfl | rfl | rfl | rfl <;> exact hbeyond (by omega) (by omega)

theorem utf8EncodeChar_ascii {c : Char} (h : c.toNat < 0x80) :
    utf8EncodeChar c = [.ofNat c.toNat] := by
  have hv : c.val.toNat < 0x80 := h
  rcases Text.utf8EncodeChar_cases c with ⟨_, hc⟩ | ⟨_, _, _⟩ | ⟨_, _, _⟩ | ⟨_, _, _⟩
  · exact hc
  all_goals omega

theorem exists_pieces_char {c : Char} {part : List UInt8} (h : CharText c part) :
    ∃ ps, PiecesText ps part ∧
      ∀ more, Piece.bytes? (ps ++ more) = (Piece.bytes? more).map (utf8EncodeChar c ++ ·) := by
  cases h with
  | itself printing not_quote not_backslash =>
    exact ⟨_, piecesText_map_byte (printing_of_mem_utf8EncodeChar printing not_quote not_backslash),
      Piece.bytes?_map_byte_append _⟩
  | @letter l b mem char_eq =>
    have hl : ∀ p ∈ letters, utf8EncodeChar (Char.ofUInt8 p.2) = [p.2] :=
      Lists.forall_mem_of_all (by decide)
    refine ⟨[.byte b], .singleton (.letter mem), fun more => ?_⟩
    rw [char_eq, hl _ mem]
    exact Piece.bytes?_map_byte_append [b] more
  | unit text_of =>
    rcases Nat.lt_or_ge c.toNat 0x80 with hc | hc
    · refine ⟨[.byte (.ofNat c.toNat)], .singleton (.ascii hc text_of), fun more => ?_⟩
      rw [utf8EncodeChar_ascii hc]
      exact Piece.bytes?_map_byte_append [.ofNat c.toNat] more
    · exact ⟨[.unit (.ofNat c.toNat)], .singleton (.unit hc text_of),
        Piece.bytes?_unit text_of.lt⟩
  | pair le high_of low_of =>
    exact ⟨[_, _], .append (.singleton (.unit (by omega) high_of))
      (.singleton (.unit (by omega) low_of)), Piece.bytes?_pair le⟩

theorem exists_pieces_chars {cs : List Char} {body : List UInt8} (h : CharsText cs body) :
    ∃ ps, PiecesText ps body ∧ Piece.bytes? ps = some (cs.flatMap utf8EncodeChar) := by
  induction h with
  | nil => exact ⟨[], .nil, rfl⟩
  | cons first _ ih =>
    obtain ⟨ps, hps, hbytes⟩ := exists_pieces_char first
    obtain ⟨qs, hqs, hrest⟩ := ih
    exact ⟨ps ++ qs, hps.append hqs, by rw [hbytes, hrest]; rfl⟩

/-- A text of which no character needs an escape spells itself. -/
theorem spellsText_quoted {s : String}
    (h : (s.toList.all fun c => 0x20 ≤ c.toNat ∧ c ≠ '"' ∧ c ≠ '\\') = true) :
    SpellsText s (quoted (Text.bytes s)) := by
  have hchars {cs : List Char} (h : ∀ c ∈ cs, 0x20 ≤ c.toNat ∧ c ≠ '"' ∧ c ≠ '\\') :
      CharsText cs (cs.flatMap utf8EncodeChar) := by
    induction cs with
    | nil => exact .nil
    | cons c cs ih =>
      obtain ⟨hc, hq, hb⟩ := h c List.mem_cons_self
      exact .cons (.itself hc hq hb) (ih fun d hd => h d (List.mem_cons_of_mem c hd))
  rw [Text.bytes_eq]
  exact .quoted (hchars (Lists.forall_mem_of_all h))

/-- **The tokens that spell a text are tokens of a string that is the text.** -/
theorem exists_pieces {s : String} {token : Token} (h : SpellsText s token) :
    ∃ ps, StringToken ps token ∧ Piece.text? ps = some s := by
  obtain ⟨chars⟩ := h
  obtain ⟨ps, hps, hbytes⟩ := exists_pieces_chars chars
  exact ⟨ps, .quoted hps, Piece.text?_of_bytes? (by rw [hbytes, Text.bytes_eq])⟩

end Json

end RecordStore
