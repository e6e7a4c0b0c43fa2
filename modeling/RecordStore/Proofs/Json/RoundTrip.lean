import Mathlib.Tactic.SplitIfs
import RecordStore.Proofs.Json.Layout
import RecordStore.Proofs.Lists

/-!
# JSON values are read back

What is written of a value consists of tokens that spell it, with no blanks between them, so it is
read as the value.

* `Json.Standard`: the values whose spelling `write` keeps. Numbers are whole, and no string holds
  an ASCII character as a unit.
* `exists_spelled`: such a value is written as tokens that spell it.
* `read?_write`: **what is written of a standard value is read back.**
* `fields?_ofFields`: so are the fields of an object with their names.
-/

namespace RecordStore

/-- A unit stands for no ASCII character. -/
def Piece.Standard : Piece → Prop
  | byte _ => True
  | unit u => 0x80 ≤ u.toNat

theorem Piece.standard_of_mem_ofText {s : String} {p : Piece} (h : p ∈ Piece.ofText s) :
    p.Standard := by
  obtain ⟨b, -, rfl⟩ := List.mem_map.mp h
  trivial

namespace Json

/-! ## Strings -/

theorem unitText_unitEscape {u : Nat} (hu : u < 0x10000) : UnitText u (unitEscape u) := by
  have hvalue : u = 16 * (16 * (16 * (u / 4096 % 16) + u / 256 % 16) + u / 16 % 16) + u % 16 := by
    omega
  exact .digits (.inl rfl) (.inl rfl) (.inl rfl) (.inl rfl) hvalue

theorem pieceText_escapeByte (b : UInt8) : PieceText (.byte b) (escapeByte b) := by
  unfold escapeByte
  split_ifs with h₁ h₂ h₃ h₄ h₅ h₆ h₇ h₈
  iterate 7 exact .letter (by subst b; decide)
  · have hb : b.toNat < 0x20 := h₈
    have hp : PieceText (.byte (.ofNat b.toNat)) (unitEscape b.toNat) :=
      .ascii (by omega) (unitText_unitEscape (by omega))
    rwa [UInt8.ofNat_toNat] at hp
  · exact .itself (UInt8.not_lt.mp h₈) h₁ h₂

theorem pieceText_escape {p : Piece} (hp : p.Standard) : PieceText p (escape p) := by
  cases p with
  | byte b => exact pieceText_escapeByte b
  | unit u =>
    have hu : PieceText (.unit (.ofNat u.toNat)) (unitEscape u.toNat) :=
      .unit hp (unitText_unitEscape u.toNat_lt)
    rwa [UInt16.ofNat_toNat] at hu

theorem piecesText_flatMap {ps : List Piece} (hps : ∀ p ∈ ps, p.Standard) :
    PiecesText ps (ps.flatMap escape) := by
  induction ps with
  | nil => exact .nil
  | cons p ps ih =>
    exact .cons (pieceText_escape (hps p List.mem_cons_self))
      (ih fun q hq => hps q (List.mem_cons_of_mem p hq))

theorem stringToken_writeString {ps : List Piece} (hps : ∀ p ∈ ps, p.Standard) :
    StringToken ps (writeString ps) :=
  .quoted (piecesText_flatMap hps)

/-! ## Numbers -/

/-- The digits of a number do not begin with a zero, unless it is the only one. -/
theorem exists_toDigits (n : Nat) :
    ∃ d ds, ((Nat.toDigits 10 n).map fun c => c.toNat - 48) = d :: ds ∧
      (∀ e ∈ d :: ds, e < 10) ∧ (d = 0 → n = 0 ∧ ds = []) := by
  induction n using Nat.strongRecOn with
  | ind n ih =>
    by_cases hn : n < 10
    · refine ⟨n, [], ?_, fun e he => ?_, fun h => ⟨h, rfl⟩⟩
      · rw [Nat.toDigits_of_lt_base hn, List.map_singleton, Numeral.toNat_digitChar hn]
      · rw [List.mem_singleton.mp he]
        exact hn
    · obtain ⟨d, ds, h, hlt, h0⟩ := ih (n / 10) (by omega)
      have hm : n % 10 < 10 := Nat.mod_lt n (by omega)
      refine ⟨d, ds ++ [n % 10], ?_, fun e he => ?_, fun hd => ?_⟩
      · rw [Nat.toDigits_of_base_le (by omega) (by omega), List.map_append, h, List.map_singleton,
          Numeral.toNat_digitChar hm, List.cons_append]
      · rcases List.mem_append.mp (List.cons_append ▸ he : e ∈ (d :: ds) ++ [n % 10]) with he | he
        · exact hlt e he
        · rw [List.mem_singleton.mp he]
          exact hm
      · have := (h0 hd).1
        omega

/-- A whole number is written as its sign and its digits. -/
theorem exists_writeNumeral (n : Int) :
    ∃ ds, Numeral.ofInt n = ⟨n < 0, ds, [], none⟩ ∧ WholeDigits ds ∧
      writeNumeral (.ofInt n) = (if n < 0 then ascii "-" else []) ++ writeDigits ds := by
  obtain ⟨d, ds, h, hlt, h0⟩ := exists_toDigits n.natAbs
  have hz (hd : (d :: ds).head? = some 0) : d :: ds = [0] := by
    obtain rfl : d = 0 := Option.some.inj hd
    rw [(h0 rfl).2]
  refine ⟨d :: ds, by rw [Numeral.ofInt, h], ⟨List.cons_ne_nil d ds, hlt, hz⟩, ?_⟩
  simp only [writeNumeral, Numeral.ofInt, h, decide_eq_true_eq, if_true, List.append_nil]

theorem numberToken_writeNumeral (n : Int) : NumberToken (.ofInt n) (writeNumeral (.ofInt n)) := by
  obtain ⟨ds, h, hds, hw⟩ := exists_writeNumeral n
  have ht := @NumberToken.parts (decide (n < 0)) ds [] none [] [] hds .none .none
  rw [hw, h]
  simpa using ht

/-! ## Values -/

/-- A value that is spelled as `write` would spell it. -/
inductive Standard : Json → Prop where
  | null : Standard null
  | bool (value : Bool) : Standard (bool value)
  | number (n : Int) : Standard (number (.ofInt n))
  | string {pieces : List Piece} (h : ∀ p ∈ pieces, p.Standard) : Standard (string pieces)
  | array {items : List Json} (h : ∀ v ∈ items, Standard v) : Standard (array items)
  | object {fields : List (List Piece × Json)} (hn : ∀ f ∈ fields, ∀ p ∈ f.1, p.Standard)
      (hv : ∀ f ∈ fields, Standard f.2) : Standard (object fields)

namespace Standard

theorem ofText (s : String) : Standard (ofText s) :=
  .string fun _ => Piece.standard_of_mem_ofText

theorem ofFields {fields : List (String × Json)} (h : ∀ f ∈ fields, Standard f.2) :
    Standard (ofFields fields) := by
  refine .object (fun f hf => ?_) fun f hf => ?_
  all_goals obtain ⟨g, hg, rfl⟩ := List.mem_map.mp hf
  · exact fun _ => Piece.standard_of_mem_ofText
  · exact h g hg

end Standard

theorem writeItems_eq {items : List (Json × List Token)}
    (h : ∀ i ∈ items, write i.1 = i.2.flatten) :
    writeItems (items.map (·.1)) = (joined (items.map (·.2))).flatten := by
  induction items with
  | nil => rfl
  | cons i items ih =>
    have hi := h i List.mem_cons_self
    cases items with
    | nil => exact hi
    | cons j items =>
      have ih := ih fun k hk => h k (List.mem_cons_of_mem i hk)
      simp only [List.map_cons] at ih ⊢
      rw [writeItems, joined, List.flatten_append, List.flatten_cons, hi, ih]

theorem writeFields_eq {fields : List ((List Piece × Json) × List Token)}
    (h : ∀ f ∈ fields, write f.1.2 = f.2.flatten) :
    writeFields (fields.map (·.1)) =
      (joined (fields.map fun f => writeString f.1.1 :: ascii ":" :: f.2)).flatten := by
  induction fields with
  | nil => rfl
  | cons f fields ih =>
    have hf := h f List.mem_cons_self
    cases fields with
    | nil => simp only [List.map_cons, List.map_nil, writeFields, joined, List.flatten_cons, hf]
    | cons g fields =>
      have ih := ih fun e he => h e (List.mem_cons_of_mem f he)
      simp only [List.map_cons] at ih ⊢
      rw [writeFields, joined, List.flatten_append, List.flatten_cons, hf, ih]
      simp only [List.flatten_cons, List.append_assoc]

/-- **A standard value is written as tokens that spell it.** -/
theorem exists_spelled {v : Json} (h : v.Standard) :
    ∃ tokens, Spelled v tokens ∧ write v = tokens.flatten := by
  induction h with
  | null => exact ⟨_, .null, rfl⟩
  | bool value => exact ⟨_, .bool value, by cases value <;> rfl⟩
  | number n => exact ⟨_, .number (numberToken_writeNumeral n), by rw [write]; simp⟩
  | string h => exact ⟨_, .string (stringToken_writeString h), by rw [write]; simp⟩
  | array _ ih =>
    obtain ⟨items, rfl, hitems⟩ := Lists.exists_map_fst_eq ih
    refine ⟨_, .array_map fun i hi => (hitems i hi).1, ?_⟩
    rw [write, writeItems_eq fun i hi => (hitems i hi).2, arrayTokens]
    simp
  | object hn _ ih =>
    obtain ⟨fields, rfl, hfields⟩ := Lists.exists_map_fst_eq ih
    have hn : ∀ f ∈ fields, StringToken f.1.1 (writeString f.1.1) :=
      fun f hf => stringToken_writeString (hn f.1 (List.mem_map_of_mem hf))
    refine ⟨_, .object_map hn fun f hf => (hfields f hf).1, ?_⟩
    rw [write, writeFields_eq fun f hf => (hfields f hf).2, objectTokens]
    simp [Function.comp_def]

/-- **A standard value is read back from its text.** -/
theorem read?_write {v : Json} (h : v.Standard) : read? v.write = some v := by
  obtain ⟨tokens, hs, hw⟩ := exists_spelled h
  rw [hw]
  exact read?_of_spelled hs (.flatten tokens)

/-! ## Fields -/

theorem text?_ofText (s : String) : (ofText s).text? = some s := Piece.text?_ofText s

theorem fields?_ofFields (fields : List (String × Json)) :
    (ofFields fields).fields? = some fields := by
  rw [ofFields, fields?]
  exact Lists.mapM_map fun f _ => by rw [Piece.text?_ofText]; rfl

end Json

end RecordStore
