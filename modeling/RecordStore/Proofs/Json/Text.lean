import RecordStore.Json.Reader
import RecordStore.Proofs.Json.Spelling
import RecordStore.Proofs.Lists

/-!
# Strings and numbers of JSON are read

The tokens of strings and of numbers, as the reading machine goes through them, whatever its stack
holds.

* `Begins`: the modes in which a value may begin.
* `run_stringToken`: the token of a string takes the machine to where it hands the string over.
* `exists_part`: the token of a number takes it to digits that make up the number. Only what
  follows shows that it has ended, which is a blank, a comma or a closing bracket: `Ended`.
* `read?_number`: **then it is handed over before what follows is read.**
-/

namespace RecordStore

namespace Numeral

theorem isDigit_digitChar {d : Nat} (hd : d < 10) : (Nat.digitChar d).isDigit = true := by
  have : ∀ i : Fin 10, (Nat.digitChar i).isDigit = true := by decide
  exact this ⟨d, hd⟩

theorem toNat_digitChar {d : Nat} (hd : d < 10) : (Nat.digitChar d).toNat - 48 = d := by
  have : ∀ i : Fin 10, (Nat.digitChar i).toNat - 48 = i := by decide
  exact this ⟨d, hd⟩

theorem digitChar_ne_sign {d : Nat} (hd : d < 10) :
    Nat.digitChar d ≠ '+' ∧ Nat.digitChar d ≠ '-' := by
  have : ∀ i : Fin 10, Nat.digitChar i ≠ '+' ∧ Nat.digitChar i ≠ '-' := by decide
  exact this ⟨d, hd⟩

theorem ofDigits_append (ds : List Nat) (d : Nat) :
    ofDigits (ds ++ [d]) = 10 * ofDigits ds + d := by
  rw [ofDigits, List.foldl_append]
  rfl

namespace Partial

variable {part : Partial} {ds : List Nat} {d : Nat}

/-- The number with these digits before the point, of which the first is no zero. -/
def ofWhole (negative : Bool) (ds : List Nat) : Partial :=
  { stage := .whole, negative, whole := ds.reverse }

/-- With these digits behind the point. -/
def withFraction (part : Partial) (ds : List Nat) : Partial :=
  { part with stage := .fraction, fraction := ds.reverse }

/-- With an exponent of these digits. -/
def withScale (part : Partial) (ds : List Nat) : Partial :=
  { part with stage := .exponent, scale := ofDigits ds }

theorem push?_ofWhole {negative : Bool} (hd : d < 10) :
    (ofWhole negative ds).push? (Nat.digitChar d) = some (ofWhole negative (ds ++ [d])) := by
  simp [ofWhole, push?, isDigit_digitChar hd, toNat_digitChar hd]

theorem push?_point (hs : part.stage = .zero ∨ part.stage = .whole) :
    part.push? '.' = some { part with stage := .point } := by
  rcases hs with hs | hs <;> simp only [push?, hs] <;> rfl

theorem push?_of_point (hs : part.stage = .point) (hd : d < 10) :
    part.push? (Nat.digitChar d) = some (part.withFraction [d]) := by
  simp [withFraction, push?, hs, isDigit_digitChar hd, toNat_digitChar hd]

theorem push?_withFraction (hd : d < 10) :
    (part.withFraction ds).push? (Nat.digitChar d) = some (part.withFraction (ds ++ [d])) := by
  simp [withFraction, push?, isDigit_digitChar hd, toNat_digitChar hd]

theorem push?_mark (hs : part.stage = .zero ∨ part.stage = .whole ∨ part.stage = .fraction)
    {c : Char} (hc : c = 'e' ∨ c = 'E') : part.push? c = some { part with stage := .mark } := by
  rcases hs with hs | hs | hs <;> simp only [push?, hs] <;> rcases hc with rfl | rfl <;> rfl

theorem push?_of_mark (hs : part.stage = .mark ∨ part.stage = .markSign) (hd : d < 10) :
    part.push? (Nat.digitChar d) = some (part.withScale [d]) := by
  rcases hs with hs | hs <;>
    simp [withScale, push?, hs, digitChar_ne_sign hd, isDigit_digitChar hd, toNat_digitChar hd,
      ofDigits]

theorem push?_withScale (hd : d < 10) :
    (part.withScale ds).push? (Nat.digitChar d) = some (part.withScale (ds ++ [d])) := by
  simp [withScale, push?, isDigit_digitChar hd, toNat_digitChar hd, ofDigits_append]

/-- A number that may end does not go on with a character that belongs to none. -/
theorem push?_eq_none {n : Numeral} (h : part.finish? = some n) {c : Char}
    (hdigit : c.isDigit = false) (hpoint : c ≠ '.') (hlower : c ≠ 'e') (hupper : c ≠ 'E') :
    part.push? c = none := by
  cases hs : part.stage with
  | sign | point | mark | markSign => simp [finish?, hs] at h
  | zero | whole | fraction | exponent => simp [push?, hs, hdigit, hpoint, hlower, hupper]

end Partial

end Numeral

namespace Json

theorem ascii_quote : ascii "\"" = [0x22] := rfl

theorem ascii_comma : ascii "," = [0x2C] := rfl

theorem ascii_colon : ascii ":" = [0x3A] := rfl

theorem ascii_open_bracket : ascii "[" = [0x5B] := rfl

theorem ascii_close_bracket : ascii "]" = [0x5D] := rfl

theorem ascii_open_brace : ascii "\x7b" = [0x7B] := rfl

theorem ascii_close_brace : ascii "\x7d" = [0x7D] := rfl

namespace Reader

variable {mode : Mode} {stack : List Frame} {rest : List UInt8}

theorem run_cons (r : Reader) (b : UInt8) (bytes : List UInt8) :
    r.run (b :: bytes) = (r.step b).bind (·.run bytes) :=
  List.foldlM_cons

/-- A mark of one byte. -/
theorem run_mark {mark : String} {b : UInt8} (h : ascii mark = [b]) (r : Reader)
    (bytes : List UInt8) : r.run (ascii mark ++ bytes) = (r.step b).bind (·.run bytes) := by
  rw [h, List.singleton_append, run_cons]

/-- That a value may begin. -/
def Begins (mode : Mode) : Prop := mode = .value ∨ mode = .firstItem

theorem ofUInt8_inj {a b : UInt8} (h : Char.ofUInt8 a = Char.ofUInt8 b) : a = b := by
  have h : a.toUInt32 = b.toUInt32 := congrArg Char.val h
  exact UInt8.toUInt32_inj.1 h

/-! ## Strings -/

section Strings

variable {isName : Bool} {done : List Piece}

theorem step_unit {d : Fin 16} {c : Char} (h : Text.SpellsDigit d c) (missing value : Nat) :
    step ⟨.unit isName done missing value, stack⟩ c.toUInt8 =
      some (if missing ≤ 1 then ⟨.string isName (unitPiece (16 * value + d) :: done), stack⟩
        else ⟨.unit isName done (missing - 1) (16 * value + d), stack⟩) := by
  have hc : Char.ofUInt8 c.toUInt8 = c := by
    have hlower : ∀ d, Char.ofUInt8 (Text.hexChar d).toUInt8 = Text.hexChar d := by decide
    have hupper : ∀ d, Char.ofUInt8 (Text.hexChar d).toUpper.toUInt8 = (Text.hexChar d).toUpper :=
      by decide
    rcases h with rfl | rfl
    · exact hlower d
    · exact hupper d
  simp only [step, hc, Text.hexDigit?_of_spellsDigit h, Option.map_some]

theorem run_unitText {u : Nat} {text : List UInt8} (h : UnitText u text) :
    run ⟨.string isName done, stack⟩ (text ++ rest) =
      run ⟨.string isName (unitPiece u :: done), stack⟩ rest := by
  obtain ⟨h₁, h₂, h₃, h₄, rfl⟩ := h
  have hu : ascii "\\u" = [0x5C, 0x75] := rfl
  have hb : step ⟨.string isName done, stack⟩ 0x5C = some ⟨.escape isName done, stack⟩ := rfl
  have he : step ⟨.escape isName done, stack⟩ 0x75 = some ⟨.unit isName done 4 0, stack⟩ := rfl
  simp only [hu, List.map_cons, List.map_nil, List.cons_append, List.nil_append, run_cons, hb, he,
    Option.bind_some, step_unit h₁, step_unit h₂, step_unit h₃, step_unit h₄, Nat.reduceLeDiff,
    Nat.reduceSub, Nat.mul_zero, Nat.zero_add, ↓reduceIte]

/-- A byte that needs no escape stands for itself. -/
theorem step_string {b : UInt8} (hc : 0x20 ≤ b) (hq : b ≠ 0x22) (hb : b ≠ 0x5C) :
    step ⟨.string isName done, stack⟩ b = some ⟨.string isName (.byte b :: done), stack⟩ := by
  have hq' : Char.ofUInt8 b ≠ '"' := fun h => hq (ofUInt8_inj (h : _ = Char.ofUInt8 0x22))
  have hb' : Char.ofUInt8 b ≠ '\\' := fun h => hb (ofUInt8_inj (h : _ = Char.ofUInt8 0x5C))
  simp only [step, hq', hb', UInt8.not_lt.mpr hc, if_false]

theorem run_pieceText {p : Piece} {text : List UInt8} (h : PieceText p text) :
    run ⟨.string isName done, stack⟩ (text ++ rest) =
      run ⟨.string isName (p :: done), stack⟩ rest := by
  cases h with
  | itself printing not_quote not_backslash =>
    rw [List.singleton_append, run_cons, step_string printing not_quote not_backslash,
      Option.bind_some]
  | letter mem =>
    simp only [letters, List.mem_cons, Prod.mk.injEq, List.not_mem_nil, or_false] at mem
    rcases mem with ⟨rfl, rfl⟩ | ⟨rfl, rfl⟩ | ⟨rfl, rfl⟩ | ⟨rfl, rfl⟩ | ⟨rfl, rfl⟩ | ⟨rfl, rfl⟩ |
      ⟨rfl, rfl⟩ | ⟨rfl, rfl⟩
    all_goals rfl
  | ascii lt text_of => rw [run_unitText text_of, unitPiece, if_pos lt]
  | unit le text_of => rw [run_unitText text_of, unitPiece, if_neg (Nat.not_lt.mpr le)]

theorem run_piecesText {ps : List Piece} {body : List UInt8} (h : PiecesText ps body) :
    run ⟨.string isName done, stack⟩ (body ++ rest) =
      run ⟨.string isName (ps.reverse ++ done), stack⟩ rest := by
  induction h generalizing done with
  | nil => rfl
  | cons first _ ih =>
    rw [List.append_assoc, run_pieceText first, ih, List.reverse_cons, List.append_assoc,
      List.singleton_append]

/-- **The token of a string** behind its first quotation mark is read to where it is handed over. -/
theorem run_quoted {ps : List Piece} {body : List UInt8} (h : PiecesText ps body) :
    run ⟨.string isName [], stack⟩ ((body ++ ascii "\"") ++ rest) =
      (deliverString isName ps.reverse stack).bind (·.run rest) := by
  have hs : step ⟨.string isName ps.reverse, stack⟩ 0x22 = deliverString isName ps.reverse stack :=
    rfl
  rw [List.append_assoc, run_piecesText h, List.append_nil, run_mark ascii_quote, hs]

theorem run_stringToken {ps : List Piece} {token : Token} (h : StringToken ps token)
    (hm : Begins mode) :
    run ⟨mode, stack⟩ (token ++ rest) = (deliver (.string ps) stack).bind (·.run rest) := by
  obtain ⟨pieces⟩ := h
  have hs : step ⟨mode, stack⟩ 0x22 = some ⟨.string false [], stack⟩ := by
    rcases hm with rfl | rfl <;> rfl
  have hd : deliverString false ps.reverse stack = deliver (.string ps) stack := by
    simp [deliverString]
  rw [quoted, List.append_assoc, run_mark ascii_quote, hs, Option.bind_some, run_quoted pieces, hd]

/-- The name of a field is kept for the value behind it. -/
theorem run_nameToken {ps : List Piece} {token : Token} (h : StringToken ps token)
    (fields : List (List Piece × Json)) (hm : mode = .name ∨ mode = .firstName) :
    run ⟨mode, .object fields :: stack⟩ (token ++ rest) =
      run ⟨.colon, .field fields ps :: stack⟩ rest := by
  obtain ⟨pieces⟩ := h
  have hs : step ⟨mode, .object fields :: stack⟩ 0x22 =
      some ⟨.string true [], .object fields :: stack⟩ := by
    rcases hm with rfl | rfl <;> rfl
  rw [quoted, List.append_assoc, run_mark ascii_quote, hs, Option.bind_some, run_quoted pieces,
    deliverString, if_pos rfl, List.reverse_reverse, Option.bind_some]

end Strings

/-! ## Numbers -/

section Numbers

open Numeral (Partial)

variable {part : Partial}

theorem ofUInt8_digit {d : Nat} (hd : d < 10) :
    Char.ofUInt8 (.ofNat (d + 48)) = Nat.digitChar d := by
  have : ∀ i : Fin 10, Char.ofUInt8 (.ofNat (i + 48)) = Nat.digitChar i := by decide
  exact this ⟨d, hd⟩

/-- One more character of a number. -/
theorem run_push {b : UInt8} {next : Partial}
    (h : part.push? (Char.ofUInt8 b) = some next) :
    run ⟨.number part, stack⟩ (b :: rest) = run ⟨.number next, stack⟩ rest := by
  rw [run_cons, step]
  simp only [h, Option.bind_some]

theorem run_pushMark {mark : String} {b : UInt8} (hb : ascii mark = [b])
    {next : Partial} (h : part.push? (Char.ofUInt8 b) = some next) :
    run ⟨.number part, stack⟩ (ascii mark ++ rest) = run ⟨.number next, stack⟩ rest := by
  rw [hb, List.singleton_append, run_push h]

/-- More digits of a number, by what each of them makes of it. -/
theorem run_writeDigits {after : List Nat → Partial}
    (hp : ∀ ds d, d < 10 → (after ds).push? (Nat.digitChar d) = some (after (ds ++ [d])))
    {ds : List Nat} (hds : ∀ d ∈ ds, d < 10) (done : List Nat) :
    run ⟨.number (after done), stack⟩ (writeDigits ds ++ rest) =
      run ⟨.number (after (done ++ ds)), stack⟩ rest := by
  induction ds generalizing done with
  | nil => rw [List.append_nil]; rfl
  | cons d ds ih =>
    have hd := hds d List.mem_cons_self
    have hs : (after done).push? (Char.ofUInt8 (.ofNat (d + 48))) = some (after (done ++ [d])) := by
      rw [ofUInt8_digit hd, hp done d hd]
    rw [writeDigits, List.map_cons, List.cons_append, run_push hs]
    rw [← writeDigits, ih (fun e he => hds e (List.mem_cons_of_mem d he)), List.append_assoc,
      List.singleton_append]

/-- Digits of which the first is read in another way. -/
theorem run_firstDigits {after : List Nat → Partial}
    (hf : ∀ d, d < 10 → part.push? (Nat.digitChar d) = some (after [d]))
    (hp : ∀ ds d, d < 10 → (after ds).push? (Nat.digitChar d) = some (after (ds ++ [d])))
    {ds : List Nat} (hn : ds ≠ []) (hds : ∀ d ∈ ds, d < 10) :
    run ⟨.number part, stack⟩ (writeDigits ds ++ rest) = run ⟨.number (after ds), stack⟩ rest := by
  obtain ⟨d, ds, rfl⟩ := List.exists_cons_of_ne_nil hn
  have hd := hds d List.mem_cons_self
  have hs : part.push? (Char.ofUInt8 (.ofNat (d + 48))) = some (after [d]) := by
    rw [ofUInt8_digit hd, hf d hd]
  rw [writeDigits, List.map_cons, List.cons_append, run_push hs]
  exact run_writeDigits hp (fun e he => hds e (List.mem_cons_of_mem d he)) [d]

/-- The number that begins with a digit, behind a sign or not. -/
def first (negative : Bool) (d : Nat) : Partial :=
  { stage := if d = 0 then .zero else .whole, negative, whole := [d] }

theorem step_digit (hm : Begins mode) {d : Nat} (hd : d < 10) :
    step ⟨mode, stack⟩ (.ofNat (d + 48)) = some ⟨.number (first false d), stack⟩ := by
  have (i : Fin 10) : step ⟨mode, stack⟩ (.ofNat (i + 48)) =
      some ⟨.number (first false i), stack⟩ := by
    rcases hm with rfl | rfl
    all_goals
      match i with
      | 0 | 1 | 2 | 3 | 4 | 5 | 6 | 7 | 8 | 9 => rfl
  exact this ⟨d, hd⟩

theorem push?_sign_digit {d : Nat} (hd : d < 10) :
    Partial.push? { stage := .sign, negative := true } (Char.ofUInt8 (.ofNat (d + 48))) =
      some (first true d) := by
  have : ∀ i : Fin 10,
      Partial.push? { stage := .sign, negative := true }
        (Char.ofUInt8 (.ofNat (i + 48))) = some (first true i) := by
    intro i
    match i with
    | 0 | 1 | 2 | 3 | 4 | 5 | 6 | 7 | 8 | 9 => rfl
  exact this ⟨d, hd⟩

/-- The sign and the digits before the point. -/
theorem run_whole (negative : Bool) {whole : List Nat} (h : WholeDigits whole) :
    ∃ stage, (stage = .zero ∨ stage = .whole) ∧
      ∀ {mode : Mode} {stack : List Frame} {rest : List UInt8}, Begins mode →
        run ⟨mode, stack⟩ ((if negative then ascii "-" else []) ++ (writeDigits whole ++ rest)) =
          run ⟨.number { stage, negative, whole := whole.reverse }, stack⟩ rest := by
  obtain ⟨d, ds, rfl⟩ := List.exists_cons_of_ne_nil h.ne_nil
  have hd := h.lt d List.mem_cons_self
  have hds : ∀ e ∈ ds, e < 10 := fun e he => h.lt e (List.mem_cons_of_mem d he)
  have hbegin {mode : Mode} {stack : List Frame} {rest : List UInt8} (hm : Begins mode) :
      run ⟨mode, stack⟩
          ((if negative then ascii "-" else []) ++ (writeDigits (d :: ds) ++ rest)) =
        run ⟨.number (first negative d), stack⟩ (writeDigits ds ++ rest) := by
    cases negative with
    | false =>
      rw [if_neg Bool.false_ne_true, List.nil_append, writeDigits, List.map_cons, List.cons_append,
        run_cons, step_digit hm hd, Option.bind_some, writeDigits]
    | true =>
      have hs : step ⟨mode, stack⟩ 0x2D =
          some ⟨.number { stage := .sign, negative := true }, stack⟩ := by
        rcases hm with rfl | rfl <;> rfl
      rw [if_pos rfl, run_mark (b := 0x2D) rfl, hs, Option.bind_some, writeDigits, List.map_cons,
        List.cons_append, run_push (push?_sign_digit hd), writeDigits]
  -- Behind a leading zero there is no digit to read.
  by_cases h0 : d = 0
  · subst h0
    obtain rfl : ds = [] := (List.cons.inj (h.no_zero rfl)).2
    exact ⟨.zero, .inl rfl, hbegin⟩
  · have hf : first negative d = .ofWhole negative [d] := by simp [first, Partial.ofWhole, h0]
    refine ⟨.whole, .inr rfl, fun hm => ?_⟩
    rw [hbegin hm, hf, run_writeDigits (fun _ _ => Partial.push?_ofWhole) hds]
    rfl

/-- The digits behind the point. -/
theorem run_fraction (part : Partial) {ds : List Nat} {text : List UInt8}
    (h : FractionText ds text) (hs : part.stage = .zero ∨ part.stage = .whole)
    (hf : part.fraction = []) :
    ∃ stage, (stage = .zero ∨ stage = .whole ∨ stage = .fraction) ∧
      ∀ {stack : List Frame} {rest : List UInt8},
        run ⟨.number part, stack⟩ (text ++ rest) =
          run ⟨.number { part with stage, fraction := ds.reverse }, stack⟩ rest := by
  cases h with
  | none =>
    refine ⟨part.stage, hs.imp_right .inl, ?_⟩
    rw [List.reverse_nil, ← hf]
    exact rfl
  | digits ne_nil lt =>
    refine ⟨.fraction, .inr (.inr rfl), fun {stack rest} => ?_⟩
    rw [List.append_assoc, run_pushMark rfl (Partial.push?_point hs),
      run_firstDigits (fun _ => Partial.push?_of_point rfl) (fun _ _ => Partial.push?_withFraction)
        ne_nil lt]
    rfl

/-- The digits of an exponent behind its mark and its sign. -/
theorem run_scale (hs : part.stage = .mark ∨ part.stage = .markSign) {ds : List Nat}
    (hn : ds ≠ []) (hds : ∀ d ∈ ds, d < 10) :
    run ⟨.number part, stack⟩ (writeDigits ds ++ rest) =
      run ⟨.number (part.withScale ds), stack⟩ rest :=
  run_firstDigits (fun _ => Partial.push?_of_mark hs) (fun _ _ => Partial.push?_withScale) hn hds

/-- The exponent, if there is one. -/
theorem run_exponent (part : Partial) {exponent : Option Int} {text : List UInt8}
    (h : ExponentText exponent text)
    (hs : part.stage = .zero ∨ part.stage = .whole ∨ part.stage = .fraction)
    (hn : part.scaleNegative = false) :
    ∃ last : Partial,
      last.finish? =
        some ⟨part.negative, part.whole.reverse, part.fraction.reverse, exponent⟩ ∧
      ∀ {stack : List Frame} {rest : List UInt8},
        run ⟨.number part, stack⟩ (text ++ rest) = run ⟨.number last, stack⟩ rest := by
  have hmark {mark : String} (hm : mark = "e" ∨ mark = "E") {stack : List Frame}
      {bytes : List UInt8} : run ⟨.number part, stack⟩ (ascii mark ++ bytes) =
        run ⟨.number { part with stage := .mark }, stack⟩ bytes := by
    rcases hm with rfl | rfl
    · exact run_pushMark rfl (Partial.push?_mark hs (.inl rfl))
    · exact run_pushMark rfl (Partial.push?_mark hs (.inr rfl))
  cases h with
  | none =>
    refine ⟨part, ?_, rfl⟩
    rcases hs with hs | hs | hs <;> simp only [Partial.finish?, hs]
  | @positive mark sign ds mark_eq sign_eq ne_nil lt =>
    refine ⟨part.withScale ds, by simp [Partial.withScale, Partial.finish?, hn],
      fun {stack rest} => ?_⟩
    have hplus : Partial.push? { part with stage := .mark } '+' =
        some { part with stage := .markSign } := rfl
    rw [List.append_assoc, hmark mark_eq, List.append_assoc]
    rcases sign_eq with rfl | rfl
    · exact run_scale (.inl rfl) ne_nil lt
    · rw [run_pushMark rfl hplus, run_scale (.inr rfl) ne_nil lt]
      rfl
  | @negative mark ds mark_eq ne_nil lt =>
    refine ⟨({ part with scaleNegative := true } : Partial).withScale ds,
      by simp [Partial.withScale, Partial.finish?], fun {stack rest} => ?_⟩
    have hminus : Partial.push? { part with stage := .mark } '-' =
        some { part with stage := .markSign, scaleNegative := true } := rfl
    rw [List.append_assoc, hmark mark_eq, List.append_assoc, run_pushMark rfl hminus,
      run_scale (.inr rfl) ne_nil lt]
    rfl

/-- **The token of a number** is read as digits that make up the number. -/
theorem exists_part {n : Numeral} {token : Token} (h : NumberToken n token) :
    ∃ part : Partial, part.finish? = some n ∧
      ∀ {mode : Mode} {stack : List Frame} {rest : List UInt8}, Begins mode →
        run ⟨mode, stack⟩ (token ++ rest) = run ⟨.number part, stack⟩ rest := by
  obtain @⟨negative, whole, fraction, _, _, _, whole_of, fraction_of, exponent_of⟩ := h
  obtain ⟨stage, hstage, hwhole⟩ := run_whole negative whole_of
  obtain ⟨stage', hstage', hfraction⟩ :=
    run_fraction { stage, negative, whole := whole.reverse } fraction_of hstage rfl
  obtain ⟨part, hpart, hexponent⟩ := run_exponent
    { stage := stage', negative, whole := whole.reverse, fraction := fraction.reverse }
    exponent_of hstage' rfl
  refine ⟨part, by simpa using hpart, fun {mode stack rest} hm => ?_⟩
  rw [List.append_assoc, List.append_assoc, List.append_assoc, hwhole hm, hfraction, hexponent]

/-- What shows behind a number that it has ended: a blank, a comma or a closing bracket. -/
def enders : List UInt8 := [0x20, 0x09, 0x0A, 0x0D, 0x2C, 0x5D, 0x7D]

/-- That nothing follows a number that could belong to it. -/
def Ended (rest : List UInt8) : Prop := ∀ b ∈ rest.head?, b ∈ enders

theorem push?_ender {n : Numeral} (h : part.finish? = some n) {b : UInt8} (hb : b ∈ enders) :
    part.push? (Char.ofUInt8 b) = none := by
  have hc : ∀ b ∈ enders, (Char.ofUInt8 b).isDigit = false ∧ Char.ofUInt8 b ≠ '.' ∧
      Char.ofUInt8 b ≠ 'e' ∧ Char.ofUInt8 b ≠ 'E' := Lists.forall_mem_of_all (by decide)
  obtain ⟨hdigit, hpoint, hlower, hupper⟩ := hc b hb
  exact Partial.push?_eq_none h hdigit hpoint hlower hupper

/-- What is delivered waits for a comma, a bracket or the end. -/
theorem step_of_deliver {v : Json} {r : Reader} (h : deliver v stack = some r) (b : UInt8) :
    r.step b = r.stepToken b := by
  unfold deliver at h
  split at h <;> simp only [Option.some.injEq, reduceCtorEq] at h <;> subst h <;> rfl

/-- The value that is read when the machine goes on with these bytes to their end. -/
def read? (r : Reader) (bytes : List UInt8) : Option Json := (r.run bytes).bind finish?

/-- **A number is handed over** where it is seen to have ended. -/
theorem read?_number {n : Numeral} (h : part.finish? = some n) (hr : Ended rest) :
    read? ⟨.number part, stack⟩ rest = (deliver (.number n) stack).bind (·.read? rest) := by
  cases rest with
  | nil =>
    -- The text may end with a number only if nothing is open around it, handed over or not.
    match stack with
    | [] => exact congrArg (Option.map Json.number) h
    | .array _ :: _ | .object _ :: _ | .field _ _ :: _ => rfl
  | cons b rest =>
    have hs : step ⟨.number part, stack⟩ b = (deliver (.number n) stack).bind (·.stepToken b) := by
      simp only [step, push?_ender h (hr b rfl), h, Option.bind_eq_bind, Option.bind_some]
    simp only [read?, run_cons, hs]
    cases hd : deliver (.number n) stack with
    | none => rfl
    | some r => simp only [Option.bind_some, step_of_deliver hd]

end Numbers

end Reader

end Json

end RecordStore
