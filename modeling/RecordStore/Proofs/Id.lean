import Mathlib.Data.List.Forall2
import RecordStore.Id
import RecordStore.Proofs.Lists
import RecordStore.Proofs.Text.Word

/-!
# Ids are read as they are spelled

An id may be spelled in four forms, the digits and the mark before them in either case. The text
that an id is written as is one of them.

* `Spelled`: the texts that spell an id.
* `read?_of_spelled`: **each of them is read as the id.**
* `read?_toText`, `parse_toText`: the id written is the id read.
-/

namespace RecordStore.Id

open Text (SpellsDigit hexChar hexDigit? hexDigit?_of_spellsDigit)

/-- The characters of the five groups. -/
def groups (cs : List Char) : List (List Char) :=
  [cs.take 8, (cs.drop 8).take 4, (cs.drop 12).take 4, (cs.drop 16).take 4, cs.drop 20]

/-- The groups joined by hyphens. -/
def hyphened (cs : List Char) : List Char := List.intercalate ['-'] (groups cs)

/-- That characters are the digits of an id, each in either case. -/
def SpellsDigits (id : Id) (cs : List Char) : Prop := List.Forall₂ SpellsDigit id.digits cs

instance (id : Id) (cs : List Char) : Decidable (SpellsDigits id cs) :=
  inferInstanceAs (Decidable (List.Forall₂ _ _ _))

/-- That characters are the mark before the groups, each in either case. -/
def SpellsMark (cs : List Char) : Prop :=
  List.Forall₂ (fun m c => c = m ∨ c = m.toUpper) urnMark cs

instance (cs : List Char) : Decidable (SpellsMark cs) :=
  inferInstanceAs (Decidable (List.Forall₂ _ _ _))

/-- **The texts that spell an id.** -/
inductive Spelled (id : Id) : String → Prop
  | plain {cs : List Char} (digits : SpellsDigits id cs) : Spelled id (String.ofList cs)
  | grouped {cs : List Char} (digits : SpellsDigits id cs) :
    Spelled id (String.ofList (hyphened cs))
  | braced {cs : List Char} (digits : SpellsDigits id cs) :
    Spelled id (String.ofList ('\x7b' :: (hyphened cs ++ ['\x7d'])))
  | marked {mark cs : List Char} (digits : SpellsDigits id cs) (mark_of : SpellsMark mark) :
    Spelled id (String.ofList (mark ++ hyphened cs))

variable {id : Id} {cs : List Char}

/-! ## Groups -/

theorem flatten_groups (cs : List Char) : (groups cs).flatten = cs := by
  have h (i j : Nat) : (cs.drop i).take j ++ cs.drop (i + j) = cs.drop i := by
    rw [← List.drop_drop, List.take_append_drop]
  simp only [groups, List.flatten_cons, List.flatten_nil, List.append_nil]
  rw [h 16 4, h 12 4, h 8 4, List.take_append_drop]

theorem length_eq (h : SpellsDigits id cs) : cs.length = 32 :=
  h.length_eq.symm.trans id.length_digits

theorem exists_spellsDigit_of_mem {ds : List (Fin 16)} (h : List.Forall₂ SpellsDigit ds cs)
    {c : Char} (hc : c ∈ cs) : ∃ d, SpellsDigit d c := by
  induction h with
  | nil => cases hc
  | @cons d _ _ _ hd _ ih =>
    rcases List.mem_cons.mp hc with rfl | hc
    · exact ⟨d, hd⟩
    · exact ih hc

theorem hyphen_not_mem (h : SpellsDigits id cs) : '-' ∉ cs := by
  intro hm
  obtain ⟨d, hd⟩ := exists_spellsDigit_of_mem h hm
  have hy : hexDigit? '-' = none := by decide
  simp [hexDigit?_of_spellsDigit hd] at hy

theorem exists_cons_hyphened (h : SpellsDigits id cs) :
    ∃ d c more, SpellsDigit d c ∧ hyphened cs = c :: more ∧ '-' ∈ more := by
  obtain ⟨c, cs, rfl⟩ := List.exists_cons_of_length_pos (by rw [length_eq h]; decide)
  obtain ⟨d, hd⟩ := exists_spellsDigit_of_mem h List.mem_cons_self
  exact ⟨d, c, _, hd, rfl, by simp⟩

theorem ofDigits?_of_spellsDigits (h : SpellsDigits id cs) : ofDigits? cs = some id := by
  have hm {ds : List (Fin 16)} {cs : List Char} (h : List.Forall₂ SpellsDigit ds cs) :
      cs.mapM hexDigit? = some ds := by
    induction h with
    | nil => rfl
    | cons hd _ ih =>
      rw [List.mapM_cons, hexDigit?_of_spellsDigit hd, ih]
      rfl
  rw [ofDigits?, hm h, Option.bind_some, dif_pos id.length_digits]

theorem ofDigits?_eq_none {c : Char} (hc : hexDigit? c = none) (hm : c ∈ cs) :
    ofDigits? cs = none := by
  rw [ofDigits?, Lists.mapM_eq_none hc hm, Option.bind_none]

theorem ofGroups?_hyphened (h : SpellsDigits id cs) : ofGroups? (hyphened cs) = some id := by
  have hg : ∀ g ∈ groups cs, '-' ∉ g := fun g hg hm => hyphen_not_mem h (by
    rw [← flatten_groups cs]
    exact List.mem_flatten.mpr ⟨g, hg, hm⟩)
  have hs : (hyphened cs).splitOn '-' = groups cs :=
    List.splitOn_intercalate '-' hg (List.cons_ne_nil _ _)
  have hd : ofDigits? (groups cs).flatten = some id := by
    rw [flatten_groups, ofDigits?_of_spellsDigits h]
  simp only [groups, List.flatten_cons, List.flatten_nil, List.append_nil] at hd hs
  simp only [ofGroups?, hs, List.append_assoc, hd]
  simp [length_eq h]

/-! ## The four forms -/

theorem unwrap_hyphened (h : SpellsDigits id cs) : unwrap (hyphened cs) = (0, hyphened cs) := by
  obtain ⟨d, c, more, hd, he, -⟩ := exists_cons_hyphened h
  have hne : ∀ d c, SpellsDigit d c → c ≠ '\x7b' ∧ c.toLower ≠ 'u' := by
    have hlower : ∀ d, hexChar d ≠ '\x7b' ∧ (hexChar d).toLower ≠ 'u' := by decide
    have hupper : ∀ d, (hexChar d).toUpper ≠ '\x7b' ∧ (hexChar d).toUpper.toLower ≠ 'u' := by decide
    rintro d c (rfl | rfl)
    · exact hlower d
    · exact hupper d
  obtain ⟨hbrace, hu⟩ := hne d c hd
  rw [he, unwrap, if_neg, if_neg]
  · exact fun hmark => hu (List.head_eq_of_cons_eq hmark)
  · exact fun hb => hbrace (Option.some.inj hb.1)

theorem unwrap_braced (cs : List Char) : unwrap ('\x7b' :: (cs ++ ['\x7d'])) = (1, cs) := by
  have hl : ('\x7b' :: (cs ++ ['\x7d'])).getLast? = some '\x7d' := by
    rw [← List.cons_append, List.getLast?_append]
    rfl
  rw [unwrap, if_pos ⟨rfl, hl, by simp⟩, List.tail_cons, List.dropLast_concat]

theorem map_toLower_of_spellsMark {mark : List Char} (h : SpellsMark mark) :
    mark.map Char.toLower = urnMark := by
  have hlower : ∀ l ∈ urnMark, l.toLower = l := Lists.forall_mem_of_all (by decide)
  exact (Text.map_toLower_eq_iff hlower).mpr h

theorem exists_cons_of_spellsMark {mark : List Char} (h : SpellsMark mark) :
    ∃ c more, mark = c :: more ∧ (c = 'u' ∨ c = 'U') := by
  have hu : urnMark = 'u' :: "rn:uuid:".toList := rfl
  rw [SpellsMark, hu] at h
  obtain ⟨c, more, hc, -, rfl⟩ := List.forall₂_cons_left_iff.mp h
  exact ⟨c, more, rfl, hc⟩

theorem unwrap_marked {mark : List Char} (h : SpellsMark mark) (cs : List Char) :
    unwrap (mark ++ cs) = (urnMark.length, cs) := by
  have hlen : urnMark.length = mark.length := h.length_eq
  have hb : ¬((mark ++ cs).head? = some '\x7b' ∧ (mark ++ cs).getLast? = some '\x7d' ∧
      2 ≤ (mark ++ cs).length) := by
    obtain ⟨c, more, rfl, rfl | rfl⟩ := exists_cons_of_spellsMark h
    all_goals exact fun hb => absurd (Option.some.inj hb.1) (by decide)
  have ht : ((mark ++ cs).take urnMark.length).map Char.toLower = urnMark := by
    rw [hlen, List.take_left, map_toLower_of_spellsMark h]
  rw [unwrap, if_neg hb, if_pos ht, hlen, List.drop_left]

/-- **An id is read from each of the texts that spell it.** -/
theorem read?_of_spelled {text : String} (h : Spelled id text) : read? text = some id := by
  -- All forms but the first have a character that is no digit.
  cases h with
  | plain digits =>
    rw [read?, String.toList_ofList, ofDigits?_of_spellsDigits digits]
    rfl
  | grouped digits =>
    obtain ⟨d, c, more, -, he, hm⟩ := exists_cons_hyphened digits
    have hn : ofDigits? (hyphened _) = none :=
      ofDigits?_eq_none (by decide) (he ▸ List.mem_cons_of_mem c hm)
    simp only [read?, String.toList_ofList, hn, unwrap_hyphened digits, ofGroups?_hyphened digits,
      Option.none_or]
  | @braced cs digits =>
    have hn : ofDigits? ('\x7b' :: (hyphened cs ++ ['\x7d'])) = none :=
      ofDigits?_eq_none (by decide) List.mem_cons_self
    simp only [read?, String.toList_ofList, hn, unwrap_braced, ofGroups?_hyphened digits,
      Option.none_or]
  | @marked mark cs digits mark_of =>
    have hn : ofDigits? (mark ++ hyphened cs) = none := by
      obtain ⟨c, more, rfl, rfl | rfl⟩ := exists_cons_of_spellsMark mark_of
      all_goals exact ofDigits?_eq_none (by decide) List.mem_cons_self
    simp only [read?, String.toList_ofList, hn, unwrap_marked mark_of, ofGroups?_hyphened digits,
      Option.none_or]

/-! ## Writing -/

theorem spelled_toText (id : Id) : Spelled id id.toText :=
  .grouped (List.forall₂_map_right_iff.mpr (List.forall₂_same.mpr fun _ _ => .inl rfl))

/-- **Ids are read back.** -/
theorem read?_toText (id : Id) : read? id.toText = some id :=
  read?_of_spelled id.spelled_toText

theorem parse_toText (id : Id) : parse id.toText = .ok id := by
  rw [parse, read?_toText]

end RecordStore.Id
