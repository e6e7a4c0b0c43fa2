import RecordStore.Query
import RecordStore.Proofs.Lists

/-!
# Which texts are queries

A text is cut at its commas, and each piece at its colons. Cutting loses nothing: the pieces joined
again are the text, and they are the only pieces without the mark that are. So a query is read just
from the text that is written for it, and a text that is written for no query has a first piece that
is written for no clause.

* `Text.splitOn_eq_iff`: **pieces are those of a text when they make it up and lack the mark.**
* `Clause.Parts`: field, operator and value of a text, whatever they are.
* `Clause.Regular`, `Clause.parse_eq_ok_iff`: the clauses that can be read from their text.
* `Clause.Malformed`, `Clause.parse_eq_error_iff`: what is wrong with any other text.
* `Query.Written`, `Query.Malformed`: the same for queries.
* `Query.parse_exact`: **the texts that are read, as what they are, and why the others are not.**
-/

namespace RecordStore

theorem map_eq_error_iff {ε α β : Type} {f : α → β} {result : Except ε α} {e : ε} :
    result.map f = .error e ↔ result = .error e := by
  cases result <;> simp [Except.map]

/-! ## Cutting texts -/

namespace Text

variable {mark : Char} {text : String}

theorem not_mem_of_mem_splitOn :
    ∀ {cs piece : List Char}, piece ∈ cs.splitOn mark → mark ∉ piece
  | [], piece, h => by
    rw [List.splitOn_nil, List.mem_singleton] at h
    rw [h]
    exact List.not_mem_nil
  | c :: cs, piece, h => by
    rw [List.splitOn_cons_eq_if_modifyHead] at h
    split at h
    · rcases List.mem_cons.mp h with rfl | h
      · exact List.not_mem_nil
      · exact not_mem_of_mem_splitOn h
    · rename_i hc
      -- The character is put before the first piece of the others.
      obtain ⟨first, rest, hs⟩ := List.exists_cons_of_ne_nil (List.splitOn_ne_nil mark cs)
      rw [hs, List.modifyHead_cons] at h
      rcases List.mem_cons.mp h with rfl | h
      · have hfirst : mark ∉ first := not_mem_of_mem_splitOn (hs ▸ List.mem_cons_self)
        have hne : mark ≠ c := fun heq => hc (beq_iff_eq.mpr heq.symm)
        exact List.not_mem_cons_of_ne_of_not_mem hne hfirst
      · exact not_mem_of_mem_splitOn (hs ▸ List.mem_cons_of_mem first h)

theorem exists_splitOn (mark : Char) (text : String) :
    ∃ pieces : List String, text.toList.splitOn mark = pieces.map String.toList := by
  refine ⟨(text.toList.splitOn mark).map .ofList, ?_⟩
  rw [List.map_map]
  exact (List.map_id'' (fun _ => String.toList_ofList) _).symm

/-- **Pieces are those of a text when they make it up and none has the mark.** -/
theorem splitOn_eq_iff {pieces : List String} :
    text.toList.splitOn mark = pieces.map String.toList ↔
      pieces ≠ [] ∧ (∀ piece ∈ pieces, mark ∉ piece.toList) ∧
        text = String.intercalate (.singleton mark) pieces := by
  rw [← String.toList_inj, String.toList_intercalate, String.toList_singleton]
  constructor
  · intro h
    refine ⟨?_, fun piece hp => ?_, ?_⟩
    · rintro rfl
      exact List.splitOn_ne_nil mark text.toList h
    · exact not_mem_of_mem_splitOn (h ▸ List.mem_map_of_mem hp)
    · rw [← h, List.intercalate_splitOn]
  · rintro ⟨hne, hfree, htext⟩
    rw [htext]
    refine List.splitOn_intercalate mark (fun cs hcs => ?_) (mt List.map_eq_nil_iff.mp hne)
    obtain ⟨piece, hp, rfl⟩ := List.mem_map.mp hcs
    exact hfree piece hp

end Text

/-! ## Operators -/

namespace Operator

variable {text : String} {op : Operator}

theorem ofSymbol?_eq_some_iff : ofSymbol? text = some op ↔ text = op.symbol := by
  constructor
  · intro h
    have hfound := List.find?_some h
    exact (of_decide_eq_true hfound).symm
  · rintro rfl
    exact ofSymbol?_symbol op

theorem parse_eq_ok_iff : parse text = .ok op ↔ text = op.symbol := by
  rw [← ofSymbol?_eq_some_iff, parse]
  cases ofSymbol? text <;> simp

theorem parse_eq_error_iff {e : StoreError} :
    parse text = .error e ↔
      (∀ op : Operator, text ≠ op.symbol) ∧ e = .invalidQuery (.unknownOperator text) := by
  constructor
  · intro h
    refine ⟨?_, ?_⟩
    · rintro op hop
      rw [parse_eq_ok_iff.mpr hop] at h
      cases h
    · unfold parse at h
      split at h
      · cases h
      · cases h
        rfl
  · rintro ⟨hnone, rfl⟩
    cases h : ofSymbol? text with
    | some op => exact absurd (ofSymbol?_eq_some_iff.mp h) (hnone op)
    | none => rw [parse, h]

theorem symbol_plain (op : Operator) : ',' ∉ op.symbol.toList ∧ ':' ∉ op.symbol.toList := by
  cases op <;> decide

end Operator

/-! ## Clauses -/

namespace Clause

variable {text field operator value : String} {c : Clause} {fault : QueryFault} {e : StoreError}

/-- That a text is made up of a field, an operator and a value, whatever these are. -/
structure Parts (text field operator value : String) : Prop where
  field_free : ':' ∉ field.toList
  operator_free : ':' ∉ operator.toList
  value_free : ':' ∉ value.toList
  text_eq : text = s!"{field}:{operator}:{value}"

/-- The clauses that can be read from their text. -/
structure Regular (c : Clause) : Prop where
  field_ne : c.field ≠ ""
  field_plain : ',' ∉ c.field.toList ∧ ':' ∉ c.field.toList
  value_plain : ',' ∉ c.value.toList ∧ ':' ∉ c.value.toList

/-- What is wrong with a text that is not the text of such a clause. -/
inductive Malformed : String → QueryFault → Prop
  /-- It has more or fewer parts, -/
  | shape {text : String} (not_parts : ∀ field operator value, ¬ Parts text field operator value) :
    Malformed text (.shape text)
  /-- it has an empty field, -/
  | emptyField {text operator value : String} (parts : Parts text "" operator value) :
    Malformed text (.emptyField text)
  /-- or the field is there and the operator is none. -/
  | unknownOperator {text field operator value : String} (field_ne : field ≠ "")
    (parts : Parts text field operator value) (unknown : ∀ op : Operator, operator ≠ op.symbol) :
    Malformed text (.unknownOperator operator)

theorem parts_iff : Parts text field operator value ↔
    text.toList.splitOn ':' = [field.toList, operator.toList, value.toList] := by
  have hsplit : text.toList.splitOn ':' = [field, operator, value].map String.toList ↔ _ :=
    Text.splitOn_eq_iff
  have hjoin : String.intercalate (.singleton ':') [field, operator, value] =
      s!"{field}:{operator}:{value}" := by
    rw [String.intercalate_cons_cons, String.intercalate_cons_cons, String.intercalate_singleton,
      ← String.append_assoc, ← String.append_assoc]
    rfl
  rw [hjoin] at hsplit
  constructor
  · intro h
    exact hsplit.mpr ⟨List.cons_ne_nil _ _,
      by simp [h.field_free, h.operator_free, h.value_free], h.text_eq⟩
  · intro h
    obtain ⟨-, hfree, htext⟩ := hsplit.mp h
    simp only [List.forall_mem_cons] at hfree
    exact ⟨hfree.1, hfree.2.1, hfree.2.2.1, htext⟩

theorem parse_of_parts (h : Parts text field operator value) :
    parse text.toList =
      if field = "" then .error (.invalidQuery (.emptyField text))
      else (Operator.parse operator).map fun op => ⟨field, op, value⟩ := by
  simp [parse, parts_iff.mp h]

theorem parse_of_not_parts (h : ∀ field operator value, ¬ Parts text field operator value) :
    parse text.toList = .error (.invalidQuery (.shape text)) := by
  unfold parse
  split
  · rename_i field operator value hs
    refine absurd (parts_iff.mpr ?_) (h (.ofList field) (.ofList operator) (.ofList value))
    simpa only [String.toList_ofList] using hs
  · rw [String.ofList_toList]

theorem comma_not_mem_toText_iff :
    ',' ∉ c.toText.toList ↔ ',' ∉ c.field.toList ∧ ',' ∉ c.value.toList := by
  have htext : c.toText = c.field ++ ":" ++ c.operator.symbol ++ ":" ++ c.value := rfl
  simp [htext, c.operator.symbol_plain.1]

/-- A text without commas is the text of such a clause when these are its parts. -/
theorem regular_and_iff (h : ',' ∉ text.toList) :
    c.Regular ∧ text = c.toText ↔ c.field ≠ "" ∧ Parts text c.field c.operator.symbol c.value := by
  constructor
  · rintro ⟨hc, htext⟩
    exact ⟨hc.field_ne, hc.field_plain.2, c.operator.symbol_plain.2, hc.value_plain.2, htext⟩
  · rintro ⟨hne, hp⟩
    have htext : text = c.toText := hp.text_eq
    obtain ⟨hfield, hvalue⟩ := comma_not_mem_toText_iff.mp (htext ▸ h)
    exact ⟨⟨hne, ⟨hfield, hp.field_free⟩, hvalue, hp.value_free⟩, htext⟩

theorem Regular.comma_not_mem_toText (h : c.Regular) : ',' ∉ c.toText.toList :=
  comma_not_mem_toText_iff.mpr ⟨h.field_plain.1, h.value_plain.1⟩

/-- Every text is read as a clause with its parts, or it is malformed. -/
theorem parse_cases (text : String) :
    (∃ c, parse text.toList = .ok c ∧ c.field ≠ "" ∧
      Parts text c.field c.operator.symbol c.value) ∨
    ∃ fault, parse text.toList = .error (.invalidQuery fault) ∧ Malformed text fault := by
  by_cases hparts : ∃ field operator value, Parts text field operator value
  · obtain ⟨field, operator, value, hp⟩ := hparts
    rw [parse_of_parts hp]
    by_cases hne : field = ""
    · exact .inr ⟨_, if_pos hne, .emptyField (hne ▸ hp)⟩
    · rw [if_neg hne]
      cases hop : Operator.parse operator with
      | ok op => exact .inl ⟨_, rfl, hne, Operator.parse_eq_ok_iff.mp hop ▸ hp⟩
      | error e =>
        obtain ⟨hnone, rfl⟩ := Operator.parse_eq_error_iff.mp hop
        exact .inr ⟨_, rfl, .unknownOperator hne hp hnone⟩
  · have hnone : ∀ field operator value, ¬ Parts text field operator value :=
      fun field operator value hp => hparts ⟨field, operator, value, hp⟩
    exact .inr ⟨_, parse_of_not_parts hnone, .shape hnone⟩

/-- **The clauses that are read.** -/
theorem parse_eq_ok_iff (h : ',' ∉ text.toList) :
    parse text.toList = .ok c ↔ c.Regular ∧ text = c.toText := by
  rw [regular_and_iff h]
  constructor
  · intro hok
    obtain ⟨c', hok', hparts⟩ | ⟨fault, herr, -⟩ := parse_cases text
    · rw [hok] at hok'
      cases hok'
      exact hparts
    · rw [hok] at herr
      cases herr
  · rintro ⟨hne, hp⟩
    rw [parse_of_parts hp, if_neg hne, Operator.parse_eq_ok_iff.mpr rfl]
    rfl

/-- **The texts that are not, and why.** -/
theorem parse_eq_error_iff :
    parse text.toList = .error e ↔ ∃ fault, e = .invalidQuery fault ∧ Malformed text fault := by
  constructor
  · intro herr
    obtain ⟨c, hok, -⟩ | ⟨fault, herr', hm⟩ := parse_cases text
    · rw [herr] at hok
      cases hok
    · rw [herr] at herr'
      cases herr'
      exact ⟨fault, rfl, hm⟩
  · rintro ⟨fault, rfl, hm⟩
    cases hm with
    | shape hnone => exact parse_of_not_parts hnone
    | emptyField hp => rw [parse_of_parts hp, if_pos rfl]
    | unknownOperator hne hp hnone =>
      rw [parse_of_parts hp, if_neg hne, Operator.parse_eq_error_iff.mpr ⟨hnone, rfl⟩]
      rfl

end Clause

/-! ## Queries -/

namespace Query

variable {text : String} {q : Query} {fault : QueryFault} {e : StoreError}

/-- That a text is written for a query: some clauses, each of them with its text. -/
structure Written (q : Query) (text : String) : Prop where
  clauses_ne : q.clauses ≠ []
  regular : ∀ c ∈ q.clauses, c.Regular
  text_eq : text = q.toText

/-- What is wrong with a text that is written for no query: the fault of its first piece that is the
text of no clause. -/
inductive Malformed : String → QueryFault → Prop
  | first {before : List Clause} {piece : String} {after : List String} {fault : QueryFault}
    (regular : ∀ c ∈ before, c.Regular) (piece_free : ',' ∉ piece.toList)
    (after_free : ∀ other ∈ after, ',' ∉ other.toList)
    (malformed : Clause.Malformed piece fault) :
    Malformed (String.intercalate "," (before.map Clause.toText ++ piece :: after)) fault

/-- A text is read piece by piece. -/
theorem parse_of_splitOn {pieces : List String}
    (h : text.toList.splitOn ',' = pieces.map String.toList) :
    parse text = (pieces.mapM fun piece => Clause.parse piece.toList).map mk := by
  rw [parse, h, List.mapM_map]
  rfl

theorem mapM_parse_eq_ok_iff {pieces : List String} (h : ∀ piece ∈ pieces, ',' ∉ piece.toList)
    {cs : List Clause} :
    (pieces.mapM fun piece => Clause.parse piece.toList) = .ok cs ↔
      (∀ c ∈ cs, c.Regular) ∧ pieces = cs.map Clause.toText :=
  Lists.mapM_eq_ok_iff_map fun piece hp _ => Clause.parse_eq_ok_iff (h piece hp)

theorem comma_not_mem_of_regular {cs : List Clause} (h : ∀ c ∈ cs, c.Regular) :
    ∀ piece ∈ cs.map Clause.toText, ',' ∉ piece.toList := by
  intro piece hp
  obtain ⟨c, hc, rfl⟩ := List.mem_map.mp hp
  exact (h c hc).comma_not_mem_toText

/-- **A query is read from the text that is written for it.** -/
theorem parse_eq_ok_iff : parse text = .ok q ↔ q.Written text := by
  constructor
  · intro h
    obtain ⟨pieces, hp⟩ := Text.exists_splitOn ',' text
    obtain ⟨hne, hfree, htext⟩ := Text.splitOn_eq_iff.mp hp
    rw [parse_of_splitOn hp] at h
    cases hcs : pieces.mapM fun piece => Clause.parse piece.toList with
    | error e =>
      rw [hcs] at h
      cases h
    | ok cs =>
      rw [hcs] at h
      cases h
      obtain ⟨hregular, rfl⟩ := (mapM_parse_eq_ok_iff hfree).mp hcs
      exact ⟨mt (congrArg (List.map Clause.toText)) hne, hregular, htext⟩
  · rintro ⟨hne, hregular, htext⟩
    have hfree := comma_not_mem_of_regular hregular
    rw [parse_of_splitOn (Text.splitOn_eq_iff.mpr ⟨mt List.map_eq_nil_iff.mp hne, hfree, htext⟩),
      (mapM_parse_eq_ok_iff hfree).mpr ⟨hregular, rfl⟩]
    rfl

/-- **And any other text has a first piece that tells why it is none.** -/
theorem parse_eq_error_iff :
    parse text = .error e ↔ ∃ fault, e = .invalidQuery fault ∧ Malformed text fault := by
  constructor
  · intro h
    obtain ⟨pieces, hp⟩ := Text.exists_splitOn ',' text
    obtain ⟨-, hfree, htext⟩ := Text.splitOn_eq_iff.mp hp
    rw [parse_of_splitOn hp, map_eq_error_iff, Lists.mapM_eq_error_iff] at h
    obtain ⟨before, piece, after, cs, rfl, hcs, herr⟩ := h
    obtain ⟨hbefore, hrest⟩ := List.forall_mem_append.mp hfree
    obtain ⟨hpiece, hafter⟩ := List.forall_mem_cons.mp hrest
    obtain ⟨hregular, rfl⟩ := (mapM_parse_eq_ok_iff hbefore).mp hcs
    obtain ⟨fault, rfl, hm⟩ := Clause.parse_eq_error_iff.mp herr
    exact ⟨fault, rfl, htext ▸ .first hregular hpiece hafter hm⟩
  · rintro ⟨fault, rfl, hm⟩
    cases hm with
    | @first before piece after _ hregular hpiece hafter hm =>
      have hbefore := comma_not_mem_of_regular hregular
      have hfree : ∀ other ∈ before.map Clause.toText ++ piece :: after, ',' ∉ other.toList :=
        List.forall_mem_append.mpr ⟨hbefore, List.forall_mem_cons.mpr ⟨hpiece, hafter⟩⟩
      have hne : before.map Clause.toText ++ piece :: after ≠ [] :=
        List.append_ne_nil_of_right_ne_nil _ (List.cons_ne_nil _ _)
      have hp : (String.intercalate "," (before.map Clause.toText ++ piece :: after)).toList.splitOn
          ',' = (before.map Clause.toText ++ piece :: after).map String.toList :=
        Text.splitOn_eq_iff.mpr ⟨hne, hfree, rfl⟩
      rw [parse_of_splitOn hp, map_eq_error_iff, Lists.mapM_eq_error_iff]
      exact ⟨_, piece, after, before, rfl, (mapM_parse_eq_ok_iff hbefore).mpr ⟨hregular, rfl⟩,
        Clause.parse_eq_error_iff.mpr ⟨fault, rfl, hm⟩⟩

/-- **Which texts are queries.** A text is read as a query just when it is written for this query,
which is the only one that it is written for. It is refused just when it is written for none, and
then for what is wrong with its first malformed piece. -/
theorem parse_exact (text : String) :
    (∀ q, parse text = .ok q ↔ q.Written text) ∧
    (∀ q q' : Query, q.Written text → q'.Written text → q = q') ∧
    (∀ e, parse text = .error e ↔ ∃ fault, e = .invalidQuery fault ∧ Malformed text fault) ∧
    ((∀ q : Query, ¬ q.Written text) →
      ∃ fault, parse text = .error (.invalidQuery fault) ∧ Malformed text fault) := by
  refine ⟨fun _ => parse_eq_ok_iff, fun q q' hq hq' => ?_, fun _ => parse_eq_error_iff,
    fun hnone => ?_⟩
  · have hok : parse text = .ok q' := parse_eq_ok_iff.mpr hq'
    rw [parse_eq_ok_iff.mpr hq] at hok
    exact Except.ok.inj hok
  · cases h : parse text with
    | ok q => exact absurd (parse_eq_ok_iff.mp h) (hnone q)
    | error e =>
      obtain ⟨fault, rfl, hm⟩ := parse_eq_error_iff.mp h
      exact ⟨fault, rfl, hm⟩

/-- A value may be empty. In the other text the second clause has no operator that is known and the
third one no field; it is refused for the second. -/
theorem parse_exact_second_clause :
    parse "age:>=:,tag:contains:a b" =
      .ok ⟨[⟨"age", .greaterEq, ""⟩, ⟨"tag", .contains, "a b"⟩]⟩ ∧
    parse "age:>=:18,tag:~:x,:==:y" = .error (.invalidQuery (.unknownOperator "~")) := by
  constructor
  · refine ((parse_exact _).1 _).mpr ⟨List.cons_ne_nil _ _, ?_, by decide⟩
    intro c hc
    simp only [List.mem_cons, List.not_mem_nil, or_false] at hc
    rcases hc with rfl | rfl
    · exact ⟨by decide, by decide, by decide⟩
    · exact ⟨by decide, by decide, by decide⟩
  · have hparts : Clause.Parts "tag:~:x" "tag" "~" "x" :=
      ⟨by decide, by decide, by decide, by decide⟩
    have hunknown : ∀ op : Operator, "~" ≠ op.symbol := by
      intro op
      cases op <;> decide
    have hregular : ∀ c ∈ [(⟨"age", .greaterEq, "18"⟩ : Clause)], c.Regular := by
      intro c hc
      obtain rfl := List.mem_singleton.mp hc
      exact ⟨by decide, by decide, by decide⟩
    have hm : Malformed (String.intercalate "," (["age:>=:18"] ++ "tag:~:x" :: [":==:y"])) _ :=
      .first hregular (by decide) (by decide) (.unknownOperator (by decide) hparts hunknown)
    exact ((parse_exact _).2.2.1 _).mpr ⟨_, rfl, hm⟩

end Query

end RecordStore
