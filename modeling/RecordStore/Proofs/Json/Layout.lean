import RecordStore.Proofs.Json.Text

/-!
# JSON is read as it is spelled

A text that consists of the tokens of a value, however these are spelled and whatever blanks stand
between them, is read as the value.

* `exists_rest_cons`: blanks between tokens are passed over.
* `Reads`: that the tokens of a value are read at any depth, whatever closes them. The proofs for
  arrays and objects take it of the items and of the values of the fields.
* `reads_of_spelled`: **so it is with every value that tokens spell.**
* `read?_of_spelled`: a text of these tokens alone is read as the value.
-/

namespace RecordStore.Json

namespace Reader

variable {stack : List Frame} {tokens more : List Token} {text : List UInt8}

theorem read?_of_run {r : Reader} {next : Option Reader} {rest : List UInt8}
    (h : r.run text = next.bind (·.run rest)) : r.read? text = next.bind (·.read? rest) := by
  rw [read?, h, Option.bind_assoc]
  rfl

/-! ## Blanks -/

/-- The modes between tokens. -/
def Between : Mode → Prop
  | .value | .firstItem | .name | .firstName | .colon | .separator | .finished _ => True
  | .literal .. | .number _ | .string .. | .escape .. | .unit .. => False

theorem Begins.between {mode : Mode} (h : Begins mode) : Between mode := by
  rcases h with rfl | rfl <;> trivial

theorem step_blank {mode : Mode} (hm : Between mode) {b : UInt8} (hb : b ∈ blankBytes) :
    step ⟨mode, stack⟩ b = some ⟨mode, stack⟩ := by
  have hblank : ∀ b ∈ blankBytes, isBlank (Char.ofUInt8 b) = true :=
    Lists.forall_mem_of_all (by decide)
  cases mode with
  | value | firstItem | name | firstName | colon | separator | finished =>
    simp only [step, stepToken, hblank b hb, if_true]
  | literal | number | string | escape | unit => exact hm.elim

theorem run_blank {mode : Mode} (hm : Between mode) {blanks : List UInt8} (h : Blank blanks)
    (rest : List UInt8) : run ⟨mode, stack⟩ (blanks ++ rest) = run ⟨mode, stack⟩ rest := by
  induction blanks with
  | nil => rfl
  | cons b blanks ih =>
    rw [List.cons_append, run_cons, step_blank hm (h b List.mem_cons_self), Option.bind_some,
      ih fun c hc => h c (List.mem_cons_of_mem b hc)]

/-- Blanks before a token are passed over. -/
theorem exists_rest_cons {token : Token} (h : Laid (token :: tokens) text) :
    ∃ rest, Laid tokens rest ∧ ∀ mode stack, Between mode →
      run ⟨mode, stack⟩ text = run ⟨mode, stack⟩ (token ++ rest) := by
  cases h with
  | @cons _ _ blanks rest blank others =>
    exact ⟨rest, others, fun _ _ hm => run_blank hm blank _⟩

/-- A token of one byte. -/
theorem exists_rest_mark {mark : String} {b : UInt8} (hb : ascii mark = [b])
    (h : Laid (ascii mark :: tokens) text) :
    ∃ rest, Laid tokens rest ∧ ∀ mode stack, Between mode →
      read? ⟨mode, stack⟩ text = (step ⟨mode, stack⟩ b).bind (·.read? rest) := by
  obtain ⟨rest, hrest, hrun⟩ := exists_rest_cons h
  refine ⟨rest, hrest, fun mode stack hm => read?_of_run ?_⟩
  rw [hrun mode stack hm, run_mark hb]

/-! ## What follows a value -/

/-- That what follows a value closes it: a comma, a closing bracket or the end of the text. -/
def Closed (more : List Token) : Prop :=
  ∀ token ∈ more.head?, token ∈ [ascii ",", ascii "]", ascii "\x7d"]

theorem ended_of_laid (hc : Closed more) (h : Laid more text) : Ended text := by
  have hblank : ∀ b ∈ blankBytes, b ∈ enders := Lists.forall_mem_of_all (by decide)
  have hmark {token : Token} (h : token ∈ [ascii ",", ascii "]", ascii "\x7d"]) :
      ∃ b ∈ enders, token = [b] := by
    simp only [List.mem_cons, List.not_mem_nil, or_false] at h
    rcases h with rfl | rfl | rfl
    · exact ⟨0x2C, by decide, rfl⟩
    · exact ⟨0x5D, by decide, rfl⟩
    · exact ⟨0x7D, by decide, rfl⟩
  -- What comes next is a blank or, without any, the token itself.
  intro b hb
  cases h with
  | nil blank => exact hblank b (blank b (List.mem_of_mem_head? hb))
  | @cons token _ blanks rest blank _ =>
    cases blanks with
    | nil =>
      obtain ⟨c, hce, rfl⟩ := hmark (hc token rfl)
      obtain rfl : c = b := Option.some.inj hb
      exact hce
    | cons c blanks =>
      obtain rfl : c = b := Option.some.inj hb
      exact hblank c (blank c List.mem_cons_self)

/-- **That tokens are read as a value**, at any depth and whatever closes them. What is behind them
is read to its end, for the end of a text may be what ends a number. -/
def Reads (v : Json) (tokens : List Token) : Prop :=
  ∀ ⦃mode : Mode⦄, Begins mode → ∀ (stack : List Frame) ⦃more : List Token⦄ ⦃text : List UInt8⦄,
    Closed more → Laid (tokens ++ more) text →
      ∃ rest, Laid more rest ∧ read? ⟨mode, stack⟩ text = (deliver v stack).bind (·.read? rest)

/-- A single token that is read as a value. -/
theorem reads_token {v : Json} {token : Token}
    (h : ∀ {mode : Mode} {stack : List Frame} {rest : List UInt8}, Begins mode → Ended rest →
      read? ⟨mode, stack⟩ (token ++ rest) = (deliver v stack).bind (·.read? rest)) :
    Reads v [token] := by
  intro mode hm stack more text hc hl
  obtain ⟨rest, hrest, hrun⟩ := exists_rest_cons hl
  exact ⟨rest, hrest, by
    rw [read?, hrun mode stack hm.between]
    exact h hm (ended_of_laid hc hrest)⟩

/-! ## Arrays -/

/-- The items of an array behind those that were read, which stand in its frame last to first. -/
theorem reads_items {i : Json × List Token} {items : List (Json × List Token)}
    (h : ∀ j ∈ i :: items, Reads j.1 j.2) {mode : Mode} (hm : Begins mode) (done : List Json)
    (hl : Laid (joined (i.2 :: items.map (·.2)) ++ ascii "]" :: more) text) :
    ∃ rest, Laid more rest ∧ read? ⟨mode, .array done :: stack⟩ text =
      (deliver (.array (done.reverse ++ i.1 :: items.map (·.1))) stack).bind (·.read? rest) := by
  have hd : deliver i.1 (.array done :: stack) = some ⟨.separator, .array (i.1 :: done) :: stack⟩ :=
    rfl
  -- On the items to come, for any that are in the frame already.
  induction items generalizing i mode done text with
  | nil =>
    obtain ⟨rest, hrest, hread⟩ := h i List.mem_cons_self hm _ (by simp [Closed]) hl
    obtain ⟨rest', hrest', hmark⟩ := exists_rest_mark ascii_close_bracket hrest
    have hs : step ⟨.separator, .array (i.1 :: done) :: stack⟩ 0x5D =
        deliver (.array (i.1 :: done).reverse) stack := rfl
    refine ⟨rest', hrest', ?_⟩
    rw [hread, hd, Option.bind_some, hmark .separator _ trivial, hs, List.reverse_cons]
    rfl
  | cons j items ih =>
    rw [List.map_cons, joined, List.append_assoc] at hl
    obtain ⟨rest, hrest, hread⟩ := h i List.mem_cons_self hm _ (by simp [Closed]) hl
    obtain ⟨rest', hrest', hmark⟩ := exists_rest_mark ascii_comma hrest
    have hs : step ⟨.separator, .array (i.1 :: done) :: stack⟩ 0x2C =
        some ⟨.value, .array (i.1 :: done) :: stack⟩ := rfl
    have hj : ∀ k ∈ j :: items, Reads k.1 k.2 := fun k hk => h k (List.mem_cons_of_mem i hk)
    obtain ⟨last, hlast, hitems⟩ :=
      ih hj (.inl rfl) (i.1 :: done) hrest' rfl
    refine ⟨last, hlast, ?_⟩
    rw [hread, hd, Option.bind_some, hmark .separator _ trivial, hs, Option.bind_some, hitems,
      List.reverse_cons, List.append_assoc]
    rfl

theorem reads_array {items : List (Json × List Token)} (h : ∀ i ∈ items, Reads i.1 i.2) :
    Reads (.array (items.map (·.1))) (arrayTokens (items.map (·.2))) := by
  intro mode hm stack more text hc hl
  rw [arrayTokens, List.cons_append, List.append_assoc] at hl
  obtain ⟨rest, hrest, hopen⟩ := exists_rest_mark ascii_open_bracket hl
  have ho : step ⟨mode, stack⟩ 0x5B = some ⟨.firstItem, .array [] :: stack⟩ := by
    rcases hm with rfl | rfl <;> rfl
  rw [hopen mode stack hm.between, ho, Option.bind_some]
  cases items with
  | nil =>
    obtain ⟨rest', hrest', hmark⟩ := exists_rest_mark ascii_close_bracket hrest
    exact ⟨rest', hrest', hmark _ _ trivial⟩
  | cons i items => exact reads_items h (.inr rfl) [] hrest

/-! ## Objects -/

/-- The name of a field and the colon behind it. -/
theorem exists_rest_name {name : List Piece} {token : Token} (h : StringToken name token)
    {mode : Mode} (hm : mode = .name ∨ mode = .firstName) (done : List (List Piece × Json))
    (hl : Laid (token :: ascii ":" :: tokens) text) :
    ∃ rest, Laid tokens rest ∧
      read? ⟨mode, .object done :: stack⟩ text =
        read? ⟨.value, .field done name :: stack⟩ rest := by
  obtain ⟨rest, hrest, hrun⟩ := exists_rest_cons hl
  obtain ⟨rest', hrest', hmark⟩ := exists_rest_mark ascii_colon hrest
  have hb : Between mode := by rcases hm with rfl | rfl <;> trivial
  have hc : step ⟨.colon, .field done name :: stack⟩ 0x3A =
      some ⟨.value, .field done name :: stack⟩ := rfl
  refine ⟨rest', hrest', ?_⟩
  rw [read?, hrun mode _ hb, run_nameToken h done hm, ← read?, hmark .colon _ trivial, hc,
    Option.bind_some]

/-- The fields of an object behind those that were read, which stand in its frame last to first. -/
theorem reads_fields {f : SpelledField} {fields : List SpelledField}
    (hn : ∀ g ∈ f :: fields, StringToken g.name g.token)
    (h : ∀ g ∈ f :: fields, Reads g.value g.tokens) {mode : Mode}
    (hm : mode = .name ∨ mode = .firstName) (done : List (List Piece × Json))
    (hl : Laid (joined ((f :: fields).map fun g => g.token :: ascii ":" :: g.tokens) ++
      ascii "\x7d" :: more) text) :
    ∃ rest, Laid more rest ∧ read? ⟨mode, .object done :: stack⟩ text =
      (deliver (.object (done.reverse ++ (f :: fields).map fun g => (g.name, g.value))) stack).bind
        (·.read? rest) := by
  have hd : deliver f.value (.field done f.name :: stack) =
      some ⟨.separator, .object ((f.name, f.value) :: done) :: stack⟩ := rfl
  induction fields generalizing f mode done text with
  | nil =>
    obtain ⟨rest, hrest, hname⟩ := exists_rest_name (hn f List.mem_cons_self) hm done hl
    obtain ⟨rest', hrest', hread⟩ :=
      h f List.mem_cons_self (.inl rfl) _ (by simp [Closed]) hrest
    obtain ⟨last, hlast, hmark⟩ := exists_rest_mark ascii_close_brace hrest'
    have hs : step ⟨.separator, .object ((f.name, f.value) :: done) :: stack⟩ 0x7D =
        deliver (.object ((f.name, f.value) :: done).reverse) stack := rfl
    refine ⟨last, hlast, ?_⟩
    rw [hname, hread, hd, Option.bind_some, hmark .separator _ trivial, hs, List.reverse_cons]
    rfl
  | cons g fields ih =>
    rw [List.map_cons, List.map_cons, joined, List.append_assoc, List.cons_append,
      List.cons_append] at hl
    obtain ⟨rest, hrest, hname⟩ := exists_rest_name (hn f List.mem_cons_self) hm done hl
    obtain ⟨rest', hrest', hread⟩ :=
      h f List.mem_cons_self (.inl rfl) _ (by simp [Closed]) hrest
    obtain ⟨next, hnext, hmark⟩ := exists_rest_mark ascii_comma hrest'
    have hs : step ⟨.separator, .object ((f.name, f.value) :: done) :: stack⟩ 0x2C =
        some ⟨.name, .object ((f.name, f.value) :: done) :: stack⟩ := rfl
    have hg : ∀ e ∈ g :: fields, Reads e.value e.tokens :=
      fun e he => h e (List.mem_cons_of_mem f he)
    have hgn : ∀ e ∈ g :: fields, StringToken e.name e.token :=
      fun e he => hn e (List.mem_cons_of_mem f he)
    obtain ⟨last, hlast, hfields⟩ := ih hgn hg (.inl rfl) ((f.name, f.value) :: done) hnext rfl
    refine ⟨last, hlast, ?_⟩
    rw [hname, hread, hd, Option.bind_some, hmark .separator _ trivial, hs, Option.bind_some,
      hfields, List.reverse_cons, List.append_assoc]
    rfl

theorem reads_object {fields : List SpelledField} (hn : ∀ f ∈ fields, StringToken f.name f.token)
    (h : ∀ f ∈ fields, Reads f.value f.tokens) :
    Reads (.object (fields.map fun f => (f.name, f.value)))
      (objectTokens (fields.map fun f => (f.token, f.tokens))) := by
  intro mode hm stack more text hc hl
  rw [objectTokens, List.cons_append, List.append_assoc, List.map_map] at hl
  obtain ⟨rest, hrest, hopen⟩ := exists_rest_mark ascii_open_brace hl
  have ho : step ⟨mode, stack⟩ 0x7B = some ⟨.firstName, .object [] :: stack⟩ := by
    rcases hm with rfl | rfl <;> rfl
  rw [hopen mode stack hm.between, ho, Option.bind_some]
  cases fields with
  | nil =>
    obtain ⟨rest', hrest', hmark⟩ := exists_rest_mark ascii_close_brace hrest
    exact ⟨rest', hrest', hmark _ _ trivial⟩
  | cons f fields => exact reads_fields hn h (.inr rfl) [] hrest

/-! ## Values -/

/-- **The tokens that spell a value are read as it.** -/
theorem reads_of_spelled {v : Json} (h : Spelled v tokens) : Reads v tokens := by
  induction h with
  | null =>
    refine reads_token fun hm _ => read?_of_run ?_
    rcases hm with rfl | rfl <;> rfl
  | bool value =>
    refine reads_token fun hm _ => read?_of_run ?_
    cases value <;> rcases hm with rfl | rfl <;> rfl
  | number token_of =>
    obtain ⟨part, hpart, hrun⟩ := exists_part token_of
    exact reads_token fun hm hr => by rw [read?, hrun hm, ← read?, read?_number hpart hr]
  | string token_of =>
    exact reads_token fun hm _ => read?_of_run (run_stringToken token_of hm)
  | array _ ih => exact reads_array ih
  | object names_of _ ih => exact reads_object names_of ih

end Reader

/-- **A text of the tokens that spell a value is read as the value.** -/
theorem read?_of_spelled {v : Json} {tokens : List Token} (h : Spelled v tokens)
    {text : List UInt8} (hl : Laid tokens text) : read? text = some v := by
  rw [← List.append_nil tokens] at hl
  have hc : Reader.Closed [] := by simp [Reader.Closed]
  obtain ⟨rest, hrest, hread⟩ := Reader.reads_of_spelled h (.inl rfl) [] hc hl
  refine hread.trans ?_
  obtain ⟨blank⟩ := hrest
  have hrun : Reader.run ⟨.finished v, []⟩ (rest ++ []) = Reader.run ⟨.finished v, []⟩ [] :=
    Reader.run_blank (by trivial) blank []
  rw [List.append_nil] at hrun
  exact congrArg (·.bind Reader.finish?) hrun

end RecordStore.Json
