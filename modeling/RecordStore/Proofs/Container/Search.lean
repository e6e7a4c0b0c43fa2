import Mathlib.Data.List.Sort
import RecordStore.Proofs.Container.Views
import RecordStore.Proofs.Query

/-!
# Searching by metadata

A query asks for what all its clauses ask for, so what two queries find together is what both of
them find, and it matters neither in which order clauses are written nor how often. One clause asks
for the records that list its field with a value in some relation to the operand: of any two
relations that exclude each other and leave nothing out, every record that lists the field is found
by one and not by the other.

* `Operator.Relates`: what an operator asks for. `Operator.holds_iff`: this is what is tested.
* `Query.parse_append`: a query of two parts is read part by part.
* `Ascending`, `Ascending.ext`: how keys are listed, and that this tells the list from its members.
* `exists_findByMetadata_intercalate_iff`, `mem_findByMetadata_intercalate_iff`: **what queries find
  together.**
* `Divided`: what the operators find of one field, and how this goes together.
* `search_algebra`: **queries are put together like the sets of what they find.**
-/

namespace RecordStore

namespace Text

/-- Two texts with a mark between them have the pieces of both. -/
theorem splitOn_append (mark : Char) (cs ds : List Char) :
    (cs ++ mark :: ds).splitOn mark = cs.splitOn mark ++ ds.splitOn mark := by
  induction cs with
  | nil => simp [List.splitOn_cons_eq_if_modifyHead]
  | cons c cs ih =>
    obtain ⟨first, rest, hs⟩ := List.exists_cons_of_ne_nil (List.splitOn_ne_nil mark cs)
    rw [List.cons_append, List.splitOn_cons_eq_if_modifyHead, ih,
      List.splitOn_cons_eq_if_modifyHead, hs]
    split <;> rfl

theorem bytes_lt_iff {s t : String} : bytes s < bytes t ↔ s < t := by
  refine ⟨fun h => ?_, bytes_lt⟩
  rcases Std.lt_trichotomy s t with hlt | rfl | hlt
  · exact hlt
  · exact absurd h (List.lt_irrefl _)
  · exact absurd (bytes_lt hlt) (List.lt_asymm h)

theorem occursIn_iff {run cs : List Char} : occursIn run cs = true ↔ run <:+: cs := by
  induction cs with
  | nil => simp [occursIn]
  | cons c cs ih =>
    rw [occursIn, Bool.or_eq_true, ih, List.isPrefixOf_iff_prefix, List.infix_cons_iff]

end Text

/-- What an operator asks of a listed value and an operand. Texts are ordered as their bytes are. -/
def Operator.Relates : Operator → String → String → Prop
  | greater, value, operand => Text.bytes operand < Text.bytes value
  | greaterEq, value, operand => Text.bytes operand ≤ Text.bytes value
  | less, value, operand => Text.bytes value < Text.bytes operand
  | lessEq, value, operand => Text.bytes value ≤ Text.bytes operand
  | equal, value, operand => value = operand
  | notEqual, value, operand => value ≠ operand
  | contains, value, operand => operand.toList <:+: value.toList

theorem Operator.holds_iff {op : Operator} {value operand : String} :
    op.holds value operand = true ↔ op.Relates value operand := by
  cases op with
  | contains => exact Text.occursIn_iff
  | equal => simp [holds, Relates]
  | notEqual => simp [holds, Relates]
  | greater => simp [holds, Relates, Text.bytes_lt_iff]
  | greaterEq => simp [holds, Relates, ← List.not_lt, Text.bytes_lt_iff]
  | less => simp [holds, Relates, Text.bytes_lt_iff]
  | lessEq => simp [holds, Relates, ← List.not_lt, Text.bytes_lt_iff]

theorem Operator.relates_greaterEq_iff {value operand : String} :
    greaterEq.Relates value operand ↔
      greater.Relates value operand ∨ equal.Relates value operand := by
  simp only [Relates, ← List.not_lt, Text.bytes_lt_iff]
  constructor
  · intro h
    rcases Std.lt_trichotomy operand value with hlt | rfl | hlt
    · exact .inl hlt
    · exact .inr rfl
    · exact absurd hlt h
  · rintro (h | rfl)
    · exact Std.not_gt_of_lt h
    · exact Std.lt_irrefl

namespace Query

/-- **A query of two parts is read part by part.** -/
theorem parse_append (p q : String) :
    parse (p ++ "," ++ q) =
      (parse p).bind fun first => (parse q).map fun second =>
        ⟨first.clauses ++ second.clauses⟩ := by
  have hsplit : (p ++ "," ++ q).toList.splitOn ',' =
      p.toList.splitOn ',' ++ q.toList.splitOn ',' := by
    rw [← Text.splitOn_append]
    simp
  unfold parse
  rw [hsplit, List.mapM_append]
  cases (p.toList.splitOn ',').mapM Clause.parse with
  | error e => rfl
  | ok cs => cases (q.toList.splitOn ',').mapM Clause.parse <;> rfl

/-- **So is a query of any number of parts.** -/
theorem parse_intercalate {texts : List String} (hne : texts ≠ []) :
    parse (String.intercalate "," texts) =
      (texts.mapM parse).map fun queries => ⟨queries.flatMap clauses⟩ := by
  induction texts with
  | nil => exact absurd rfl hne
  | cons text texts ih =>
    cases texts with
    | nil =>
      rw [String.intercalate_singleton, List.mapM_cons, List.mapM_nil]
      cases parse text with
      | error e => rfl
      | ok query => simp [bind, Except.bind, pure, Except.pure, Except.map]
    | cons other texts =>
      rw [String.intercalate_cons_cons, parse_append,
        ih (List.cons_ne_nil _ _)]
      generalize other :: texts = rest
      rw [List.mapM_cons]
      cases parse text with
      | error e => rfl
      | ok query => cases rest.mapM parse <;> rfl

/-- The text of a clause is read as this clause, when any text is. -/
theorem parse_toText_iff (c : Clause) : parse c.toText = .ok ⟨[c]⟩ ↔ c.Regular := by
  have htext : c.toText = toText ⟨[c]⟩ := by simp [toText, String.intercalate_singleton]
  rw [parse_eq_ok_iff]
  constructor
  · intro h
    exact h.regular c List.mem_cons_self
  · intro h
    exact ⟨List.cons_ne_nil _ _, List.forall_mem_singleton.mpr h, htext⟩

end Query

namespace Container

/-- That keys are listed in strictly ascending order of their bytes. -/
def Ascending (keys : List String) : Prop :=
  keys.Pairwise fun a b => Text.bytes a < Text.bytes b

/-- The members of such a list tell the list. -/
theorem Ascending.ext {keys others : List String} (hk : Ascending keys) (ho : Ascending others)
    (h : ∀ key, key ∈ keys ↔ key ∈ others) : keys = others := by
  have : Std.Irrefl fun a b : String => Text.bytes a < Text.bytes b := ⟨fun _ => List.lt_irrefl _⟩
  have : Std.Antisymm fun a b : String => Text.bytes a < Text.bytes b :=
    ⟨fun _ _ h h' => absurd h' (List.lt_asymm h)⟩
  exact List.Pairwise.eq_of_mem_iff hk ho h

/-- The keys of the records that a query accepts. -/
def found (c : Container) (query : Query) : List String :=
  (c.records.toList.filter fun entry => query.accepts entry.2.metadata).map (·.1)

variable {c : Container} {text key : String} {keys texts others : List String} {query : Query}

theorem mem_found_iff :
    key ∈ c.found query ↔ ∃ r, c.get? key = some r ∧ query.accepts r.metadata = true := by
  simp only [found, List.mem_map, List.mem_filter]
  constructor
  · rintro ⟨⟨k, r⟩, ⟨hm, ha⟩, rfl⟩
    exact ⟨r, Std.ExtTreeMap.mem_toList_iff_getElem?_eq_some.mp hm, ha⟩
  · rintro ⟨r, hr, ha⟩
    exact ⟨(key, r), ⟨Std.ExtTreeMap.mem_toList_iff_getElem?_eq_some.mpr hr, ha⟩, rfl⟩

theorem ascending_found (c : Container) (query : Query) : Ascending (c.found query) := by
  have hkeys : c.records.keys.Pairwise fun a b => Text.bytes a < Text.bytes b :=
    (Dict.pairwise_keys c.records).imp Text.bytes_lt
  rw [← Std.ExtTreeMap.map_fst_toList_eq_keys] at hkeys
  exact hkeys.sublist (List.filter_sublist.map _)

theorem findByMetadata_eq_ok_iff : c.findByMetadata text = .ok keys ↔
    ∃ query, Query.parse text = .ok query ∧ c.found query = keys := by
  have h : c.findByMetadata text = (Query.parse text).map c.found := rfl
  rw [h]
  cases Query.parse text <;> simp [Except.map]

/-! ## Queries put together -/

theorem exists_findByMetadata_iff :
    (∃ keys, c.findByMetadata text = .ok keys) ↔ ∃ query, Query.parse text = .ok query := by
  simp only [findByMetadata_eq_ok_iff]
  exact ⟨fun ⟨_, query, h, _⟩ => ⟨query, h⟩, fun ⟨query, h⟩ => ⟨_, query, h, rfl⟩⟩

/-- **Searches in one succeed just when each of them does**, -/
theorem exists_findByMetadata_intercalate_iff (hne : texts ≠ []) :
    (∃ keys, c.findByMetadata (String.intercalate "," texts) = .ok keys) ↔
      ∀ text ∈ texts, ∃ keys, c.findByMetadata text = .ok keys := by
  simp only [exists_findByMetadata_iff, Query.parse_intercalate hne]
  rw [← Lists.exists_mapM_eq_ok_iff]
  cases texts.mapM Query.parse <;> simp [Except.map]

/-- **and find what each of them finds.** -/
theorem mem_findByMetadata_intercalate_iff (hne : texts ≠ [])
    (h : c.findByMetadata (String.intercalate "," texts) = .ok keys) :
    key ∈ keys ↔ ∀ text ∈ texts, ∀ each, c.findByMetadata text = .ok each → key ∈ each := by
  obtain ⟨query, hquery, rfl⟩ := findByMetadata_eq_ok_iff.mp h
  rw [Query.parse_intercalate hne] at hquery
  cases hqueries : texts.mapM Query.parse with
  | error e =>
    rw [hqueries] at hquery
    cases hquery
  | ok queries =>
    rw [hqueries] at hquery
    cases hquery
    have hmem : ∀ {query}, query ∈ queries ↔ ∃ text ∈ texts, Query.parse text = .ok query :=
      Lists.mem_of_mapM_eq_ok hqueries
    have haccepts : ∀ m : Metadata, Query.accepts ⟨queries.flatMap Query.clauses⟩ m = true ↔
        ∀ query ∈ queries, query.accepts m = true := by
      simp [Query.accepts, List.all_flatMap]
    simp only [mem_found_iff, haccepts]
    constructor
    · rintro ⟨r, hr, hall⟩ text htext each heach
      obtain ⟨query, hquery, rfl⟩ := findByMetadata_eq_ok_iff.mp heach
      exact mem_found_iff.mpr ⟨r, hr, hall query (hmem.mpr ⟨text, htext, hquery⟩)⟩
    · intro hall
      have hfound : ∀ query ∈ queries, ∃ r, c.get? key = some r ∧ query.accepts r.metadata = true :=
        fun query hm =>
          have ⟨text, htext, hquery⟩ := hmem.mp hm
          mem_found_iff.mp (hall text htext _ (findByMetadata_eq_ok_iff.mpr ⟨query, hquery, rfl⟩))
      -- There is a text, and so the key is in use.
      obtain ⟨text, htext⟩ := List.exists_mem_of_ne_nil texts hne
      obtain ⟨query, hquery⟩ := Lists.exists_mapM_eq_ok_iff.mp ⟨queries, hqueries⟩ text htext
      obtain ⟨r, hr, -⟩ := hfound query (hmem.mpr ⟨text, htext, hquery⟩)
      refine ⟨r, hr, fun query hm => ?_⟩
      obtain ⟨r', hr', ha⟩ := hfound query hm
      rw [hr] at hr'
      cases hr'
      exact ha

theorem ascending_findByMetadata (h : c.findByMetadata text = .ok keys) : Ascending keys := by
  obtain ⟨query, -, rfl⟩ := findByMetadata_eq_ok_iff.mp h
  exact c.ascending_found query

/-- **Neither the order of searches in one nor how often they are there matters.** -/
theorem findByMetadata_intercalate_congr (hne : texts ≠ [])
    (hsame : ∀ text, text ∈ texts ↔ text ∈ others)
    (h : c.findByMetadata (String.intercalate "," texts) = .ok keys) :
    c.findByMetadata (String.intercalate "," others) = .ok keys := by
  have hne' : others ≠ [] := by
    obtain ⟨text, htext⟩ := List.exists_mem_of_ne_nil texts hne
    exact List.ne_nil_of_mem ((hsame text).mp htext)
  have hall := (exists_findByMetadata_intercalate_iff hne).mp ⟨keys, h⟩
  obtain ⟨keys', h'⟩ := (exists_findByMetadata_intercalate_iff hne').mpr
    fun text htext => hall text ((hsame text).mpr htext)
  have hkeys : keys = keys' := by
    refine (ascending_findByMetadata h).ext (ascending_findByMetadata h') fun key => ?_
    rw [mem_findByMetadata_intercalate_iff hne h, mem_findByMetadata_intercalate_iff hne' h']
    simp only [hsame]
  rw [h', hkeys]

/-! ## One clause -/

/-- That the record of a key lists a metadata entry. -/
def Carries (c : Container) (field key : String) : Prop :=
  ∃ r, c.get? key = some r ∧ field ∈ r.metadata.toDict

/-- That some keys are divided into two lists. -/
structure Divided (all : String → Prop) (keys others : List String) : Prop where
  disjoint : ∀ key, ¬ (key ∈ keys ∧ key ∈ others)
  together : ∀ key, key ∈ keys ∨ key ∈ others ↔ all key

/-- What is found by each operator with a field and an operand, and how this goes together. -/
structure Partitioned (c : Container) (field operand : String) (found : Operator → List String) :
    Prop where
  /-- An operator finds the records that list the field with a value in its relation. -/
  mem_iff : ∀ op key, key ∈ found op ↔ ∃ r value, c.get? key = some r ∧
    r.metadata.toDict[field]? = some value ∧ op.Relates value operand
  less_greaterEq : Divided (c.Carries field) (found .less) (found .greaterEq)
  greater_lessEq : Divided (c.Carries field) (found .greater) (found .lessEq)
  equal_notEqual : Divided (c.Carries field) (found .equal) (found .notEqual)
  greaterEq_iff : ∀ key, key ∈ found .greaterEq ↔ key ∈ found .greater ∨ key ∈ found .equal
  equal_contains : ∀ key, key ∈ found .equal → key ∈ found .contains

theorem mem_found_singleton_iff {clause : Clause} :
    key ∈ c.found ⟨[clause]⟩ ↔ ∃ r value, c.get? key = some r ∧
      r.metadata.toDict[clause.field]? = some value ∧
        clause.operator.Relates value clause.value := by
  simp only [mem_found_iff, Query.accepts, List.all_cons, List.all_nil, Bool.and_true,
    Clause.accepts, Metadata.getElem?_toDict, ← Operator.holds_iff]
  refine exists_congr fun r => ?_
  cases r.metadata.get? clause.field <;> simp

/-- Two relations divide the records that list the field, if just one of them holds of any value. -/
theorem divided_of_relates {field operand : String} {found : Operator → List String}
    (hmem : ∀ op key, key ∈ found op ↔ ∃ r value, c.get? key = some r ∧
      r.metadata.toDict[field]? = some value ∧ op.Relates value operand)
    {op other : Operator} (h : ∀ value, other.Relates value operand ↔ ¬ op.Relates value operand) :
    Divided (c.Carries field) (found op) (found other) := by
  constructor
  · rintro key ⟨hkey, hkey'⟩
    obtain ⟨r, value, hr, hvalue, hrelates⟩ := (hmem op key).mp hkey
    obtain ⟨r', value', hr', hvalue', hrelates'⟩ := (hmem other key).mp hkey'
    rw [hr] at hr'
    cases hr'
    rw [hvalue] at hvalue'
    cases hvalue'
    exact (h value).mp hrelates' hrelates
  · intro key
    rw [hmem, hmem]
    constructor
    · rintro (⟨r, value, hr, hvalue, -⟩ | ⟨r, value, hr, hvalue, -⟩)
      all_goals exact ⟨r, hr, Std.ExtTreeMap.mem_iff_isSome_getElem?.mpr (by simp [hvalue])⟩
    · rintro ⟨r, hr, hm⟩
      obtain ⟨value, hvalue⟩ :=
        Option.isSome_iff_exists.mp (Std.ExtTreeMap.isSome_getElem?_iff_mem.mpr hm)
      by_cases hrelates : op.Relates value operand
      · exact .inl ⟨r, value, hr, hvalue, hrelates⟩
      · exact .inr ⟨r, value, hr, hvalue, (h value).mpr hrelates⟩

theorem partitioned {field operand : String} {found : Operator → List String}
    (hmem : ∀ op key, key ∈ found op ↔ ∃ r value, c.get? key = some r ∧
      r.metadata.toDict[field]? = some value ∧ op.Relates value operand) :
    c.Partitioned field operand found where
  mem_iff := hmem
  less_greaterEq := divided_of_relates hmem fun _ => List.not_lt.symm
  greater_lessEq := divided_of_relates hmem fun _ => List.not_lt.symm
  equal_notEqual := divided_of_relates hmem fun _ => Iff.rfl
  greaterEq_iff key := by
    simp only [hmem, Operator.relates_greaterEq_iff, and_or_left, exists_or]
  equal_contains key h := by
    obtain ⟨r, value, hr, hvalue, rfl⟩ := (hmem .equal key).mp h
    exact (hmem .contains key).mpr ⟨r, _, hr, hvalue, List.infix_refl _⟩

/-- **Searches make up an algebra.** Two searches in one succeed when both do, and find in ascending
order what both find, each key once; so neither the order of clauses nor their repetition matters.
For a field and an operand without marks each operator has a search: `<` and `>=`, `>` and `<=`,
`==` and `!=` divide the records that list the field, `>=` finds what `>` and `==` find, and
`contains` all that `==` finds. No other text of a clause is read as it is meant. -/
theorem search_algebra (c : Container) :
    (∀ p q,
      ((∃ keys, c.findByMetadata (p ++ "," ++ q) = .ok keys) ↔
        (∃ first, c.findByMetadata p = .ok first) ∧
          ∃ second, c.findByMetadata q = .ok second) ∧
      ∀ first second keys, c.findByMetadata p = .ok first → c.findByMetadata q = .ok second →
        c.findByMetadata (p ++ "," ++ q) = .ok keys →
          Ascending keys ∧ ∀ key, key ∈ keys ↔ key ∈ first ∧ key ∈ second) ∧
    (∀ texts others keys, texts ≠ [] → (∀ text, text ∈ texts ↔ text ∈ others) →
      c.findByMetadata (String.intercalate "," texts) = .ok keys →
        c.findByMetadata (String.intercalate "," others) = .ok keys) ∧
    (∀ field operand, field ≠ "" → ',' ∉ field.toList ∧ ':' ∉ field.toList →
      ',' ∉ operand.toList ∧ ':' ∉ operand.toList →
        ∃ found : Operator → List String,
          (∀ op, c.findByMetadata s!"{field}:{op.symbol}:{operand}" = .ok (found op)) ∧
            c.Partitioned field operand found) ∧
    ∀ clause : Clause, Query.parse clause.toText = .ok ⟨[clause]⟩ ↔ clause.Regular := by
  refine ⟨fun p q => ?_, fun _ _ _ => findByMetadata_intercalate_congr,
    fun field operand hne hfield hoperand => ?_, Query.parse_toText_iff⟩
  · have hboth : p ++ "," ++ q = String.intercalate "," [p, q] := by
      rw [String.intercalate_cons_cons, String.intercalate_singleton]
    have htexts : [p, q] ≠ [] := List.cons_ne_nil _ _
    rw [hboth]
    constructor
    · rw [exists_findByMetadata_intercalate_iff htexts]
      simp
    · intro first second keys hp hq h
      refine ⟨ascending_findByMetadata h, fun key => ?_⟩
      rw [mem_findByMetadata_intercalate_iff htexts h]
      simp [hp, hq]
  · refine ⟨fun op => c.found ⟨[⟨field, op, operand⟩]⟩, fun op => ?_,
      partitioned fun op key => mem_found_singleton_iff⟩
    let clause : Clause := ⟨field, op, operand⟩
    have hparse : Query.parse clause.toText = .ok ⟨[clause]⟩ :=
      (Query.parse_toText_iff clause).mpr ⟨hne, hfield, hoperand⟩
    exact findByMetadata_eq_ok_iff.mpr ⟨⟨[clause]⟩, hparse, rfl⟩

/-- Counters are compared as texts: of 9, 10 and 100 only the last is between 10 and 9. -/
theorem search_algebra_counters :
    let c := ((∅ : Container).load [⟨default, "a", [[]], .ofList [("Version", "9")]⟩,
      ⟨default, "b", [[]], .ofList [("Version", "10")]⟩,
      ⟨default, "c", [[]], .ofList [("Version", "100")]⟩]).2
    (∃ found, (∀ op, c.findByMetadata (Clause.toText ⟨"Version", op, "10"⟩) = .ok (found op)) ∧
      c.Partitioned "Version" "10" found ∧ found .greater = ["a", "c"]) ∧
    ∃ keys, c.findByMetadata ("Version:>:10" ++ "," ++ "Version:<:9") = .ok keys ∧
      Ascending keys ∧ ∀ key, key ∈ keys ↔ key ∈ ["a", "c"] ∧ key ∈ ["b", "c"] := by
  intro c
  obtain ⟨hboth, -, hfields, -⟩ := search_algebra c
  have hgreater : c.findByMetadata "Version:>:10" = .ok ["a", "c"] := by decide +kernel
  have hless : c.findByMetadata "Version:<:9" = .ok ["b", "c"] := by decide +kernel
  constructor
  · obtain ⟨found, hfound, hparts⟩ :=
      hfields "Version" "10" (by decide) (by decide) (by decide)
    refine ⟨found, hfound, hparts, ?_⟩
    exact Except.ok.inj ((hfound .greater).symm.trans hgreater)
  · obtain ⟨hok, hkeys⟩ := hboth "Version:>:10" "Version:<:9"
    obtain ⟨keys, h⟩ := hok.mpr ⟨⟨_, hgreater⟩, _, hless⟩
    exact ⟨keys, h, hkeys _ _ _ hgreater hless h⟩

end Container

end RecordStore
