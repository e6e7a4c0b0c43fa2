import RecordStore.Proofs.Json.Unicode
import RecordStore.Proofs.Record.Json

/-!
# Stored records are read however they are presented

Which record a text is read as does not depend on how the text presents it: on the order of its
fields, of which there may be others, on blanks, on the spelling of strings and of the id, and on
the order of the metadata.

* `Part`, `PartTokens`: the parts of a record, and the tokens that spell each of them.
* `Member`: a field of an object with its tokens, which has a value of any kind.
* `PartTokens.exists_spelled`: what spells a part spells a value that is read as the part.
* `Presents`: that the fields of an object present a record, in any order and among others.
* `decode_presented`: **a record is read from every object that has its parts once each, and from
  every array of its parts; from an object that lacks a part or has one twice none is read.**
-/

namespace RecordStore

namespace Json

/-! ## Fields of a name -/

variable {name : String} {fields : List (String × Json)}

theorem length_filter_eq_count (name : String) (fields : List (String × Json)) :
    (fields.filter (·.1 = name)).length = (fields.map (·.1)).count name := by
  rw [List.count, List.countP_map, List.countP_eq_length_filter]
  simp [Function.comp_def, beq_eq_decide]

/-- The value of a name that is there once. -/
theorem exists_only? (h : (fields.map (·.1)).count name = 1) :
    ∃ v, (name, v) ∈ fields ∧ only? name fields = some v := by
  rw [← length_filter_eq_count, List.length_eq_one_iff] at h
  obtain ⟨field, hf⟩ := h
  have hm : field ∈ fields.filter (·.1 = name) := hf ▸ List.mem_singleton_self field
  obtain ⟨hm, hn⟩ := List.mem_filter.mp hm
  have hn : field.1 = name := by simpa using hn
  exact ⟨field.2, hn ▸ hm, by rw [only?, hf]⟩

theorem only?_eq_none (h : (fields.map (·.1)).count name ≠ 1) : only? name fields = none := by
  rw [← length_filter_eq_count] at h
  unfold only?
  split
  · next hf => exact absurd (congrArg List.length hf) h
  · rfl

end Json

namespace Snapshot

open Json (Token SpellsText Spelled StringToken Laid arrayTokens objectTokens)

/-! ## Parts -/

/-- The parts of a record. -/
inductive Part where
  | id
  | key
  | values
  | metadata
  deriving DecidableEq

/-- The name of a part. -/
def Part.name : Part → String
  | id => "id"
  | key => "key"
  | values => "values"
  | metadata => "metadata"

theorem Part.name_injective : Function.Injective Part.name := by
  intro p q h
  cases p <;> cases q <;> simp [name] at h ⊢

/-- An entry of the metadata with its tokens. -/
structure SpelledEntry where
  name : String
  nameToken : Token
  value : String
  valueToken : Token

/-- **The tokens that spell a part of a record.** The id has any of its forms, and the metadata have
any order. -/
inductive PartTokens (s : Snapshot) : Part → List Token → Prop
  | id {text : String} {token : Token} (spelled : s.id.Spelled text)
    (token_of : SpellsText text token) : PartTokens s .id [token]
  | key {token : Token} (token_of : SpellsText s.key token) : PartTokens s .key [token]
  | values {items : List (Bytes × Token)} (values_eq : items.map (·.1) = s.values)
    (tokens_of : ∀ i ∈ items, SpellsText (Base64.encode i.1) i.2) :
    PartTokens s .values (arrayTokens (items.map fun i => [i.2]))
  | metadata {entries : List SpelledEntry}
    (perm : (entries.map fun e => (e.name, e.value)).Perm s.metadata.toList)
    (names_of : ∀ e ∈ entries, SpellsText e.name e.nameToken)
    (values_of : ∀ e ∈ entries, SpellsText e.value e.valueToken) :
    PartTokens s .metadata (objectTokens (entries.map fun e => (e.nameToken, [e.valueToken])))

/-- That a value is read as a part of a record. -/
def PartReads (s : Snapshot) : Part → Json → Prop
  | .id, v => v.text?.bind Id.read? = some s.id
  | .key, v => v.text? = some s.key
  | .values, v =>
    (v.items?.bind fun items => items.mapM fun v => v.text?.bind Base64.decode?) = some s.values
  | .metadata, v => ∃ entries : List (String × String),
    (v.fields?.bind fun fields => fields.mapM fun field => field.2.text?.map (field.1, ·)) =
      some entries ∧ .ofList entries = s.metadata

theorem ofParts?_eq_some {s : Snapshot} {id key values metadata : Json}
    (hid : PartReads s .id id) (hkey : PartReads s .key key) (hvalues : PartReads s .values values)
    (hmetadata : PartReads s .metadata metadata) :
    ofParts? id key values metadata = some s := by
  obtain ⟨entries, hentries, he⟩ := hmetadata
  simp only [PartReads, Option.bind_eq_some_iff] at hid hkey hvalues hentries
  obtain ⟨text, htext, hid⟩ := hid
  obtain ⟨items, hitems, hvalues⟩ := hvalues
  obtain ⟨fields, hfields, hentries⟩ := hentries
  simp only [ofParts?, htext, hid, hkey, hitems, hvalues, hfields, hentries, he,
    Option.bind_eq_bind, Option.bind_some]
  rfl

/-- What spells a text spells a value that is the text. -/
theorem exists_spelled_text {text : String} {token : Token} (h : SpellsText text token) :
    ∃ v, Spelled v [token] ∧ v.text? = some text := by
  obtain ⟨pieces, htoken, htext⟩ := Json.exists_pieces h
  exact ⟨.string pieces, .string htoken, htext⟩

/-- Fields that have spelled names and values are an object of these. -/
theorem exists_fields {α : Type} {as : List α} {name : α → String} {token : α → Token}
    {tokens : α → List Token} {Q : α → Json → Prop}
    (hn : ∀ a ∈ as, SpellsText (name a) (token a))
    (hv : ∀ a ∈ as, ∃ v, Spelled v (tokens a) ∧ Q a v) :
    ∃ object, Spelled (.object object) (objectTokens (as.map fun a => (token a, tokens a))) ∧
      ∃ pairs : List (α × Json), pairs.map (·.1) = as ∧ (∀ p ∈ pairs, Q p.1 p.2) ∧
        (Json.object object).fields? = some (pairs.map fun p => (name p.1, p.2)) := by
  have hf (a : α) (ha : a ∈ as) : ∃ f : List Piece × Json, StringToken f.1 (token a) ∧
      Piece.text? f.1 = some (name a) ∧ Spelled f.2 (tokens a) ∧ Q a f.2 := by
    obtain ⟨pieces, htoken, htext⟩ := Json.exists_pieces (hn a ha)
    obtain ⟨v, hspelled, hq⟩ := hv a ha
    exact ⟨(pieces, v), htoken, htext, hspelled, hq⟩
  obtain ⟨fields, rfl, hfields⟩ := Lists.exists_map_fst_eq hf
  have hs := Spelled.object_map (fun f hf => (hfields f hf).1) fun f hf => (hfields f hf).2.2.1
  refine ⟨_, by rw [List.map_map]; exact hs, fields.map fun f => (f.1, f.2.2), ?_, ?_, ?_⟩
  · rw [List.map_map]
    rfl
  · intro p hp
    obtain ⟨f, hf, rfl⟩ := List.mem_map.mp hp
    exact (hfields f hf).2.2.2
  · rw [Json.fields?, List.mapM_map, List.map_map]
    exact Lists.mapM_eq_pure_map fun f hf => by simp [(hfields f hf).2.1]

/-- **What spells a part of a record spells a value that is read as the part.** -/
theorem PartTokens.exists_spelled {s : Snapshot} {p : Part} {tokens : List Token}
    (h : PartTokens s p tokens) : ∃ v, Spelled v tokens ∧ PartReads s p v := by
  cases h with
  | @id text token spelled token_of =>
    obtain ⟨v, hv, htext⟩ := exists_spelled_text token_of
    exact ⟨v, hv, by rw [PartReads, htext, Option.bind_some, Id.read?_of_spelled spelled]⟩
  | key token_of => exact exists_spelled_text token_of
  | @values items values_eq tokens_of =>
    obtain ⟨pairs, rfl, hpairs⟩ :=
      Lists.exists_map_fst_eq fun i hi => exists_spelled_text (tokens_of i hi)
    have hs := Spelled.array_map fun p hp => (hpairs p hp).1
    refine ⟨_, by rw [List.map_map]; exact hs, ?_⟩
    rw [PartReads, Json.items?, Option.bind_some, List.mapM_map, ← values_eq, List.map_map]
    exact Lists.mapM_eq_pure_map fun p hp => by simp [(hpairs p hp).2, Base64.decode?_encode]
  | @metadata entries perm names_of values_of =>
    obtain ⟨object, hs, pairs, rfl, hpairs, hfields⟩ :=
      exists_fields names_of fun e he => exists_spelled_text (values_of e he)
    refine ⟨.object object, hs, _, ?_, Dict.ofList_of_perm perm⟩
    rw [hfields, Option.bind_some, List.mapM_map, List.map_map]
    exact Lists.mapM_eq_pure_map fun p hp => by simp [hpairs p hp]

/-! ## Objects -/

/-- A field of an object with its tokens. -/
structure Member where
  name : String
  token : Token
  tokens : List Token

/-- The tokens of an object with these fields. -/
def memberTokens (members : List Member) : List Token :=
  objectTokens (members.map fun m => (m.token, m.tokens))

/-- **That fields of an object present a record.** Each part is there once, and others have a value
of some kind. -/
structure Presents (s : Snapshot) (members : List Member) : Prop where
  names_of : ∀ m ∈ members, SpellsText m.name m.token
  once : ∀ p : Part, (members.map (·.name)).count p.name = 1
  parts_of : ∀ m ∈ members, ∀ p : Part, m.name = p.name → PartTokens s p m.tokens
  others_of : ∀ m ∈ members, (∀ p : Part, m.name ≠ p.name) → ∃ v, Spelled v m.tokens

theorem decode?_of_spelled {object : List (List Piece × Json)} {tokens : List Token}
    {fields : List (String × Json)} {text : List UInt8} (hs : Spelled (.object object) tokens)
    (hf : (Json.object object).fields? = some fields) (hl : Laid tokens text) :
    decode? text = ofFields? fields := by
  rw [decode?, Json.read?_of_spelled hs hl, Option.bind_some, ofJson?_object, hf, Option.bind_some]

theorem map_fst_fields (pairs : List (Member × Json)) :
    (pairs.map fun p => (p.1.name, p.2)).map (·.1) = (pairs.map (·.1)).map (·.name) := by
  rw [List.map_map, List.map_map]
  rfl

/-- What spells a field spells a value, which is read as the part that the field is. -/
theorem Presents.exists_spelled {s : Snapshot} {members : List Member} (h : Presents s members)
    {m : Member} (hm : m ∈ members) :
    ∃ v, Spelled v m.tokens ∧ ∀ p : Part, m.name = p.name → PartReads s p v := by
  -- A name is that of one part at most, so what the part is read as is read of the field.
  by_cases hp : ∃ p : Part, m.name = p.name
  · obtain ⟨p, hp⟩ := hp
    obtain ⟨v, hv, hread⟩ := (h.parts_of m hm p hp).exists_spelled
    refine ⟨v, hv, fun q hq => ?_⟩
    rw [Part.name_injective (hq.symm.trans hp)]
    exact hread
  · have hp : ∀ p : Part, m.name ≠ p.name := fun p he => hp ⟨p, he⟩
    obtain ⟨v, hv⟩ := h.others_of m hm hp
    exact ⟨v, hv, fun p he => absurd he (hp p)⟩

theorem decode?_of_presents {s : Snapshot} {members : List Member} {text : List UInt8}
    (h : Presents s members) (hl : Laid (memberTokens members) text) : decode? text = some s := by
  obtain ⟨object, hs, pairs, rfl, hpairs, hfields⟩ :=
    exists_fields h.names_of fun m hm => h.exists_spelled hm
  have honly (p : Part) : ∃ v, PartReads s p v ∧
      Json.only? p.name (pairs.map fun p => (p.1.name, p.2)) = some v := by
    have hc := h.once p
    rw [← map_fst_fields] at hc
    obtain ⟨v, hm, hv⟩ := Json.exists_only? hc
    obtain ⟨pair, hpair, he⟩ := List.mem_map.mp hm
    obtain ⟨hname, rfl⟩ := Prod.mk.inj he
    exact ⟨pair.2, hpairs pair hpair p hname, hv⟩
  obtain ⟨id, hid, hid'⟩ := honly .id
  obtain ⟨key, hkey, hkey'⟩ := honly .key
  obtain ⟨values, hvalues, hvalues'⟩ := honly .values
  obtain ⟨metadata, hmetadata, hmetadata'⟩ := honly .metadata
  rw [decode?_of_spelled hs hfields hl]
  simp only [Part.name] at hid' hkey' hvalues' hmetadata'
  simp only [ofFields?, hid', hkey', hvalues', hmetadata', Option.bind_eq_bind, Option.bind_some,
    ofParts?_eq_some hid hkey hvalues hmetadata]

theorem decode?_eq_none {members : List Member} {text : List UInt8} {p : Part}
    (hn : ∀ m ∈ members, SpellsText m.name m.token) (hv : ∀ m ∈ members, ∃ v, Spelled v m.tokens)
    (hp : (members.map (·.name)).count p.name ≠ 1) (hl : Laid (memberTokens members) text) :
    decode? text = none := by
  obtain ⟨object, hs, pairs, rfl, -, hfields⟩ :=
    exists_fields (Q := fun _ _ => True) hn fun m hm => (hv m hm).imp fun _ h => ⟨h, trivial⟩
  have honly : Json.only? p.name (pairs.map fun p => (p.1.name, p.2)) = none := by
    rw [← map_fst_fields] at hp
    exact Json.only?_eq_none hp
  rw [decode?_of_spelled hs hfields hl]
  cases p
  all_goals
    simp only [Part.name] at honly
    simp [ofFields?, honly]

/-! ## Arrays -/

theorem decode?_of_arrayTokens {s : Snapshot} {id key values metadata : List Token}
    {text : List UInt8} (hid : PartTokens s .id id) (hkey : PartTokens s .key key)
    (hvalues : PartTokens s .values values) (hmetadata : PartTokens s .metadata metadata)
    (hl : Laid (arrayTokens [id, key, values, metadata]) text) : decode? text = some s := by
  obtain ⟨a, ha, haid⟩ := hid.exists_spelled
  obtain ⟨b, hb, hbkey⟩ := hkey.exists_spelled
  obtain ⟨c, hc, hcvalues⟩ := hvalues.exists_spelled
  obtain ⟨d, hd, hdmetadata⟩ := hmetadata.exists_spelled
  have hs := @Spelled.array [(a, id), (b, key), (c, values), (d, metadata)]
    (by simp [ha, hb, hc, hd])
  rw [decode?, Json.read?_of_spelled hs hl, Option.bind_some]
  exact ofParts?_eq_some haid hbkey hcvalues hdmetadata

/-! ## Records -/

/-- **A record is read from whatever presents it**, and none is read from an object that lacks one
of its parts or has one twice. -/
theorem decode_presented (s : Snapshot) :
    (∀ (members : List Member) (text : List UInt8), Presents s members →
      Laid (memberTokens members) text → decode? text = some s) ∧
    (∀ (id key values metadata : List Token) (text : List UInt8), PartTokens s .id id →
      PartTokens s .key key → PartTokens s .values values → PartTokens s .metadata metadata →
      Laid (arrayTokens [id, key, values, metadata]) text → decode? text = some s) ∧
    ∀ (members : List Member) (text : List UInt8) (p : Part),
      (∀ m ∈ members, SpellsText m.name m.token) → (∀ m ∈ members, ∃ v, Spelled v m.tokens) →
      (members.map (·.name)).count p.name ≠ 1 → Laid (memberTokens members) text →
      decode? text = none := by
  refine ⟨fun _ _ => decode?_of_presents, fun _ _ _ _ _ => decode?_of_arrayTokens, ?_⟩
  exact fun _ _ _ => decode?_eq_none

/-- A record in an object with its fields out of order and another among them, with blanks
everywhere and escapes of both kinds, in an array, and in an object with its key twice. -/
theorem decode_presented_anyhow :
    let s : Snapshot := ⟨⟨(List.range 32).map Text.lastDigit, rfl⟩, "a😀", [[0, 1]],
      .ofList [("n", "b"), ("m", "c")]⟩
    let plain (text : String) : Token := Json.quoted (Text.bytes text)
    let id := [plain "Urn:uuid:01234567-89ab-cdef-0123-456789ABCDEF"]
    let key := [Json.ascii "\"\\u0061\\ud83d\\uDe00\""]
    let values := arrayTokens [[plain "AAE="]]
    let metadata := objectTokens [(plain "n", [plain "b"]), (plain "m", [plain "c"])]
    let other := arrayTokens [[Json.ascii "-0.5E+99"], [Json.ascii "\"\\uD800\""], objectTokens []]
    let members : List Member := [⟨"values", plain "values", values⟩, ⟨"key", plain "key", key⟩,
      ⟨"x", plain "x", other⟩, ⟨"metadata", plain "metadata", metadata⟩, ⟨"id", plain "id", id⟩]
    let spaced (tokens : List Token) := tokens.flatMap (Json.ascii " \n" ++ ·)
    decode? (spaced (memberTokens members)) = some s ∧
      decode? (spaced (arrayTokens [id, key, values, metadata])) = some s ∧
      decode? (spaced (memberTokens (members[1] :: members))) = none := by
  intro s plain id key values metadata other members spaced
  have hspaced (tokens : List Token) : Laid tokens (spaced tokens) := .flatMap (by decide) tokens
  have hid : PartTokens s .id id := by
    have hs := @Id.Spelled.marked s.id "Urn:uuid:".toList
      "0123456789abcdef0123456789ABCDEF".toList (by decide) (by decide)
    exact .id hs (Json.spellsText_quoted (by decide))
  have hkey : PartTokens s .key key := by
    have ha : Json.CharText 'a' _ := .unit
      (@Json.UnitText.digits _ 0 0 6 1 _ _ _ _ (.inl rfl) (.inl rfl) (.inl rfl) (.inl rfl) rfl)
    have hf : Json.CharText '😀' _ := .pair (by decide)
      (@Json.UnitText.digits _ 13 8 3 13 _ _ _ _ (.inl rfl) (.inl rfl) (.inl rfl) (.inl rfl) rfl)
      (@Json.UnitText.digits _ 13 14 0 0 _ _ _ _ (.inr rfl) (.inl rfl) (.inl rfl) (.inl rfl) rfl)
    have hchars := Json.CharsText.cons ha (.cons hf .nil)
    have hlist : ['a', '😀'] = s.key.toList := by decide
    rw [hlist] at hchars
    exact .key (.quoted hchars)
  have hvalues : PartTokens s .values values := by
    have hvalue : SpellsText (Base64.encode [0, 1]) (plain "AAE=") :=
      Json.spellsText_quoted (by decide)
    exact @PartTokens.values s [([0, 1], plain "AAE=")] rfl (List.forall_mem_singleton.mpr hvalue)
  have hmetadata : PartTokens s .metadata metadata := by
    have hlist : s.metadata.toList = [("m", "c"), ("n", "b")] := by decide +kernel
    let entries : List SpelledEntry :=
      [⟨"n", plain "n", "b", plain "b"⟩, ⟨"m", plain "m", "c", plain "c"⟩]
    have hplain : ∀ e ∈ entries,
        SpellsText e.name e.nameToken ∧ SpellsText e.value e.valueToken := by
      refine List.forall_mem_cons.mpr ⟨⟨?_, ?_⟩, List.forall_mem_singleton.mpr ⟨?_, ?_⟩⟩
      all_goals exact Json.spellsText_quoted (by decide)
    exact @PartTokens.metadata s entries (hlist ▸ .swap _ _ _) (fun e he => (hplain e he).1)
      fun e he => (hplain e he).2
  have hother : ∃ v, Spelled v other := by
    have hnumber : Json.NumberToken ⟨true, [0], [5], some 99⟩ (Json.ascii "-0.5E+99") :=
      .parts ⟨by decide, by decide, by decide⟩ (.digits (by decide) (by decide))
        (@Json.ExponentText.positive "E" "+" [9, 9] (.inr rfl) (.inr rfl) (by decide) (by decide))
    have hunit := @Json.UnitText.digits 0xD800 13 8 0 0 _ _ _ _ (.inr rfl) (.inl rfl) (.inl rfl)
      (.inl rfl) rfl
    have hstring : StringToken [.unit 0xD800] (Json.ascii "\"\\uD800\"") :=
      .quoted (.cons (.unit (by decide) hunit) .nil)
    have hobject : Spelled (.object []) (objectTokens []) :=
      @Spelled.object [] (List.forall_mem_nil _) (List.forall_mem_nil _)
    have hitems : ∀ i ∈ [(Json.number _, [_]), (.string _, [_]), (.object [], objectTokens [])],
        Spelled i.1 i.2 :=
      List.forall_mem_cons.mpr ⟨.number hnumber,
        List.forall_mem_cons.mpr ⟨.string hstring, List.forall_mem_singleton.mpr hobject⟩⟩
    exact ⟨_, .array hitems⟩
  have hnames : ∀ m ∈ members, SpellsText m.name m.token := by
    simp only [members, List.forall_mem_cons, List.not_mem_nil, IsEmpty.forall_iff, implies_true,
      and_true]
    refine ⟨?_, ?_, ?_, ?_, ?_⟩
    all_goals exact Json.spellsText_quoted (by decide)
  have hpresents : Presents s members := by
    refine ⟨hnames, by intro p; cases p <;> decide, fun m hm p hp => ?_, fun m hm hp => ?_⟩
    all_goals
      simp only [members, List.mem_cons, List.not_mem_nil, or_false] at hm
      rcases hm with rfl | rfl | rfl | rfl | rfl
    · exact @Part.name_injective .values p hp ▸ hvalues
    · exact @Part.name_injective .key p hp ▸ hkey
    · cases p <;> exact absurd hp (by decide)
    · exact @Part.name_injective .metadata p hp ▸ hmetadata
    · exact @Part.name_injective .id p hp ▸ hid
    · exact absurd rfl (hp .values)
    · exact absurd rfl (hp .key)
    · exact hother
    · exact absurd rfl (hp .metadata)
    · exact absurd rfl (hp .id)
  have hspelled (m : Member) (hm : m ∈ members) : ∃ v, Spelled v m.tokens :=
    (hpresents.exists_spelled hm).imp fun _ h => h.1
  have htwice : ∀ m ∈ members[1] :: members, SpellsText m.name m.token ∧ ∃ v, Spelled v m.tokens :=
    List.forall_mem_cons.mpr ⟨⟨hnames _ (by simp [members]), hspelled _ (by simp [members])⟩,
      fun m hm => ⟨hnames m hm, hspelled m hm⟩⟩
  obtain ⟨hobject, harray, hnone⟩ := decode_presented s
  exact ⟨hobject _ _ hpresents (hspaced _),
    harray _ _ _ _ _ hid hkey hvalues hmetadata (hspaced _),
    hnone _ _ .key (fun m hm => (htwice m hm).1) (fun m hm => (htwice m hm).2) (by decide)
      (hspaced _)⟩

end Snapshot

end RecordStore
