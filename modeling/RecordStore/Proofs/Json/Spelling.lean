import RecordStore.Json.Writer

/-!
# How JSON may be spelled

A value is spelled by tokens with blanks anywhere between them, and most values have many spellings.
A character of a string may stand for itself or be escaped, by a letter or by one or two units in
hexadecimal digits of either case; an exponent has a sign or not.

* `SpellsText`: the tokens that spell a text. `StringToken`: all tokens of strings, whether what
  they spell is Unicode or not.
* `NumberToken`: the tokens of numbers.
* `Spelled`: **the tokens that spell a value**, one after the other.
* `Laid`: that a text consists of some tokens and blanks.
-/

namespace RecordStore.Json

/-- The bytes of a text that is not to be split. -/
abbrev Token : Type := List UInt8

/-! ## Strings -/

/-- The escapes of one letter, each with the byte that it writes. -/
def letters : List (Char × UInt8) :=
  [('"', 0x22), ('\\', 0x5C), ('/', 0x2F), ('b', 0x08), ('f', 0x0C), ('n', 0x0A), ('r', 0x0D),
    ('t', 0x09)]

/-- An escape of four digits, each in either case. -/
inductive UnitText (u : Nat) : List UInt8 → Prop
  | digits {a b c d : Fin 16} {w x y z : Char} (first : Text.SpellsDigit a w)
    (second : Text.SpellsDigit b x) (third : Text.SpellsDigit c y) (fourth : Text.SpellsDigit d z)
    (value_eq : u = 16 * (16 * (16 * a.val + b.val) + c.val) + d.val) :
    UnitText u (ascii "\\u" ++ [w, x, y, z].map Char.toUInt8)

/-- What spells an element of a string. -/
inductive PieceText : Piece → List UInt8 → Prop
  | itself {b : UInt8} (printing : 0x20 ≤ b) (not_quote : b ≠ 0x22) (not_backslash : b ≠ 0x5C) :
    PieceText (.byte b) [b]
  | letter {c : Char} {b : UInt8} (mem : (c, b) ∈ letters) :
    PieceText (.byte b) (ascii "\\" ++ [c.toUInt8])
  | ascii {u : Nat} {text : List UInt8} (lt : u < 0x80) (text_of : UnitText u text) :
    PieceText (.byte (.ofNat u)) text
  | unit {u : Nat} {text : List UInt8} (le : 0x80 ≤ u) (text_of : UnitText u text) :
    PieceText (.unit (.ofNat u)) text

/-- What spells some elements one after the other. -/
inductive PiecesText : List Piece → List UInt8 → Prop
  | nil : PiecesText [] []
  | cons {p : Piece} {ps : List Piece} {part rest : List UInt8} (first : PieceText p part)
    (others : PiecesText ps rest) : PiecesText (p :: ps) (part ++ rest)

/-- The token with this between its quotation marks. -/
def quoted (body : List UInt8) : Token := ascii "\"" ++ (body ++ ascii "\"")

/-- The tokens that spell a string with these elements. -/
inductive StringToken (ps : List Piece) : Token → Prop
  | quoted {body : List UInt8} (pieces : PiecesText ps body) : StringToken ps (quoted body)

/-- What spells a character: its bytes, if it is neither a control character nor of a meaning of its
own, or an escape. A character beyond 16 bits is escaped by two units. -/
inductive CharText (c : Char) : List UInt8 → Prop
  | itself (printing : 0x20 ≤ c.toNat) (not_quote : c ≠ '"') (not_backslash : c ≠ '\\') :
    CharText c (String.utf8EncodeChar c)
  | letter {l : Char} {b : UInt8} (mem : (l, b) ∈ letters) (char_eq : c = Char.ofUInt8 b) :
    CharText c (ascii "\\" ++ [l.toUInt8])
  | unit {text : List UInt8} (text_of : UnitText c.toNat text) : CharText c text
  | pair {high low : List UInt8} (le : 0x10000 ≤ c.toNat)
    (high_of : UnitText (0xD800 + (c.toNat - 0x10000) / 0x400) high)
    (low_of : UnitText (0xDC00 + (c.toNat - 0x10000) % 0x400) low) : CharText c (high ++ low)

/-- What spells some characters one after the other. -/
inductive CharsText : List Char → List UInt8 → Prop
  | nil : CharsText [] []
  | cons {c : Char} {cs : List Char} {part rest : List UInt8} (first : CharText c part)
    (others : CharsText cs rest) : CharsText (c :: cs) (part ++ rest)

/-- The tokens that spell a text. -/
inductive SpellsText (s : String) : Token → Prop
  | quoted {body : List UInt8} (chars : CharsText s.toList body) : SpellsText s (quoted body)

/-! ## Numbers -/

/-- Digits of a whole number: no zero leads but one alone. -/
structure WholeDigits (ds : List Nat) : Prop where
  ne_nil : ds ≠ []
  lt : ∀ d ∈ ds, d < 10
  no_zero : ds.head? = some 0 → ds = [0]

/-- What spells the digits behind the point. -/
inductive FractionText : List Nat → List UInt8 → Prop
  | none : FractionText [] []
  | digits {ds : List Nat} (ne_nil : ds ≠ []) (lt : ∀ d ∈ ds, d < 10) :
    FractionText ds (ascii "." ++ writeDigits ds)

/-- What spells an exponent. -/
inductive ExponentText : Option Int → List UInt8 → Prop
  | none : ExponentText none []
  | positive {mark sign : String} {ds : List Nat} (mark_eq : mark = "e" ∨ mark = "E")
    (sign_eq : sign = "" ∨ sign = "+") (ne_nil : ds ≠ []) (lt : ∀ d ∈ ds, d < 10) :
    ExponentText (some (Numeral.ofDigits ds)) (ascii mark ++ (ascii sign ++ writeDigits ds))
  | negative {mark : String} {ds : List Nat} (mark_eq : mark = "e" ∨ mark = "E")
    (ne_nil : ds ≠ []) (lt : ∀ d ∈ ds, d < 10) :
    ExponentText (some (-Numeral.ofDigits ds)) (ascii mark ++ (ascii "-" ++ writeDigits ds))

/-- The tokens that spell a number. -/
inductive NumberToken : Numeral → Token → Prop
  | parts {negative : Bool} {whole fraction : List Nat} {exponent : Option Int}
    {behind scale : List UInt8} (whole_of : WholeDigits whole)
    (fraction_of : FractionText fraction behind) (exponent_of : ExponentText exponent scale) :
    NumberToken ⟨negative, whole, fraction, exponent⟩
      ((if negative then ascii "-" else []) ++ (writeDigits whole ++ (behind ++ scale)))

/-! ## Values -/

/-- Tokens with a comma between each two. -/
def joined : List (List Token) → List Token
  | [] => []
  | [tokens] => tokens
  | tokens :: more :: rest => tokens ++ ascii "," :: joined (more :: rest)

/-- The tokens of an array whose items have these. -/
def arrayTokens (items : List (List Token)) : List Token :=
  ascii "[" :: (joined items ++ [ascii "]"])

/-- The tokens of an object whose fields have these, each the name's and the value's. -/
def objectTokens (fields : List (Token × List Token)) : List Token :=
  ascii "\x7b" :: (joined (fields.map fun f => f.1 :: ascii ":" :: f.2) ++ [ascii "\x7d"])

/-- A field with its tokens. -/
structure SpelledField where
  name : List Piece
  token : Token
  value : Json
  tokens : List Token

/-- **The tokens that spell a value.** -/
inductive Spelled : Json → List Token → Prop
  | null : Spelled .null [ascii "null"]
  | bool (value : Bool) : Spelled (.bool value) [ascii (if value then "true" else "false")]
  | number {n : Numeral} {token : Token} (token_of : NumberToken n token) :
    Spelled (.number n) [token]
  | string {ps : List Piece} {token : Token} (token_of : StringToken ps token) :
    Spelled (.string ps) [token]
  | array {items : List (Json × List Token)} (items_of : ∀ i ∈ items, Spelled i.1 i.2) :
    Spelled (.array (items.map (·.1))) (arrayTokens (items.map (·.2)))
  | object {fields : List SpelledField} (names_of : ∀ f ∈ fields, StringToken f.name f.token)
    (values_of : ∀ f ∈ fields, Spelled f.value f.tokens) :
    Spelled (.object (fields.map fun f => (f.name, f.value)))
      (objectTokens (fields.map fun f => (f.token, f.tokens)))

/-- What spells each item spells the array of the items. -/
theorem Spelled.array_map {α : Type} {as : List α} {value : α → Json} {tokens : α → List Token}
    (h : ∀ a ∈ as, Spelled (value a) (tokens a)) :
    Spelled (.array (as.map value)) (arrayTokens (as.map tokens)) := by
  have hs : ∀ i ∈ as.map fun a => (value a, tokens a), Spelled i.1 i.2 := List.forall_mem_map.mpr h
  have ha := Spelled.array hs
  rwa [List.map_map, List.map_map] at ha

/-- What spells the name and the value of each field spells the object of the fields. -/
theorem Spelled.object_map {α : Type} {as : List α} {name : α → List Piece} {token : α → Token}
    {value : α → Json} {tokens : α → List Token} (hn : ∀ a ∈ as, StringToken (name a) (token a))
    (hv : ∀ a ∈ as, Spelled (value a) (tokens a)) :
    Spelled (.object (as.map fun a => (name a, value a)))
      (objectTokens (as.map fun a => (token a, tokens a))) := by
  let field (a : α) : SpelledField := ⟨name a, token a, value a, tokens a⟩
  have hs : Spelled (.object ((as.map field).map fun f => (f.name, f.value)))
      (objectTokens ((as.map field).map fun f => (f.token, f.tokens))) :=
    .object (List.forall_mem_map.mpr hn) (List.forall_mem_map.mpr hv)
  rwa [List.map_map, List.map_map] at hs

/-! ## Blanks -/

/-- A space, a tabulator, a line feed and a carriage return. -/
def blankBytes : List UInt8 := [0x20, 0x09, 0x0A, 0x0D]

/-- That a text is blank. -/
def Blank (bytes : List UInt8) : Prop := ∀ b ∈ bytes, b ∈ blankBytes

instance (bytes : List UInt8) : Decidable (Blank bytes) := List.decidableBAll _ _

/-- **That a text consists of some tokens**, with blanks anywhere between, before and behind. -/
inductive Laid : List Token → List UInt8 → Prop
  | nil {blanks : List UInt8} (blank : Blank blanks) : Laid [] blanks
  | cons {token : Token} {tokens : List Token} {blanks text : List UInt8} (blank : Blank blanks)
    (others : Laid tokens text) : Laid (token :: tokens) (blanks ++ (token ++ text))

/-- Tokens with the same blanks before each make up a text. -/
theorem Laid.flatMap {blanks : List UInt8} (h : Blank blanks) (tokens : List Token) :
    Laid tokens (tokens.flatMap (blanks ++ ·)) := by
  induction tokens with
  | nil => exact .nil (List.forall_mem_nil _)
  | cons token tokens ih =>
    rw [List.flatMap_cons, List.append_assoc]
    exact .cons h ih

/-- Tokens make up a text with no blanks. -/
theorem Laid.flatten (tokens : List Token) : Laid tokens tokens.flatten := by
  rw [List.flatten_eq_flatMap]
  exact @Laid.flatMap [] (List.forall_mem_nil _) tokens

end RecordStore.Json
