import RecordStore.Text.Hex

/-!
# Record ids

An id is 128 bits, kept as its 32 hexadecimal digits, and written in five groups joined by hyphens.

A text is read as an id in four forms, digits in either case:

* 32 digits and nothing else;
* groups of 8, 4, 4, 4 and 12 digits joined by hyphens;
* the same between `{` and `}`;
* the same after `urn:uuid:`, also in either case.

* `Id.read?` reads them; `Id.parse` also names the fault of a text that is none of them.
* `Id.toText` writes the second form in lower case.
-/

namespace RecordStore

/-- Why a text is no id. Places count from 0, in bytes. -/
inductive IdFault where
  | character (found : Char) (place : Nat)
  | length (found : Nat)
  | groupCount (found : Nat)
  | groupLength (group expected found : Nat)
  deriving DecidableEq, Repr

namespace IdFault

/-- The fault in words. -/
def message : IdFault → String
  | character c i => s!"invalid character: found `{c}` at {i}"
  | length n => s!"invalid length: found {n}"
  | groupCount n => s!"invalid group count: expected 5, found {n}"
  | groupLength g e n => s!"invalid group length in group {g}: expected {e}, found {n}"

end IdFault

/-- A 128-bit id, most significant digit first. -/
structure Id where
  digits : List (Fin 16)
  length_digits : digits.length = 32
  deriving DecidableEq

namespace Id

/-- The id with no bit set. -/
def zero : Id := ⟨List.replicate 32 (Text.lastDigit 0), rfl⟩

instance : Inhabited Id := ⟨zero⟩

/-- Groups of 8, 4, 4, 4 and 12 digits in lower case, joined by hyphens. -/
def toText (id : Id) : String :=
  let cs := id.digits.map Text.hexChar
  String.ofList <| List.intercalate ['-']
    [cs.take 8, (cs.drop 8).take 4, (cs.drop 12).take 4, (cs.drop 16).take 4, cs.drop 20]

instance : ToString Id := ⟨toText⟩

/-- Exactly 32 digits. -/
def ofDigits? (cs : List Char) : Option Id :=
  (cs.mapM Text.hexDigit?).bind fun ds => if h : ds.length = 32 then some ⟨ds, h⟩ else none

/-- Five groups joined by hyphens. -/
def ofGroups? (cs : List Char) : Option Id :=
  match cs.splitOn '-' with
  | [a, b, c, d, e] =>
    if [a, b, c, d, e].map List.length = [8, 4, 4, 4, 12] then
      ofDigits? (a ++ b ++ c ++ d ++ e)
    else none
  | _ => none

/-- What may stand before the groups, in either case. -/
def urnMark : List Char := "urn:uuid:".toList

/-- What stands around the groups: the number of characters before them, and they themselves. -/
def unwrap (cs : List Char) : Nat × List Char :=
  if cs.head? = some '{' ∧ cs.getLast? = some '}' ∧ 2 ≤ cs.length then (1, cs.tail.dropLast)
  else if (cs.take urnMark.length).map Char.toLower = urnMark then
    (urnMark.length, cs.drop urnMark.length)
  else (0, cs)

/-- The id that a text writes. -/
def read? (text : String) : Option Id :=
  let cs := text.toList
  (ofDigits? cs).or (ofGroups? (unwrap cs).2)

/-- The first character that can stand in no id, with its place in bytes. -/
def strange? : Nat → List Char → Option (Char × Nat)
  | _, [] => none
  | i, c :: cs =>
    if c = '-' ∨ (Text.hexDigit? c).isSome then strange? (i + c.utf8Size) cs else some (c, i)

/-- The first of the groups of unfitting length; the last one is measured to the end of the text. -/
def unfitGroup (size : Nat) : Nat → List Nat → List (List Char) → IdFault
  | g, e :: es, w :: ws =>
    if ws.isEmpty then .groupLength g e (size - 24)
    else if w.length = e then unfitGroup size (g + 1) es ws
    else .groupLength g e w.length
  | g, _, _ => .groupLength g 12 (size - 24)

/-- How many bytes five groups have with their hyphens. -/
def groupsSize : Nat := 36

/-- How many bytes the longest form has. -/
def maxSize : Nat := 45

/-- The fault of a text that is no id: that it is longer than any, then a strange character, then
the length of a text without hyphens, then the number of groups, then their lengths.

A text whose size is right for groups is taken for groups. Places count from their start then, and
it is no matter of its length that it has no hyphens. -/
def diagnose (text : String) : IdFault :=
  let size := text.utf8ByteSize
  let cs := text.toList
  let (before, inner) := if size = groupsSize then (0, cs) else unwrap cs
  let sized := (String.ofList inner).utf8ByteSize = groupsSize
  if maxSize < size then .length size
  else match strange? (if sized then 0 else before) inner with
    | some (c, i) => .character c i
    | none =>
      let groups := inner.splitOn '-'
      if groups.length = 1 ∧ before = 0 ∧ ¬sized then .length size
      else if groups.length ≠ 5 then .groupCount groups.length
      else unfitGroup size 0 [8, 4, 4, 4, 12] groups

/-- The id that a text writes, or why it writes none. -/
def parse (text : String) : Except IdFault Id :=
  match read? text with
  | some id => .ok id
  | none => .error (diagnose text)

end Id

end RecordStore
