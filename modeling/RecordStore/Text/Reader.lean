/-!
# Readers

A reader takes a value off the front of a text and leaves the rest, or fails and takes nothing, so
that another can try.

* `one`, `run`, `exactly` and `take` read characters, `optional`, `many` and `separated` repeat.
* `many` ends when its item fails or takes nothing, so it always ends.
* `all?` reads a whole text (`all?_eq_some_iff`).
* `run_append`: a run and what it leaves are the text.
-/

namespace RecordStore.Text

/-- What takes a value off the front of a text. -/
abbrev Reader := StateT (List Char) Option

namespace Reader

/-- A character of a class. -/
def one (p : Char → Bool) : Reader Char
  | [] => none
  | c :: cs => if p c then some (c, cs) else none

/-- The characters of a class up to the first other one. -/
def run (p : Char → Bool) : Reader (List Char) := fun cs =>
  some (cs.takeWhile p, cs.dropWhile p)

/-- One or more characters of a class. -/
def some1 (p : Char → Bool) : Reader (List Char) := do
  let c ← one p
  return c :: (← run p)

/-- This text and no other. -/
def exactly (s : String) : Reader Unit := fun cs =>
  if s.toList.isPrefixOf cs then some ((), cs.drop s.length) else none

/-- So many characters. -/
def take (n : Nat) : Reader (List Char) := fun cs =>
  let taken := cs.take n
  if taken.length = n then some (taken, cs.drop n) else none

/-- The end of the text. -/
def ending : Reader Unit := fun cs => if cs.isEmpty then some ((), cs) else none

/-- The value of an option. -/
def ofOption : Option α → Reader α
  | some a => pure a
  | none => failure

/-- What may be missing. -/
def optional (r : Reader α) : Reader (Option α) := (some <$> r) <|> pure none

/-- The item as often as it is there. -/
def many (item : Reader α) (cs : List Char) : Option (List α × List Char) :=
  match item cs with
  | none => some ([], cs)
  | some (a, rest) =>
    if rest.length < cs.length then (many item rest).map fun (items, rest) => (a :: items, rest)
    else some ([], cs)
termination_by cs.length

/-- One or more items with a mark between them. -/
def separated (item : Reader α) (mark : Reader Unit) : Reader (List α) := do
  let first ← item
  return first :: (← many (do mark; item))

/-- The characters that a reader takes. -/
def spelling (r : Reader Unit) : Reader String := fun cs =>
  (r cs).map fun (_, rest) => (.ofList (cs.take (cs.length - rest.length)), rest)

/-- What a reader makes of a whole text. -/
def all? (r : Reader α) (text : List Char) : Option α :=
  match r text with
  | some (a, []) => some a
  | _ => none

theorem all?_eq_some_iff {r : Reader α} {text : List Char} {a : α} :
    all? r text = some a ↔ r text = some (a, []) := by
  unfold all?
  split <;> simp_all

theorem run_append {p : Char → Bool} {cs taken rest : List Char}
    (h : run p cs = some (taken, rest)) : taken ++ rest = cs := by
  obtain ⟨rfl, rfl⟩ := Prod.mk.inj (Option.some.inj h)
  exact List.takeWhile_append_dropWhile

end Reader

end RecordStore.Text
