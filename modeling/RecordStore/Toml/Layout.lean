import RecordStore.Toml.Basic

/-!
# The layout of a document

A document is laid out in tables, and each name of a table stands for one thing. Keys with dots and
headers bring in tables on the way, and the layout keeps apart how each table came about, since that
decides what may still be added to it.

* `Layout.put` gives a value to a key. Tables that only dotted keys make up may get more of them.
* `Layout.openTable` is a header, once for a table. A table that only headers of its parts speak of
  may still get its own.
* `Layout.openItem` is a header of one more table of a series.
-/

namespace RecordStore.Toml

/-- What a name stands for. -/
inductive Spot where
  | value (v : Toml)
  /-- A table that only headers of its parts speak of. -/
  | implied
  /-- A table made up by dotted keys. -/
  | dotted
  /-- A table with its own header. -/
  | headed
  /-- A series of tables, of which this is the number of the last. -/
  | series (last : Nat)

/-- Whether the spot is a table that dotted keys make up. -/
def Spot.isDotted : Spot → Bool
  | dotted => true
  | _ => false

/-- The way to a table: names, with the number of a table in a series, or zero. -/
abbrev Path := List (String × Nat)

/-- What each name of each table stands for, in order of appearance. -/
structure Layout where
  spots : List ((Path × String) × Spot) := []

namespace Layout

/-- What a name stands for in a table. -/
def spot? (l : Layout) (base : Path) (name : String) : Option Spot :=
  l.spots.lookup (base, name)

/-- Lets a new name stand for something. -/
def add (l : Layout) (base : Path) (name : String) (spot : Spot) : Layout :=
  ⟨l.spots ++ [((base, name), spot)]⟩

/-- Lets a known name stand for something else. -/
def change (l : Layout) (base : Path) (name : String) (spot : Spot) : Layout :=
  ⟨l.spots.map fun e => if e.1 = (base, name) then (e.1, spot) else e⟩

/-- Goes down a way from a table, through new tables where there are none. A dotted key does not go
through a table that has its own header. -/
def descend (byKey : Bool) : List String → Path → Layout → Option (Path × Layout)
  | [], base, l => some (base, l)
  | name :: names, base, l =>
    match l.spot? base name with
    | none =>
      descend byKey names (base ++ [(name, 0)])
        (l.add base name (if byKey then .dotted else .implied))
    | some (.value _) => none
    | some (.series last) => descend byKey names (base ++ [(name, last)]) l
    | some .headed => if byKey then none else descend byKey names (base ++ [(name, 0)]) l
    | some _ => descend byKey names (base ++ [(name, 0)]) l

/-- A key as the way to its table and its last name. -/
def split? (key : List String) : Option (List String × String) :=
  key.getLast?.map (key.dropLast, ·)

/-- Gives a value to a new key of a table. -/
def put (l : Layout) (base : Path) (key : List String) (v : Toml) : Option Layout := do
  let (way, name) ← split? key
  let (inner, l) ← descend true way base l
  let own := match inner.getLast? with
    | some (last, _) => (l.spot? inner.dropLast last).any Spot.isDotted
    | none => false
  guard (way.isEmpty || own)
  guard (l.spot? inner name).isNone
  return l.add inner name (.value v)

/-- Gives values to the keys of a table. -/
def ofPairs? (pairs : List (List String × Toml)) : Option Layout :=
  pairs.foldlM (fun l pair => l.put [] pair.1 pair.2) {}

/-- The table of a header. -/
def openTable (l : Layout) (key : List String) : Option (Path × Layout) := do
  let (way, name) ← split? key
  let (outer, l) ← descend false way [] l
  match l.spot? outer name with
  | none => return (outer ++ [(name, 0)], l.add outer name .headed)
  | some .implied => return (outer ++ [(name, 0)], l.change outer name .headed)
  | some _ => none

/-- The table of a header that adds to a series. -/
def openItem (l : Layout) (key : List String) : Option (Path × Layout) := do
  let (way, name) ← split? key
  let (outer, l) ← descend false way [] l
  match l.spot? outer name with
  | none => return (outer ++ [(name, 0)], l.add outer name (.series 0))
  | some (.series last) =>
    return (outer ++ [(name, last + 1)], l.change outer name (.series (last + 1)))
  | some _ => none

/-- The names outside all tables. -/
def top (l : Layout) : List (String × Spot) :=
  l.spots.filterMap fun e => if e.1.1.isEmpty then some (e.1.2, e.2) else none

end Layout

end RecordStore.Toml
