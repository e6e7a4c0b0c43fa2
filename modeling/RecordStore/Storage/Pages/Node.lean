import RecordStore.Storage.Pages.Space

/-!
# Nodes of trees

A node of a tree is a page of cells. Above the lowest level there is a child before each cell and
behind the last one. After a change a node may hold more than fits on its page, or so little that it
need not be there. Then its cells and those of its neighbours are shared out again.

* `Node`: a node over children of any kind.
* `Node.settle` looks after a child that was changed.
* There are trees of rows and of keys. In a tree of rows every row is on the lowest level, and
  the cells above only divide. In a tree of keys each cell is one of the keys.
-/

namespace RecordStore.Pages

/-- Whether a tree is one of rows or of keys. -/
inductive TreeKind where
  | rows
  | keys
  deriving DecidableEq

/-- A page of cells, with the children between them. There are none on the lowest level. -/
structure Node (α : Type) where
  page : Nat
  cells : List Cell
  children : List α := []

/-- A node after a change. -/
structure Changed (α : Type) where
  node : Node α
  /-- Whether its load may need to be looked after. -/
  unsettled : Bool
  /-- Whether the change was to its last cell. -/
  atEnd : Bool := false
  /-- The pages it no longer needs, which are still to be given up. -/
  unused : List Nat := []

namespace Node

/-- Whether a node is on the lowest level. -/
def isLeaf (n : Node α) : Bool := n.children.isEmpty

/-- How many bytes point to a child. -/
def lead (n : Node α) : Nat := if n.isLeaf then 0 else 4

/-- How many bytes of the page are there for cells and children. -/
def capacity (n : Node α) : Nat := size - 8 - n.lead

/-- What a cell takes with its child. -/
def weight (lead : Nat) (c : Cell) : Nat := c.length + lead

/-- What some cells take with their children. -/
def load (lead : Nat) (cells : List Cell) : Nat := total (cells.map (weight lead))

/-- What the cells of a node take. -/
def used (n : Node α) : Nat := load n.lead n.cells

/-- Whether the cells do not fit on the page. -/
def isOverfull (n : Node α) : Bool := n.capacity < n.used

/-- Whether more than two thirds of the page are free. -/
def isSparse (n : Node α) : Bool := 2 * size < 3 * (n.capacity - n.used)

/-- Where a key is or would be: behind the cells before it. -/
def position (key : Key) (n : Node α) : Nat :=
  (n.cells.takeWhile fun c => c.key.precedes key).length

end Node

/-! ## Sharing out -/

/-- The cells of a page, and the one that divides it from the next page. -/
structure Share where
  cells : List Cell
  divider : Option Cell := none

namespace Share

/-- Fills pages with cells, one after the other. The one that does not fit either divides, or it is
the first of the next page. The cells of the page under way are listed last to first. -/
def fill (divided : Bool) (lead capacity : Nat) (page : List Cell) (used : Nat) :
    List Cell → List Share
  | [] => [⟨page.reverse, none⟩]
  | c :: cells =>
    let weight := Node.weight lead c
    if used + weight ≤ capacity then
      fill divided lead capacity (c :: page) (used + weight) cells
    else if divided then
      ⟨page.reverse, some c⟩ :: fill divided lead capacity [] 0 cells
    else
      ⟨page.reverse, none⟩ :: fill divided lead capacity [c] weight cells

/-- Moves cells to the next page as long as that one does not become the fuller of the two, and at
least one to an empty page. A cell moves by way of the divider, if there is one. With the last page
it may be the fuller one by the two bytes that point to a cell. The cells are listed last to first.
-/
def shift (lead slack : Nat) (next : List Cell) (taken : Nat) (divider : Option Cell)
    (used : Nat) : List Cell → Share × List Cell
  | [] => (⟨[], divider⟩, next)
  | c :: cells =>
    let moved := divider.getD c
    let weight := Node.weight lead moved
    if taken ≠ 0 && used + slack < taken + weight + Node.weight lead c then
      (⟨(c :: cells).reverse, divider⟩, next)
    else
      shift lead slack (moved :: next) (taken + weight) (divider.map fun _ => c)
        (used - Node.weight lead c) cells

/-- Evens a page out with the next one. -/
def even (lead : Nat) (share : Share) : List Share → List Share
  | [] => [share]
  | next :: others =>
    let (share, cells) := shift lead (if others.isEmpty then 2 else 0) next.cells
      (Node.load lead next.cells) share.divider (Node.load lead share.cells) share.cells.reverse
    share :: { next with cells } :: others

/-- The cells of pages and their dividers in order. -/
def gather : List (List Cell) → List Cell → List Cell
  | page :: pages, divider :: dividers => page ++ divider :: gather pages dividers
  | pages, _ => pages.flatten

/-- Shares cells out over as few pages as possible, so that none is left much emptier than the one
before. -/
def out (divided : Bool) (lead capacity : Nat) (cells : List Cell) : List Share :=
  (fill divided lead capacity [] 0 cells).foldr (even lead) []

/-- Nodes at some pages, with the children that belong to their cells. -/
def nodes : List Nat → List Share → List α → List (Node α)
  | page :: pages, share :: shares, children =>
    let count := share.cells.length + 1
    ⟨page, share.cells, children.take count⟩ :: nodes pages shares (children.drop count)
  | _, _, _ => []

end Share

/-! ## Looking after a child -/

namespace Node

/-- A cell that divides a page of rows from the next one. It has the number of the last row. -/
def dividerAfter (cells : List Cell) : Option Cell :=
  match cells.getLast? with
  | some ⟨[.number row], _, _⟩ => some (.divider row)
  | _ => none

/-- Pages for some nodes: those of old ones as far as there are, then others near to the first. -/
def pagesFor (old : List Nat) (count : Nat) : Edit (List Nat) := do
  let kept := old.take count
  kept.forM Edit.write
  let more ← Edit.allocateChain (old.headD 0) (count - old.length)
  return (kept ++ more).mergeSort

/-- Shares out the cells of a child and its neighbours, of three children at most. -/
def redistribute (kind : TreeKind) (place : Nat) (n : Node (Node α)) :
    Edit (Changed (Node α)) := do
  let first := min (place - 1) (n.cells.length - 2)
  let count := min n.cells.length 2
  let old := (n.children.drop first).take (count + 1)
  let dividers := (n.cells.drop first).take count
  let leaf := old.all isLeaf
  let lead := if leaf then 0 else 4
  let divided := kind = .keys || !leaf
  let cells := Share.gather (old.map (·.cells)) (if divided then dividers else [])
  let shares := Share.out divided lead (size - 8 - lead) cells
  let pages := old.map (·.page)
  let nodes := Share.nodes (← pagesFor pages shares.length) shares (old.flatMap (·.children))
  let dividers :=
    if divided then shares.filterMap (·.divider)
    else shares.dropLast.filterMap fun share => dividerAfter share.cells
  let node := { n with
    cells := n.cells.take first ++ dividers ++ n.cells.drop (first + count)
    children := n.children.take first ++ nodes ++ n.children.drop (first + count + 1) }
  return { node, unsettled := true, unused := pages.drop shares.length }

/-- Puts the last row of the last child on a page of its own. -/
def extend (n : Node (Node α)) (child : Node α) : Edit (Changed (Node α)) := do
  let page ← Edit.allocate 0
  let cells := child.cells.dropLast
  let node := { n with
    cells := n.cells ++ (dividerAfter cells).toList
    children := n.children.dropLast ++
      [{ child with cells }, ⟨page, child.cells.getLast?.toList, []⟩] }
  return { node, unsettled := true }

/-- Looks after a child that was changed. Rows that are added at the end fill page after page. -/
def settle (kind : TreeKind) (place : Nat) (child : Changed α) (n : Node (Node α)) :
    Edit (Changed (Node α)) := do
  Edit.releaseAll child.unused
  let n := { n with children := n.children.set place child.node }
  let overfull := child.node.isOverfull
  if !child.unsettled || !overfull && !child.node.isSparse then
    return { node := n, unsettled := false }
  Edit.write n.page
  if kind = .rows && child.node.isLeaf && overfull && child.atEnd && place = n.cells.length then
    n.extend child.node
  else
    n.redistribute kind place

end Node

end RecordStore.Pages
