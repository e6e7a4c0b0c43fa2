import RecordStore.Storage.Pages.Node

/-!
# Trees

A tree of rows or of keys: all its leaves are equally far below the root, whose page never changes.
When the root is too full its cells move to a new node below it, and when it is left with a single
child that fits it takes the child's place.

* `Tree.insert`, `Tree.remove`, `Tree.replace`: changes of one cell.
* `Tree.lastRow` and `Tree.entries`: the number of the last row, and the keys that begin with a
  text.
-/

namespace RecordStore.Pages

/-- What the children of a node are, by how far it is above the lowest level. -/
abbrev Below : Nat → Type
  | 0 => Empty
  | height + 1 => Node (Below height)

/-- A tree with its root. -/
structure Tree where
  kind : TreeKind
  height : Nat
  root : Node (Below height)

namespace Tree

/-- A tree without cells. -/
def rooted (kind : TreeKind) (page : Nat) : Tree := ⟨kind, 0, ⟨page, [], []⟩⟩

/-! ## Looking up -/

/-- The last cell below a node. -/
def lastBelow : (height : Nat) → Node (Below height) → Option Cell
  | 0, n => n.cells.getLast?
  | height + 1, n => n.children.getLast?.bind (lastBelow height)

/-- The number of the last row, or zero. -/
def lastRow (t : Tree) : Nat :=
  match lastBelow t.height t.root with
  | some ⟨[.number row], _, _⟩ => row
  | _ => 0

/-- Whether a key begins with a text. -/
def beginsWith (text : String) (c : Cell) : Bool := c.key.head? = some (.text text)

/-- The cells below a node whose keys begin with a text, in order. -/
def entriesBelow (text : String) : (height : Nat) → Node (Below height) → List Cell
  | 0, n => n.cells.filter (beginsWith text)
  | height + 1, n =>
    let first := n.position [.text text]
    let cells := (n.cells.drop first).takeWhile (beginsWith text)
    let children := (n.children.drop first).take (cells.length + 1)
    Share.gather (children.map (entriesBelow text height)) cells

/-- The keys that begin with a text, in order. -/
def entries (text : String) (t : Tree) : List Key :=
  (entriesBelow text t.height t.root).map (·.key)

/-! ## Changing a node -/

/-- Adds a cell below a node. -/
def insertBelow (kind : TreeKind) (c : Cell) :
    (height : Nat) → Node (Below height) → Edit (Changed (Below height))
  | 0, n => do
    let place := n.position c.key
    let atEnd := place = n.cells.length
    let n := { n with cells := n.cells.insertIdx place c }
    if n.isOverfull then return { node := n, unsettled := true, atEnd }
    Edit.write n.page
    return { node := n, unsettled := false }
  | height + 1, n => do
    let place := n.position c.key
    match n.children[place]? with
    | none => return { node := n, unsettled := false }
    | some child => n.settle kind place (← insertBelow kind c height child)

/-- Takes the last cell below a node away. -/
def takeLastBelow (kind : TreeKind) :
    (height : Nat) → Node (Below height) → Edit (Option Cell × Changed (Below height))
  | 0, n => do
    Edit.write n.page
    return (n.cells.getLast?, { node := { n with cells := n.cells.dropLast }, unsettled := true })
  | height + 1, n => do
    let place := n.cells.length
    match n.children[place]? with
    | none => return (none, { node := n, unsettled := false })
    | some child =>
      let (last, child) ← takeLastBelow kind height child
      return (last, ← n.settle kind place child)

/-- Removes the cell of a key below a node and gives its chain up. Between pages, the cell before it
takes its place. -/
def removeBelow (kind : TreeKind) (key : Key) :
    (height : Nat) → Node (Below height) → Edit (Changed (Below height))
  | 0, n => do
    let place := n.position key
    Edit.write n.page
    Edit.releaseAll ((n.cells[place]?.map (·.chain)).getD [])
    return { node := { n with cells := n.cells.eraseIdx place }, unsettled := true }
  | height + 1, n => do
    let place := n.position key
    match n.children[place]?, n.cells[place]? with
    | none, _ => return { node := n, unsettled := false }
    | some child, none => n.settle kind place (← removeBelow kind key height child)
    | some child, some c =>
      if kind = .rows || c.key ≠ key then
        n.settle kind place (← removeBelow kind key height child)
      else
        Edit.write n.page
        Edit.releaseAll c.chain
        let (last, child) ← takeLastBelow kind height child
        let n := { n with cells := n.cells.set place (last.getD c) }
        return { ← n.settle kind place child with unsettled := true }

/-- Puts a cell in place of the one with its key below a node, and gives the old chain up. -/
def replaceBelow (kind : TreeKind) (c : Cell) :
    (height : Nat) → Node (Below height) → Edit (Changed (Below height))
  | 0, n => do
    let place := n.position c.key
    Edit.write n.page
    Edit.releaseAll ((n.cells[place]?.map (·.chain)).getD [])
    let atEnd := place + 1 = n.cells.length
    let n := { n with cells := n.cells.set place c }
    return { node := n, unsettled := n.isOverfull, atEnd }
  | height + 1, n => do
    let place := n.position c.key
    match n.children[place]? with
    | none => return { node := n, unsettled := false }
    | some child => n.settle kind place (← replaceBelow kind c height child)

/-! ## Changing a tree -/

/-- A tree with a new node between its root and everything else, if the root is overfull. -/
def deepen (kind : TreeKind) {height : Nat} (root : Changed (Below height)) : Edit Tree := do
  let n := root.node
  if !n.isOverfull then return ⟨kind, height, n⟩
  Edit.write n.page
  let page ← Edit.allocate n.page
  let child := { root with node := { n with page }, unused := [] }
  let above : Node (Below (height + 1)) := ⟨n.page, [], [child.node]⟩
  let above ← above.settle kind 0 child
  Edit.releaseAll above.unused
  return ⟨kind, height + 1, above.node⟩

/-- A tree after a change below its root. A root with one child takes its place, if there are no
others. -/
def grown (kind : TreeKind) : (height : Nat) → Changed (Below height) → Edit Tree
  | 0, root => deepen kind root
  | height + 1, root => do
    match root.node.cells, root.node.children with
    | [], [child] =>
      Edit.release child.page
      Edit.releaseAll root.unused
      return ⟨kind, height, { child with page := root.node.page }⟩
    | _, _ =>
      Edit.releaseAll root.unused
      deepen kind root

/-- Adds a cell. -/
def insert (plan : Cell.Plan) (t : Tree) : Edit Tree := do
  let c ← Edit.place plan
  grown t.kind t.height (← insertBelow t.kind c t.height t.root)

/-- Removes the cell of a key. -/
def remove (key : Key) (t : Tree) : Edit Tree := do
  grown t.kind t.height (← removeBelow t.kind key t.height t.root)

/-- Puts a cell in place of the one with its key. -/
def replace (plan : Cell.Plan) (t : Tree) : Edit Tree := do
  let c ← Edit.place plan
  grown t.kind t.height (← replaceBelow t.kind c t.height t.root)

end Tree

end RecordStore.Pages
