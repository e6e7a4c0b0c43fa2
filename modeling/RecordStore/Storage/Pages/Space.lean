import RecordStore.Storage.Pages.Cell
import Std.Data.ExtTreeMap

/-!
# The pages of a file

Which pages a file has, which of them are free, and what a change does to them. Before a page is
changed its content goes into a journal, from which a change that fails is undone.

* `Space`: the pages, of which the free ones hang on trunks.
* `Change`: a change under way. `write`, `allocate` and `release` are all that happens to a page.
  An `Edit` is a part of a change, an `Attempt` one that may be given up.
* `Change.finish` tells whether the change can be kept if files may only become so long.
-/

namespace RecordStore.Pages

/-! ## Free pages -/

/-- A free page that lists others, its leaves. -/
structure Trunk where
  page : Nat
  leaves : List Nat

namespace Trunk

/-- How many leaves a trunk has, at most. -/
def capacity : Nat := 1016

/-- How far two pages are apart. -/
def distance (a b : Nat) : Nat := (a - b) + (b - a)

/-- Of two leaves and their places, the one nearer to a page, or else the first. -/
def nearer (near : Nat) (a b : Nat × Nat) : Nat × Nat :=
  if distance b.1 near < distance a.1 near then b else a

/-- The place of the leaf nearest to a page. No page is zero, and all are equally near to it. -/
def nearest (near : Nat) (leaves : List Nat) : Nat :=
  match leaves.zipIdx with
  | [] => 0
  | first :: others => if near = 0 then 0 else (others.foldl (nearer near) first).2

/-- The leaves without the one at a place, where the last one goes. -/
def without (place : Nat) (leaves : List Nat) : List Nat :=
  match leaves.getLast? with
  | none => []
  | some last => (leaves.set place last).dropLast

end Trunk

/-- How many pages a file has, and which of them are free. -/
structure Space where
  count : Nat
  free : List Trunk := []

/-! ## Changes -/

/-- What a change has done to a page. -/
structure Touch where
  /-- Whether its content from before the change is in the journal. -/
  saved : Bool := false
  /-- Whether its content from before the change is of no use. -/
  stale : Bool := false
  /-- Whether it has content to be written at the end. -/
  written : Bool := false
  /-- Whether it was given up. -/
  released : Bool := false

/-- A change under way: how many pages there were before, and what was done to some. -/
structure Change where
  space : Space
  before : Nat
  touches : Std.ExtTreeMap Nat Touch := ∅

/-- A part of a change. -/
abbrev Edit := StateM Change

/-- A part of a change that may be given up, and the whole change with it. -/
abbrev Attempt := OptionT Edit

namespace Edit

/-- Notes what is done to a page. -/
def touch (page : Nat) (note : Touch → Touch) : Edit Unit :=
  modify fun c => { c with touches := c.touches.alter page fun t => some (note (t.getD {})) }

/-- Sets the free pages. -/
def setFree (free : List Trunk) : Edit Unit :=
  modify fun c => { c with space := { c.space with free } }

/-- Gives a page new content. The old one is saved, if there is any. -/
def write (page : Nat) : Edit Unit := do
  let old := decide (page ≤ (← get).before)
  touch page fun t => { t with saved := t.saved || old && !t.stale, written := true }

/-- A page that was free or else a new one, if possible near to another one. The first page keeps
the number of free pages. -/
def allocate (near : Nat) : Edit Nat := do
  write 1
  match (← get).space.free with
  | [] =>
    modify fun c => { c with space := { c.space with count := c.space.count + 1 } }
    let page := (← get).space.count
    write page
    return page
  | ⟨trunk, []⟩ :: others =>
    write trunk
    setFree others
    return trunk
  | ⟨trunk, leaf :: leaves⟩ :: others =>
    let place := Trunk.nearest near (leaf :: leaves)
    let page := (leaf :: leaves).getD place leaf
    write trunk
    setFree (⟨trunk, Trunk.without place (leaf :: leaves)⟩ :: others)
    touch page fun t => { t with stale := t.stale || !t.released }
    write page
    return page

/-- Pages for a chain, each near to the one before. -/
def allocateChain (near : Nat) : Nat → Edit (List Nat)
  | 0 => return []
  | count + 1 => do
    let page ← allocate near
    return page :: (← allocateChain page count)

/-- Gives a page up. The first trunk lists it, or it becomes the first trunk. A page that is only
listed need not be written. -/
def release (page : Nat) : Edit Unit := do
  write 1
  let free := (← get).space.free
  match free with
  | ⟨trunk, leaves⟩ :: others =>
    if leaves.length < Trunk.capacity then
      write trunk
      setFree (⟨trunk, leaves ++ [page]⟩ :: others)
      touch page fun t => { t with written := false, released := true }
    else
      write page
      setFree (⟨page, []⟩ :: free)
  | [] =>
    write page
    setFree [⟨page, []⟩]

/-- Gives some pages up in turn. -/
def releaseAll (pages : List Nat) : Edit Unit := pages.forM release

/-- A cell as planned, with pages for its chain. -/
def place (plan : Cell.Plan) : Edit Cell :=
  return ⟨plan.key, plan.length, ← allocateChain 0 plan.chain⟩

end Edit

namespace Change

/-- The last page of which something holds, or zero. -/
def last (c : Change) (holds : Touch → Bool) : Nat :=
  c.touches.foldl (fun last page t => if holds t then max last page else last) 0

/-- The length of the journal: a head, and eight bytes beside each page. -/
def journal (c : Change) : Nat :=
  512 + (size + 8) * c.touches.foldl (fun count _ t => if t.saved then count + 1 else count) 0

/-- How long the file has to become. If it grows, it does so up to its last page, even if that has
no content. -/
def reach (c : Change) : Nat :=
  size * if c.before < c.space.count then c.space.count else c.last Touch.written

/-- How long the file has to become for every saved page to be put back. -/
def restoration (c : Change) : Nat := size * c.last Touch.saved

/-- Whether a change can be kept if no file may become longer than that. If it cannot, this is the
length the file still has to reach to be as before. While the journal is being written the file is
as before. Later the saved pages are put back, at once if the file may become long enough. -/
def finish (limit : Option Nat) (c : Change) : Except Nat Unit :=
  match limit with
  | none => .ok ()
  | some limit =>
    if c.touches.isEmpty then .ok ()
    else
      let ((), c) := (Edit.write 1).run c
      if limit < c.journal then .error 0
      else if limit < c.reach then
        .error (if limit < c.restoration then c.restoration else 0)
      else .ok ()

end Change

end RecordStore.Pages
