import Mathlib.Data.Option.Basic
import RecordStore.Toml.Document

/-!
# What the values of a document are

Whatever holds of every value that is read holds of every value of a document, since laying out
values only moves them. So the whole numbers of a document fit into 64 bits, as they do where they
are read.

* `Reader.Gives`: that all a reader gives has some property, with one lemma for each way to put
  readers together.
* `Toml.Fits`: a value that is no whole number of more than 64 bits.
* `Toml.Layout.Holds`: that all values of a layout have some property. Every step keeps it.
* `Toml.Layout.holds_of_ofText?`: **all whole numbers of a document fit into 64 bits.**
-/

namespace RecordStore

namespace Text.Reader

/-! ## What readers give -/

/-- That all a reader gives has some property. -/
def Gives (r : Reader α) (P : α → Prop) : Prop :=
  ∀ cs a rest, r cs = some (a, rest) → P a

variable {α β : Type} {P : α → Prop} {Q : β → Prop}

theorem gives_pure {a : α} (h : P a) : Gives (pure a) P := by
  intro cs b rest hb
  cases hb
  exact h

theorem gives_failure : Gives failure P := by
  intro cs a rest ha
  cases ha

theorem gives_true (r : Reader α) : Gives r fun _ => True := fun _ _ _ _ => trivial

theorem gives_ofOption {o : Option α} (h : ∀ a, o = some a → P a) : Gives (ofOption o) P := by
  cases o with
  | none => exact gives_failure
  | some a => exact gives_pure (h a rfl)

theorem gives_bind {r : Reader α} {f : α → Reader β} (hr : Gives r P)
    (hf : ∀ a, P a → Gives (f a) Q) : Gives (r >>= f) Q := by
  intro cs b rest hb
  obtain ⟨⟨a, more⟩, ha, hb⟩ := Option.bind_eq_some_iff.mp hb
  exact hf a (hr _ _ _ ha) _ _ _ hb

theorem gives_map {r : Reader α} {f : α → β} (hr : Gives r P) (hf : ∀ a, P a → Q (f a)) :
    Gives (f <$> r) Q := by
  rw [map_eq_pure_bind]
  exact gives_bind hr fun a ha => gives_pure (hf a ha)

theorem gives_orElse {r s : Reader α} (hr : Gives r P) (hs : Gives s P) : Gives (r <|> s) P := by
  intro cs a rest ha
  have heither : (r cs).or (s cs) = some (a, rest) := by
    rw [← ha, Option.or_eq_orElse]
    rfl
  rcases Option.or_eq_some_iff.mp heither with h | ⟨-, h⟩
  · exact hr _ _ _ h
  · exact hs _ _ _ h

theorem gives_optional {r : Reader α} (hr : Gives r P) :
    Gives (optional r) fun o => ∀ a, o = some a → P a := by
  refine gives_orElse (gives_map hr fun a ha b hb => ?_) (gives_pure fun a ha => ?_)
  · cases hb
    exact ha
  · cases ha

theorem gives_many {item : Reader α} (h : Gives item P) :
    Gives (many item) fun as => ∀ a ∈ as, P a := by
  intro cs as rest ha
  fun_induction many item cs generalizing as with
  | case1 cs hi =>
    cases ha
    exact List.forall_mem_nil _
  | case2 cs a more hi hlt ih =>
    obtain ⟨⟨others, rest⟩, ho, he⟩ := Option.map_eq_some_iff.mp ha
    cases he
    exact List.forall_mem_cons.mpr ⟨h _ _ _ hi, ih _ ho⟩
  | case3 cs a more hi hlt =>
    cases ha
    exact List.forall_mem_nil _

theorem gives_all? {r : Reader α} (h : Gives r P) {text : List Char} {a : α}
    (ha : all? r text = some a) : P a :=
  h _ _ _ (all?_eq_some_iff.mp ha)

end Text.Reader

namespace Toml

/-- A value that is no whole number of more than 64 bits. -/
def Fits : Toml → Prop
  | integer n => Text.isSignedWord n = true
  | _ => True

namespace Read

open Text Text.Reader

theorem gives_decimal : Gives decimal fun n => isSignedWord n = true :=
  gives_bind (gives_true _) fun _ _ => gives_bind (gives_true _) fun _ _ =>
    gives_ofOption fun _ hn => (Option.filter_eq_some_iff.mp hn).2

theorem gives_inRadix (mark : String) (radix : Nat) :
    Gives (inRadix mark radix) fun n => isSignedWord n = true := by
  refine gives_bind (gives_true _) fun _ _ => gives_bind (gives_true _) fun _ _ => ?_
  dsimp only
  split
  · rename_i h
    exact gives_pure h
  · exact gives_failure

theorem gives_integer : Gives integer fun n => isSignedWord n = true :=
  gives_orElse (gives_inRadix _ _) <| gives_orElse (gives_inRadix _ _) <|
    gives_orElse (gives_inRadix _ _) gives_decimal

theorem gives_atom : Gives atom Fits := by
  refine gives_orElse (gives_map (gives_true _) fun _ _ => trivial) ?_
  refine gives_orElse (gives_map (gives_true _) fun _ _ => trivial) ?_
  refine gives_orElse (gives_map (gives_true _) fun _ _ => trivial) ?_
  refine gives_orElse (gives_map (gives_true _) fun _ _ => trivial) ?_
  exact gives_map gives_integer fun _ h => h

theorem gives_array (item : Reader Toml) : Gives (array item) Fits := by
  unfold array
  refine gives_bind (gives_true _) fun _ _ => gives_bind (gives_true _) fun items _ => ?_
  have hend : Gives (do gap; exactly "]"; return .array (items.getD [])) Fits :=
    gives_bind (gives_true _) fun _ _ => gives_bind (gives_true _) fun _ _ => gives_pure trivial
  dsimp only
  split
  · exact gives_bind (gives_true _) fun _ _ => hend
  · exact hend

theorem gives_table (item : Reader Toml) : Gives (table item) Fits := by
  unfold table
  refine gives_bind (gives_true _) fun _ _ => gives_bind (gives_true _) fun pairs _ => ?_
  refine gives_bind (gives_true _) fun _ _ => gives_bind (gives_true _) fun _ _ => ?_
  dsimp only
  split
  · exact gives_pure trivial
  · exact gives_failure

theorem gives_nested : ∀ depth, Gives (nested depth) Fits
  | 0 => gives_atom
  | _ + 1 => gives_orElse gives_atom (gives_orElse (gives_array _) (gives_table _))

theorem gives_pair : Gives (pair value) fun p => Fits p.2 := by
  refine gives_bind (gives_true _) fun _ _ => gives_bind (gives_true _) fun _ _ => ?_
  refine gives_bind (gives_true _) fun _ _ => gives_bind (gives_nested maxDepth) fun _ hv => ?_
  exact gives_pure hv

end Read

/-- That the value of a line fits, if it has one. -/
def Line.Fits : Line → Prop
  | pair _ v => v.Fits
  | _ => True

namespace Read

open Text.Reader

theorem gives_line : Gives line Line.Fits := by
  refine gives_orElse (gives_map (gives_true _) fun _ _ => trivial) ?_
  refine gives_orElse (gives_map (gives_true _) fun _ _ => trivial) ?_
  exact gives_bind gives_pair fun p hp => gives_pure hp

theorem gives_lineOrBlank :
    Gives (do blanks; let l ← Text.Reader.optional line; lineEnd; return l)
      fun o => ∀ l, o = some l → l.Fits := by
  refine gives_bind (gives_true _) fun _ _ => gives_bind (gives_optional gives_line) fun o ho => ?_
  exact gives_bind (gives_true _) fun _ _ => gives_pure ho

theorem fits_of_lines? {text : List Char} {ls : List Line} (h : lines? text = some ls) :
    ∀ l ∈ ls, l.Fits := by
  refine gives_all? (P := fun ls => ∀ l ∈ ls, l.Fits) ?_ h
  refine gives_bind (gives_true _) fun _ _ => gives_bind (gives_many gives_lineOrBlank) ?_
  refine fun os hos => gives_pure fun l hl => ?_
  obtain ⟨o, ho, he⟩ := List.mem_filterMap.mp hl
  exact hos o ho l he

end Read

/-! ## Laying out -/

namespace Layout

variable {P : Toml → Prop} {l l' : Layout} {base path : Path} {name : String} {spot : Spot}

/-- That all values of a layout have some property. -/
def Holds (l : Layout) (P : Toml → Prop) : Prop :=
  ∀ e ∈ l.spots, ∀ v, e.2 = .value v → P v

theorem Holds.empty : Holds {} P := fun _ he => absurd he List.not_mem_nil

theorem Holds.add (h : l.Holds P) (hs : ∀ v, spot = .value v → P v) :
    (l.add base name spot).Holds P := by
  intro e he
  rcases List.mem_append.mp he with he | he
  · exact h e he
  · obtain rfl := List.mem_singleton.mp he
    exact hs

theorem Holds.change (h : l.Holds P) (hs : ∀ v, spot = .value v → P v) :
    (l.change base name spot).Holds P := by
  intro e he
  obtain ⟨e', he', rfl⟩ := List.mem_map.mp he
  split
  · exact hs
  · exact h e' he'

theorem Holds.descend {byKey : Bool} {names : List String} (h : l.Holds P)
    (hd : descend byKey names base l = some (path, l')) : l'.Holds P := by
  fun_induction Layout.descend byKey names base l with
  | case1 =>
    cases hd
    exact h
  | case2 base l name names hs ih =>
    refine ih (h.add fun v hv => ?_) hd
    split at hv
    all_goals cases hv
  | case3 => cases hd
  | case4 base l name names last hs ih => exact ih h hd
  | case5 => cases hd
  | case6 base l name names hs hb ih => exact ih h hd
  | case7 base l name names spot hs _ _ _ ih => exact ih h hd

theorem Holds.put {key : List String} {v : Toml} (h : l.Holds P) (hv : P v)
    (hp : l.put base key v = some l') : l'.Holds P := by
  simp only [Layout.put, Option.bind_eq_bind, Option.bind_eq_some_iff] at hp
  obtain ⟨⟨way, name⟩, -, ⟨inner, more⟩, hd, -, -, -, -, he⟩ := hp
  cases he
  exact (h.descend hd).add fun w hw => by cases hw; exact hv

theorem Holds.openTable {key : List String} (h : l.Holds P)
    (ho : l.openTable key = some (path, l')) : l'.Holds P := by
  simp only [Layout.openTable, Option.bind_eq_bind, Option.bind_eq_some_iff] at ho
  obtain ⟨⟨way, name⟩, -, ⟨outer, more⟩, hd, he⟩ := ho
  have hm := h.descend hd
  dsimp only at he
  split at he
  · cases he
    exact hm.add fun v hv => by cases hv
  · cases he
    exact hm.change fun v hv => by cases hv
  · cases he

theorem Holds.openItem {key : List String} (h : l.Holds P)
    (ho : l.openItem key = some (path, l')) : l'.Holds P := by
  simp only [Layout.openItem, Option.bind_eq_bind, Option.bind_eq_some_iff] at ho
  obtain ⟨⟨way, name⟩, -, ⟨outer, more⟩, hd, he⟩ := ho
  have hm := h.descend hd
  dsimp only at he
  split at he
  · cases he
    exact hm.add fun v hv => by cases hv
  · cases he
    exact hm.change fun v hv => by cases hv
  · cases he

theorem Holds.addLine {line : Line} (h : l.Holds Fits) (hl : line.Fits)
    (ha : addLine (base, l) line = some (path, l')) : l'.Holds Fits := by
  cases line with
  | pair key v =>
    obtain ⟨_, hp, he⟩ := Option.map_eq_some_iff.mp ha
    cases he
    exact h.put hl hp
  | table key => exact h.openTable ha
  | item key => exact h.openItem ha

theorem Holds.addLines {lines : List Line} (h : l.Holds Fits) (hl : ∀ line ∈ lines, line.Fits)
    (ha : lines.foldlM Layout.addLine (base, l) = some (path, l')) : l'.Holds Fits := by
  induction lines generalizing base l with
  | nil =>
    cases ha
    exact h
  | cons line lines ih =>
    obtain ⟨hline, hlines⟩ := List.forall_mem_cons.mp hl
    rw [List.foldlM_cons] at ha
    obtain ⟨⟨base, more⟩, hm, ha⟩ := Option.bind_eq_some_iff.mp ha
    exact ih (h.addLine hline hm) hlines ha

/-- **All whole numbers of a document fit into 64 bits.** -/
theorem holds_of_ofText? {text : String} (h : ofText? text = some l) : l.Holds Fits := by
  obtain ⟨⟨base, l⟩, hb, rfl⟩ := Option.map_eq_some_iff.mp h
  obtain ⟨lines, hlines, ha⟩ := Option.bind_eq_some_iff.mp hb
  exact Holds.empty.addLines (Read.fits_of_lines? hlines) ha

theorem Holds.value_of_mem_top {v : Toml} (h : l.Holds P) (hm : (name, .value v) ∈ l.top) :
    P v := by
  obtain ⟨e, he, heq⟩ := List.mem_filterMap.mp hm
  split at heq
  · exact h e he v (Prod.mk.inj (Option.some.inj heq)).2
  · cases heq

end Layout
end Toml
end RecordStore
