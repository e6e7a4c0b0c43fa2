import Mathlib.Data.Option.Basic
import Mathlib.Tactic.MkIffOfInductiveProp
import Mathlib.Tactic.SplitIfs
import RecordStore.Record.Basic
import RecordStore.Storage.Pages

/-!
# Which changes of a file of pages are given up

Nothing but a row that is too long, or whose key is, has a change given up. If the file may become
as long as that needs, every other change is made.

* `RowFits`: that a row is short enough, whatever its number. `rowFits_iff` decides it.
* `Attempt.Made`: that nothing gives an attempt up, with one lemma for each way to put attempts
  together.
* `Snapshot.RowsFit`: that all rows of a record are short enough.
* `PageFile.exists_change_write`, `PageFile.exists_change_delete`: **a record whose rows are short
  enough is written, and every record can be removed.**
-/

namespace RecordStore

namespace Pages

/-! ## Rows -/

theorem total_cons (n : Nat) (lengths : List Nat) : total (n :: lengths) = n + total lengths := by
  rw [total, List.foldl_cons, Nat.add_comm 0, List.foldl_assoc, ← total]

theorem total_append (lengths more : List Nat) :
    total (lengths ++ more) = total lengths + total more := by
  induction lengths with
  | nil => exact (Nat.zero_add _).symm
  | cons n lengths ih => rw [List.cons_append, total_cons, total_cons, ih, Nat.add_assoc]

theorem le_total_of_mem {n : Nat} {lengths : List Nat} (h : n ∈ lengths) : n ≤ total lengths := by
  obtain ⟨before, behind, rfl⟩ := List.append_of_mem h
  rw [total_append, total_cons]
  omega

theorem length_le_payload {fields : List Field} {field : Field} (h : field ∈ fields) :
    field.length ≤ payload fields := by
  have hle := le_total_of_mem (List.mem_map_of_mem (f := Field.length) h)
  rw [payload]
  omega

theorem length_number_le (n : Nat) : (Field.number n).length ≤ 8 := by
  simp only [Field.length]
  split_ifs <;> omega

/-- All numbers have the same code, so keys differ by the length of their numbers. -/
theorem payload_concat_number (key : List Field) (row : Nat) :
    payload (key ++ [.number row]) =
      payload (key ++ [.number 0]) + (Field.number row).length := by
  have hzero : (Field.number 0).length = 0 := rfl
  simp only [payload, List.map_append, List.map_cons, List.map_nil, total_append, total_cons,
    Field.code]
  omega

/-- That a row is short enough, from the fields of its key and the others, and its key as well
whatever number the row gets. -/
structure RowFits (key others : List Field) : Prop where
  key_le : ∀ row, payload (key ++ [.number row]) ≤ maxLength
  row_le : payload (key ++ others) ≤ maxLength

theorem rowFits_iff {key others : List Field} :
    RowFits key others ↔
      payload (key ++ [.number 0]) + 8 ≤ maxLength ∧ payload (key ++ others) ≤ maxLength := by
  constructor
  · rintro ⟨hkey, hrow⟩
    have hlast := hkey 0x800000000000
    rw [payload_concat_number] at hlast
    exact ⟨hlast, hrow⟩
  · rintro ⟨hkey, hrow⟩
    refine ⟨fun row => ?_, hrow⟩
    have hnumber := length_number_le row
    rw [payload_concat_number]
    omega

instance (key others : List Field) : Decidable (RowFits key others) :=
  decidable_of_iff _ rowFits_iff.symm

theorem RowFits.length_le {key others : List Field} {field : Field} (h : RowFits key others)
    (hf : field ∈ key ++ others) : field.length ≤ maxLength :=
  Nat.le_trans (length_le_payload hf) h.row_le

/-! ## Attempts -/

namespace Attempt

variable {α β : Type}

/-- That nothing gives an attempt up, whatever was done before. -/
def Made (act : Attempt α) : Prop := ∀ c, ∃ a c', act.run.run c = (some a, c')

theorem made_pure (a : α) : Made (pure a) := fun c => ⟨a, c, rfl⟩

/-- An edit always goes on. -/
theorem made_lift (act : Edit α) : Made (liftM act) :=
  fun c => ⟨(act.run c).1, (act.run c).2, rfl⟩

theorem made_guard {p : Prop} [Decidable p] (h : p) : Made (guard p) := by
  rw [guard, if_pos h]
  exact made_pure ()

theorem made_bind {act : Attempt α} {next : α → Attempt β} (h : Made act)
    (hn : ∀ a, Made (next a)) : Made (act >>= next) := by
  intro c
  obtain ⟨a, c', ha⟩ := h c
  obtain ⟨b, c'', hb⟩ := hn a c'
  refine ⟨b, c'', ?_⟩
  rw [OptionT.run_bind, Option.elimM, StateT.run_bind, ha]
  exact hb

theorem made_foldlM {step : β → α → Attempt β} {items : List α}
    (h : ∀ a ∈ items, ∀ b, Made (step b a)) (b : β) : Made (items.foldlM step b) := by
  induction items generalizing b with
  | nil => exact made_pure b
  | cons a items ih =>
    obtain ⟨ha, hitems⟩ := List.forall_mem_cons.mp h
    rw [List.foldlM_cons]
    exact made_bind (ha b) (ih hitems)

end Attempt

open Attempt

theorem Table.made_insert {key others : List Field} (h : RowFits key others) (row : Nat)
    (t : Table) : Made (t.insert row key others) := by
  refine made_bind (made_guard ⟨h.key_le row, h.row_le⟩) fun _ => ?_
  refine made_bind (made_lift _) fun index => ?_
  refine made_bind (made_lift _) fun rows => ?_
  exact made_pure _

theorem Table.made_add {key others : List Field} (h : RowFits key others) (t : Table) :
    Made (t.add key others) := made_insert h _ t

end Pages

open Pages

/-! ## Records -/

/-- That every row of a record is short enough: that of its newest value, those of the older ones
and those of its metadata. -/
@[mk_iff]
structure Snapshot.RowsFit (r : Snapshot) : Prop where
  newest : ∀ value ∈ r.current?, RowFits [.text r.key] [.text r.id.toText, .blob value.length]
  older : ∀ row ∈ (r.values.dropLast.map List.length).zipIdx,
    RowFits [.text r.key, .number row.2] [.blob row.1]
  metadata : ∀ entry ∈ r.metadata.toList, RowFits [.text r.key, .text entry.1] [.text entry.2]

namespace Snapshot.RowsFit

instance (r : Snapshot) : Decidable r.RowsFit := decidable_of_iff _ (rowsFit_iff r).symm

variable {r : Snapshot} {value : Bytes}

theorem key_le (h : r.RowsFit) (hv : r.current? = some value) :
    r.key.utf8ByteSize ≤ maxLength :=
  @RowFits.length_le _ _ (.text r.key) (h.newest value hv) (by simp)

theorem value_le (h : r.RowsFit) (hv : r.current? = some value) : value.length ≤ maxLength :=
  @RowFits.length_le _ _ (.blob value.length) (h.newest value hv) (by simp)

end Snapshot.RowsFit

namespace PageFile

open Attempt

theorem Trees.made_write {r : Snapshot} {value : Bytes} (h : r.RowsFit)
    (hv : r.current? = some value) (t : Trees) :
    Made (t.write r.key r.id.toText value.length (r.values.dropLast.map List.length)
      r.metadata.toList) := by
  refine made_bind (made_lift _) fun records => ?_
  refine made_bind (Table.made_insert (h.newest value hv) _ _) fun records => ?_
  refine made_bind (made_lift _) fun oldValues => ?_
  refine made_bind (made_foldlM (fun row hrow table => ?_) _) fun oldValues => ?_
  · exact Table.made_add (h.older row hrow) table
  refine made_bind (made_lift _) fun entries => ?_
  refine made_bind (made_foldlM (fun entry hentry table => ?_) _) fun entries => ?_
  · exact Table.made_add (h.metadata entry hentry) table
  exact made_pure _

/-- A change that is not given up is made if the file may become as long as it needs. -/
theorem exists_change {act : Trees → Attempt Trees} (f : PageFile) (h : Made (act f.trees)) :
    ∃ pages, f.change none act = .ok pages := by
  obtain ⟨trees, c, hc⟩ := h f.start
  refine ⟨⟨trees, c.space⟩, ?_⟩
  rw [change, hc]
  rfl

/-- **A record whose rows are short enough is written.** -/
theorem exists_change_write {r : Snapshot} {value : Bytes} (h : r.RowsFit)
    (hv : r.current? = some value) (f : PageFile) :
    ∃ pages, (f.change none fun trees =>
      trees.write r.key r.id.toText value.length (r.values.dropLast.map List.length)
        r.metadata.toList) = .ok pages :=
  f.exists_change (f.trees.made_write h hv)

/-- **Every record can be removed.** -/
theorem exists_change_delete (key : String) (f : PageFile) :
    ∃ pages, f.change none (fun trees => trees.delete key) = .ok pages :=
  f.exists_change (made_lift _)

end PageFile

end RecordStore
