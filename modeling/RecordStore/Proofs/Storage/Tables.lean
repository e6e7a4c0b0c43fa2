import RecordStore.Proofs.Id
import RecordStore.Proofs.Lists
import RecordStore.Proofs.Storage.Atomic
import RecordStore.Storage.Tables

/-!
# Tables are atomic and give back what was written

The rows of a key are its row among the records and its rows in the other two tables. Writing a
record puts its own rows in place of them and touches no row of another key, so nothing of an older
and longer record stays behind.

* `TableStore.Rows`: what the tables hold under a key.
* `AllOrNothing`: a change fails and leaves every row as it is, or is made. `allOrNothing_write`,
  `allOrNothing_delete`: **so it is with both changes.**
* `read_of_held`: **the rows of a record are read back as the record.**
-/

namespace RecordStore

/-- The rows of a key. -/
structure TableStore.Rows where
  record : RecordRow
  older : List OldValue
  metadata : List MetadataRow

namespace TableStore

/-- The rows of the older values of a record. -/
def olderRows (r : Snapshot) : List OldValue :=
  r.values.dropLast.mapIdx fun version value => ⟨r.key, version, value⟩

/-- The rows of the metadata of a record. -/
def metadataRows (r : Snapshot) : List MetadataRow :=
  r.metadata.toList.map fun entry => ⟨r.key, entry.1, entry.2⟩

/-- The rows of a record. -/
def rowsOf (r : Snapshot) : Rows :=
  ⟨⟨r.id.toText, r.current?.getD []⟩, olderRows r, metadataRows r⟩

/-- The rows of a key, if it has one among the records. -/
def rows (s : TableStore) (key : String) : Option Rows :=
  s.records[key]?.map fun row =>
    ⟨row, s.oldValues.filter (·.key = key), s.metadata.filter (·.key = key)⟩

instance : Holding TableStore Rows where
  held := rows
  form := rowsOf

variable {s : TableStore} {key : String} {r : Snapshot}

/-! ## Changing rows -/

section Filters

variable {α : Type} (keyOf : α → String) (key : String)

theorem filter_eq_filter_ne {k : String} (h : k ≠ key) (l : List α) :
    (l.filter (keyOf · ≠ key)).filter (keyOf · = k) = l.filter (keyOf · = k) := by
  rw [List.filter_filter]
  refine List.filter_congr fun a _ => ?_
  by_cases ha : keyOf a = k <;> simp [ha, h]

theorem filter_eq_filter_ne_self (l : List α) :
    (l.filter (keyOf · ≠ key)).filter (keyOf · = key) = [] := by
  rw [List.filter_filter, List.filter_eq_nil_iff]
  simp

theorem filter_eq_of_forall {l : List α} (h : ∀ a ∈ l, keyOf a = key) (k : String) :
    l.filter (keyOf · = k) = if key = k then l else [] := by
  split
  · rename_i hk
    exact List.filter_eq_self.mpr fun a ha => decide_eq_true ((h a ha).trans hk)
  · rename_i hk
    exact List.filter_eq_nil_iff.mpr fun a ha hd => hk ((h a ha).symm.trans (of_decide_eq_true hd))

end Filters

theorem key_of_mem_olderRows : ∀ row ∈ olderRows r, row.key = r.key := by
  intro row h
  obtain ⟨i, hi, rfl⟩ := List.mem_mapIdx.mp h
  rfl

theorem key_of_mem_metadataRows : ∀ row ∈ metadataRows r, row.key = r.key := by
  intro row h
  obtain ⟨entry, -, rfl⟩ := List.mem_map.mp h
  rfl

/-- No key that has rows is too long. -/
theorem short_of_rows {x : Rows} (h : s.rows key = some x) :
    key.utf8ByteSize ≤ Pages.maxLength := by
  obtain ⟨row, hrow, -⟩ := Option.map_eq_some_iff.mp h
  exact s.short key (Std.ExtTreeMap.mem_iff_isSome_getElem?.mpr (Option.isSome_of_eq_some hrow))

theorem rows_without (key : String) (s : TableStore) :
    (s.without key).rows = Function.update s.rows key none := by
  funext k
  by_cases hk : k = key
  · subst hk
    rw [Function.update_self, rows, without, Std.ExtTreeMap.getElem?_erase_self]
    rfl
  · rw [Function.update_of_ne hk, rows, rows, without, Dict.getElem?_erase_of_ne hk,
      filter_eq_filter_ne OldValue.key key hk, filter_eq_filter_ne MetadataRow.key key hk]

theorem rows_replaced {value : Bytes} (hv : r.current? = some value)
    (hk : r.key.utf8ByteSize ≤ Pages.maxLength) (s : TableStore) :
    (s.replaced r value hk).rows = Function.update s.rows r.key (some (rowsOf r)) := by
  funext k
  have ho : (s.replaced r value hk).oldValues.filter (·.key = k) =
      (s.oldValues.filter (·.key ≠ r.key)).filter (·.key = k) ++
        if r.key = k then olderRows r else [] := by
    rw [← filter_eq_of_forall OldValue.key r.key key_of_mem_olderRows k, ← List.filter_append]
    rfl
  have hm : (s.replaced r value hk).metadata.filter (·.key = k) =
      (s.metadata.filter (·.key ≠ r.key)).filter (·.key = k) ++
        if r.key = k then metadataRows r else [] := by
    rw [← filter_eq_of_forall MetadataRow.key r.key key_of_mem_metadataRows k, ← List.filter_append]
    rfl
  have hr : (s.replaced r value hk).records =
      (s.records.erase r.key).insert r.key ⟨r.id.toText, value⟩ := rfl
  rw [rows, ho, hm, hr]
  by_cases hk : k = r.key
  · subst hk
    rw [Function.update_self, Std.ExtTreeMap.getElem?_insert_self,
      filter_eq_filter_ne_self, filter_eq_filter_ne_self, if_pos rfl, if_pos rfl, rowsOf, hv]
    rfl
  · have hrk : r.key ≠ k := fun h => hk h.symm
    rw [Function.update_of_ne hk, Dict.getElem?_insert_of_ne hk, Dict.getElem?_erase_of_ne hk,
      if_neg hrk, if_neg hrk, List.append_nil, List.append_nil,
      filter_eq_filter_ne OldValue.key r.key hk, filter_eq_filter_ne MetadataRow.key r.key hk, rows]

/-! ## Operations -/

/-- Nothing is done before what is left of a failed change is undone. -/
theorem whenSettled_cases {α : Type} (act : TableStore → Outcome TableStore α) (s : TableStore) :
    (s.whenSettled act = .fail (.backend .database) s) ∨
      s.whenSettled act = act { s with owed := 0 } := by
  unfold whenSettled
  split
  · exact .inr rfl
  · exact .inl rfl

/-- Nothing is done with a key that is too long either. -/
theorem whenShort_cases {α : Type} (key : String) (act : TableStore → Outcome TableStore α)
    (s : TableStore) :
    (s.whenShort key act = .fail (.backend .database) s) ∨
      s.whenShort key act = act { s with owed := 0 } := by
  unfold whenShort
  split
  · exact whenSettled_cases act s
  · exact .inl rfl

/-- That a change fails and leaves every row as it is, or is made and leaves nothing to undo. -/
def AllOrNothing (s : TableStore) (rows : String → Option Rows) (o : Outcome TableStore Unit) :
    Prop :=
  (∃ e, o.result = .error e ∧ o.state.rows = s.rows) ∨
    (o.result = .ok () ∧ o.state.rows = rows ∧ o.state.owed = 0)

namespace AllOrNothing

variable {rows : String → Option Rows} {o : Outcome TableStore Unit}

theorem rows_of_ok (h : AllOrNothing s rows o) (hok : o.result = .ok ()) :
    o.state.rows = rows := by
  rcases h with ⟨e, he, -⟩ | ⟨-, hrows, -⟩
  · rw [he] at hok
    cases hok
  · exact hrows

theorem owed_of_ok (h : AllOrNothing s rows o) (hok : o.result = .ok ()) : o.state.owed = 0 := by
  rcases h with ⟨e, he, -⟩ | ⟨-, -, howed⟩
  · rw [he] at hok
    cases hok
  · exact howed

theorem rows_of_error {e : StoreError} (h : AllOrNothing s rows o) (he : o.result = .error e) :
    o.state.rows = s.rows := by
  rcases h with ⟨-, -, hrows⟩ | ⟨hok, -⟩
  · exact hrows
  · rw [hok] at he
    cases he

theorem of_fail (e : StoreError) : AllOrNothing s rows (.fail e s) := .inl ⟨e, rfl, rfl⟩

/-- So is a change of the file, when it waits for what is left of one before. -/
theorem of_changed {t : TableStore} {pages : Except Nat PageFile} (ht : t.owed = 0)
    (h : o = .fail (.backend .database) s ∨ o = changed { s with owed := 0 } pages t) :
    AllOrNothing s t.rows o := by
  rcases h with rfl | rfl
  · exact of_fail _
  · cases pages with
    | error owed => exact .inl ⟨_, rfl, rfl⟩
    | ok pages => exact .inr ⟨rfl, rfl, ht⟩

end AllOrNothing

theorem allOrNothing_delete (key : String) (s : TableStore) :
    AllOrNothing s (Function.update s.rows key none) (s.delete key) := by
  rw [← rows_without]
  exact .of_changed (t := without key { s with owed := 0 }) rfl (whenShort_cases key _ s)

theorem allOrNothing_write (r : Snapshot) (s : TableStore) :
    AllOrNothing s (Function.update s.rows r.key (some (rowsOf r))) (s.write r) := by
  unfold write
  cases hv : r.current? with
  | none => exact .of_fail _
  | some value =>
    dsimp only
    split
    · rename_i hshort
      rw [← rows_replaced hv hshort.1]
      exact .of_changed (t := replaced r value hshort.1 { s with owed := 0 }) rfl
        (whenSettled_cases _ s)
    · exact .of_fail _

/-! ## Listing and reading -/

theorem keys_cases (s : TableStore) :
    Storage.keys s = .fail (.backend .database) s ∨
      Storage.keys s = .ok s.records.keys { s with owed := 0 } :=
  whenSettled_cases (fun s => .ok s.records.keys s) s

theorem load_cases (s : TableStore) :
    Storage.load s = .fail (.backend .database) s ∨
      Storage.load s = ⟨s.load, { s with owed := 0 }, []⟩ :=
  whenSettled_cases (fun s => ⟨s.load, s, []⟩) s

theorem key_of_read (h : s.read key = .ok r) : r.key = key := by
  unfold read at h
  split at h
  · cases h
  · split at h
    · cases h
    · cases h
      rfl

theorem nodup_and_mem_keys (s : TableStore) :
    s.records.keys.Nodup ∧ ∀ key, key ∈ s.records.keys ↔ (s.rows key).isSome = true := by
  refine ⟨Dict.nodup_keys _, fun key => ?_⟩
  rw [Dict.mem_keys_iff_isSome, rows, Option.isSome_map]

end TableStore

instance : Atomic TableStore where
  write_ok {s r _} h := (TableStore.allOrNothing_write r s).rows_of_ok h
  write_error {s r _} h := (TableStore.allOrNothing_write r s).rows_of_error h
  delete_ok {s key _} h := (TableStore.allOrNothing_delete key s).rows_of_ok h
  delete_error {s key _} h := (TableStore.allOrNothing_delete key s).rows_of_error h
  held_flush _ := rfl
  held_keys s := by
    rcases TableStore.keys_cases s with h | h <;> rw [h] <;> rfl
  keys_ok {s _} h := by
    rcases TableStore.keys_cases s with hk | hk
    · rw [hk] at h
      cases h
    · rw [hk] at h
      cases h
      exact s.nodup_and_mem_keys

instance : Loads TableStore where
  held_load s := by
    rcases TableStore.load_cases s with h | h <;> rw [h] <;> rfl
  load_ok {s rs} h := by
    rcases TableStore.load_cases s with hl | hl
    · rw [hl] at h
      cases h
    · rw [hl] at h
      have hm : rs.map Snapshot.key = s.records.keys :=
        Lists.map_of_mapM_eq_ok TableStore.key_of_read h
      rw [hm]
      exact s.nodup_and_mem_keys

namespace TableStore

variable {s : TableStore} {r : Snapshot}

theorem olderValues_eq (h : s.oldValues.filter (·.key = r.key) = olderRows r) :
    s.olderValues r.key = r.values.dropLast := by
  have hp : (olderRows r).Pairwise fun a b => decide (a.version ≤ b.version) = true := by
    rw [List.pairwise_iff_getElem]
    intro i j hi hj hij
    simp only [olderRows, List.getElem_mapIdx, decide_eq_true_eq]
    exact Nat.le_of_lt hij
  rw [olderValues, h, List.mergeSort_of_pairwise hp, olderRows]
  exact List.ext_getElem (by simp) fun i hi hj => by simp

theorem metadataOf_eq (h : s.metadata.filter (·.key = r.key) = metadataRows r) :
    s.metadataOf r.key = r.metadata := by
  have hl : (metadataRows r).map (fun row => (row.name, row.value)) = r.metadata.toList := by
    rw [metadataRows, List.map_map]
    exact List.map_id _
  rw [metadataOf, h, hl, Dict.ofList_toList]

/-- **What is held of a record with values is read back as the record.** -/
theorem read_of_held (hr : s.rows r.key = some (rowsOf r)) (hv : r.values ≠ []) :
    s.read r.key = .ok r := by
  rw [rows, Option.map_eq_some_iff] at hr
  obtain ⟨row, hrow, heq⟩ := hr
  obtain ⟨rfl, ho, hm⟩ := Rows.mk.inj heq
  have hc : r.values.dropLast ++ [r.current?.getD []] = r.values := by
    rw [Snapshot.current?, List.getLast?_eq_some_getLast hv, Option.getD_some,
      List.dropLast_concat_getLast hv]
  rw [read, hrow]
  simp only [Id.parse_toText, olderValues_eq ho, metadataOf_eq hm, hc]

end TableStore

end RecordStore
