import RecordStore.Proofs.Container
import RecordStore.Proofs.Convergence

/-!
# What can be loaded after a pass

A storage mirrors a dictionary of records when it holds them and nothing else. It then lists their
keys, reads and loads them in full, and does so at any later time and when it is opened again.

* `TableStore.keys_of_rows`, `read_of_rows`, `load_of_rows`: what tables with the rows of just some
  records answer.
* `Backing.InOrder`: what is asked of a storage at the start, and kept by whatever is done to it.
* `Backing.Mirrors`: that a storage holds just the records of a dictionary.
* `Backing.mirrors_pass`: **so it is after a pass over them that succeeds.**
* `Backing.Mirrors.load`: **they are what it loads.**
-/

namespace RecordStore

/-- What is held of just the records of a dictionary is held under the keys of the dictionary. -/
theorem Exactly.held_eq {δ : Type} {form : Snapshot → δ} {d : Dict Snapshot} {c : Contents δ}
    (h : Exactly form d.values c) (hd : Keyed d) : c = fun key => d[key]?.map form := by
  funext key
  cases hk : d[key]? with
  | some r =>
    have hr : r.key = key := hd key r hk
    have hm : r ∈ d.values := hd.mem_values_iff.mpr (hr ▸ hk)
    rw [← hr, h.of_mem r hm]
    rfl
  | none =>
    refine h.of_not_mem key fun hm => ?_
    rw [hd.map_key_values, Dict.mem_keys_iff_isSome, hk] at hm
    cases hm

/-- That every operation of a pass keeps something. -/
structure Pass.Invariant {σ : Type} [Storage σ] (P : σ → Prop) : Prop where
  keys : ∀ s, P s → P (Storage.keys s).state
  delete : ∀ key s, P s → P (Storage.delete key s).state
  write : ∀ r s, P s → P (Storage.write r s).state
  flush : ∀ s, P s → P (Storage.flush s).state

/-- Then passes keep it, however they end. -/
theorem Pass.Invariant.pass {σ : Type} [Storage σ] {P : σ → Prop} (h : Pass.Invariant P)
    (records : List Snapshot) {s : σ} (hs : P s) : P (RecordStore.pass records s).state :=
  Pass.pass_keeps h.keys h.delete h.write h.flush records hs

/-! ## Tables -/

namespace TableStore

variable {s : TableStore} {d : Dict Snapshot}

theorem keys_of_rows (h : s.rows = fun key => d[key]?.map rowsOf) : s.records.keys = d.keys := by
  have hu : s.records.map (fun _ _ => ()) = d.map fun _ _ => () := by
    refine Std.ExtTreeMap.ext_getElem? fun key => ?_
    have hk := congrArg (Option.map fun _ => ()) (congrFun h key)
    simpa [rows, Std.ExtTreeMap.getElem?_map] using hk
  rw [← Std.ExtTreeMap.keys_map (f := fun _ _ => ()), hu, Std.ExtTreeMap.keys_map]

/-- Tables answer for a key as the dictionary does. -/
theorem read_of_rows (h : s.rows = fun key => d[key]?.map rowsOf) (hd : Keyed d)
    (hv : ∀ r ∈ d.values, r.values ≠ []) (key : String) :
    s.read key = MemoryStore.read key ⟨d⟩ := by
  have hk := congrFun h key
  cases hr : d[key]? with
  | none =>
    rw [hr, Option.map_none, rows, Option.map_eq_none_iff] at hk
    simp only [read, hk, MemoryStore.read, hr]
  | some r =>
    have hkey : r.key = key := hd key r hr
    rw [hr, Option.map_some] at hk
    subst hkey
    rw [read_of_held hk (hv r (hd.mem_values_iff.mpr hr))]
    simp only [MemoryStore.read, hr]

theorem load_of_rows (h : s.rows = fun key => d[key]?.map rowsOf) (hd : Keyed d)
    (hv : ∀ r ∈ d.values, r.values ≠ []) : s.load = .ok d.values := by
  rw [load, keys_of_rows h, ← hd.map_key_values]
  refine Lists.mapM_map_eq_pure fun r hr => ?_
  rw [read_of_rows h hd hv]
  simp only [MemoryStore.read, hd.mem_values_iff.mp hr]
  rfl

/-- Tables that owe nothing go ahead whatever the limit is. -/
theorem whenSettled_of_owed {α : Type} (act : TableStore → Outcome TableStore α)
    (h : s.owed = 0) : s.whenSettled act = act s := by
  have hl : s.limit.all (s.owed ≤ ·) = true := by
    rw [h]
    cases s.limit <;> simp
  have hs : { s with owed := 0 } = s := by rw [← h]
  rw [whenSettled, if_pos hl, hs]

/-- So they do with a key that is not too long. -/
theorem whenShort_of_owed {α : Type} (act : TableStore → Outcome TableStore α) (h : s.owed = 0)
    {key : String} (hk : key.utf8ByteSize ≤ Pages.maxLength) : s.whenShort key act = act s := by
  rw [whenShort, if_pos hk, whenSettled_of_owed act h]

end TableStore

/-! ## Storages of any kind -/

namespace Backing

/-- That a storage is in order: a log is made of frames, and what memory holds stands under its own
keys. -/
def InOrder : Backing → Prop
  | log s => s.Sound
  | tables _ => True
  | memory s => Keyed s.records
  | discard _ => True

/-- That a storage holds the records of a dictionary, and nothing else. -/
def Mirrors (d : Dict Snapshot) : Backing → Prop
  | log s => s.records = d
  | tables s => s.rows = (fun key => d[key]?.map TableStore.rowsOf) ∧ s.owed = 0
  | memory s => s.records = d
  | discard _ => False

variable {s : Backing} {d : Dict Snapshot}

/-- The kind of a storage. -/
def kind : Backing → Kind
  | log _ => .log
  | tables _ => .tables
  | memory _ => .memory
  | discard _ => .discard

theorem retains_congr {t : Backing} (h : t.kind = s.kind) :
    Storage.retains t = Storage.retains s := by
  cases s <;> cases t <;> first | rfl | cases h

theorem inFile_congr {t : Backing} (h : t.kind = s.kind) : t.inFile = s.inFile := by
  cases s <;> cases t <;> first | rfl | cases h

theorem kind_during (m : Moment) (s : Backing) : (s.during m).kind = s.kind := by
  cases s <;> rfl

/-- What does something with a storage leaves it a storage of its kind. -/
theorem kind_on {α : Type} (act : {σ : Type} → [Storage σ] → σ → Outcome σ α) (s : Backing) :
    (s.on act).state.kind = s.kind := by
  cases s <;> rfl

theorem invariant_kind (k : Kind) : Pass.Invariant fun s : Backing => s.kind = k where
  keys s h := (kind_on Storage.keys s).trans h
  delete key s h := (kind_on (Storage.delete key) s).trans h
  write r s h := (kind_on (Storage.write r) s).trans h
  flush s h := (kind_on Storage.flush s).trans h

namespace InOrder

theorem during (h : s.InOrder) (m : Moment) : (s.during m).InOrder := by
  cases s with
  | log s => exact LogStore.Sound.during h m
  | tables s => trivial
  | memory s => exact h
  | discard s => trivial

theorem load (h : s.InOrder) : (Storage.load s).state.InOrder := by
  cases s with
  | log s => exact h
  | tables s => trivial
  | memory s => exact h
  | discard s => trivial

/-- A storage in order loads no two records of one key. -/
theorem nodup_load (h : s.InOrder) {records : List Snapshot}
    (hl : (Storage.load s).result = .ok records) : (records.map Snapshot.key).Nodup := by
  cases s with
  | log s =>
    obtain ⟨frames, hm⟩ := h
    cases hl
    exact hm.keyed.nodup
  | tables s => exact (@Loads.load_ok TableStore TableStore.Rows _ _ _ s records hl).1
  | memory s =>
    cases hl
    exact Keyed.nodup h
  | discard s =>
    cases hl
    exact List.nodup_nil

end InOrder

/-- **A pass keeps a storage in order.** -/
theorem invariant_inOrder : Pass.Invariant InOrder where
  keys s h := by
    cases s with
    | log s => exact h
    | tables s => trivial
    | memory s => exact h
    | discard s => trivial
  delete key s h := by
    cases s with
    | log s => exact (LogStore.keeps_delete key s h).1
    | tables s => trivial
    | memory s => exact Keyed.apply h (.delete key)
    | discard s => trivial
  write r s h := by
    cases s with
    | log s => exact (LogStore.keeps_record _ s h).1
    | tables s => trivial
    | memory s => exact Keyed.apply h (.write r)
    | discard s => trivial
  flush s h := by
    cases s with
    | log s => exact (LogStore.keeps_flush s h).1
    | tables s => trivial
    | memory s => exact h
    | discard s => trivial

namespace Mirrors

theorem during (h : s.Mirrors d) (m : Moment) : (s.during m).Mirrors d := by
  cases s with
  | log s => exact h
  | tables s => exact h
  | memory s => exact h
  | discard s => exact h

/-- Closing a storage and opening it again leaves it what it holds. -/
theorem reopen (h : s.Mirrors d) (ho : s.InOrder) (hf : s.inFile = true) :
    s.reopen.Mirrors d := by
  cases s with
  | log s =>
    obtain ⟨frames, hm⟩ := ho
    exact (LogStore.made_reopen hm).1.records_eq.trans (hm.records_eq.symm.trans h)
  | tables s => exact ⟨h.1, rfl⟩
  | memory s => cases hf
  | discard s => cases hf

/-- **A storage loads the records that it holds.** -/
theorem load (h : s.Mirrors d) (hd : Keyed d) (hv : ∀ r ∈ d.values, r.values ≠ []) :
    (Storage.load s).result = .ok d.values ∧ (Storage.load s).state = s := by
  cases s with
  | log s =>
    obtain rfl : s.records = d := h
    exact ⟨rfl, rfl⟩
  | tables s =>
    have hl : Storage.load s = ⟨s.load, s, []⟩ := TableStore.whenSettled_of_owed _ h.2
    exact ⟨(congrArg Outcome.result hl).trans (TableStore.load_of_rows h.1 hd hv),
      congrArg (tables ∘ Outcome.state) hl⟩
  | memory s =>
    obtain rfl : s.records = d := h
    exact ⟨rfl, rfl⟩
  | discard s => cases h

end Mirrors

/-- **After a pass that succeeds a storage that retains anything holds just its records.** -/
theorem mirrors_pass (hr : Storage.retains s = true) (hd : Keyed d) {report : PassReport}
    (hp : (pass d.values s).result = .ok report) : (pass d.values s).state.Mirrors d := by
  cases s with
  | log s =>
    rw [embeds_log.pass_eq] at hp ⊢
    have hx := (@exactly_pass LogStore _ _ _ _ d.values s hd.nodup report hp).1.held_eq hd
    refine Std.ExtTreeMap.ext_getElem? fun key => (congrFun hx key).trans ?_
    exact Option.map_id_apply
  | tables s =>
    rw [embeds_tables.pass_eq] at hp ⊢
    have hx := (@exactly_pass TableStore _ _ _ _ d.values s hd.nodup report hp).1.held_eq hd
    exact ⟨hx, owed_pass_tables hp⟩
  | memory s =>
    rw [embeds_memory.pass_eq] at hp ⊢
    have hx := (@exactly_pass MemoryStore _ _ _ _ d.values s hd.nodup report hp).1.held_eq hd
    refine Std.ExtTreeMap.ext_getElem? fun key => (congrFun hx key).trans ?_
    exact Option.map_id_apply
  | discard s => cases hr

end Backing

end RecordStore
