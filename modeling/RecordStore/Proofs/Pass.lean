import RecordStore.Pass
import RecordStore.Proofs.Storage.Instances
import RecordStore.Proofs.Storage.Tables

/-!
# How passes end

Both parts of a pass are runs through a list, and what a run has done when it ends is what a first
part of its list asks for. So a pass over an atomic storage that ends early has made as many deletes
and writes as it says, in their order, and nothing else.

* `pass_keeps`, `pass_leaves`: what holds after a pass because it does after each operation.
* `each_cases`: the ends of a run through a list. `removed_stale`: what the deletes of a pass leave.
* `Ends`: the ends of a pass. `ends_pass`: there are no others.
* `pass_interrupted`: **what is held after a pass that failed or was cancelled.**
-/

namespace RecordStore.Pass

open Contents (removed stored)

theorem stale_eq (records : List Snapshot) (listed : List String) :
    stale records listed = listed.filter (· ∉ records.map Snapshot.key) := by
  have hl : (records.map fun r => (r.key, ())).map Prod.fst = records.map Snapshot.key :=
    List.map_map
  refine List.filter_congr fun key _ => ?_
  rw [Std.ExtTreeMap.contains_ofList, hl, List.contains_eq_mem, decide_not]

theorem mem_stale {records : List Snapshot} {listed : List String} {key : String} :
    key ∈ stale records listed ↔ key ∈ listed ∧ key ∉ records.map Snapshot.key := by
  rw [stale_eq, List.mem_filter, decide_eq_true_eq]

/-! ## What a pass keeps -/

section Keeps

variable {σ α : Type} [Storage σ] {P : σ → Prop} {cancelled : Nat → StoreError}
  {failed : Nat → StoreError → StoreError} {act : α → σ → Outcome σ Unit}

theorem each_keeps {items : List α} (h : ∀ a ∈ items, ∀ s, P s → P (act a s).state) (done : Nat)
    {s : σ} (hs : P s) : P (each cancelled failed act done items s).state := by
  induction items generalizing done s with
  | nil => exact hs
  | cons a items ih =>
    rw [each]
    split
    · exact hs
    · exact Outcome.andThen_keeps (h a List.mem_cons_self s hs) fun _ _ =>
        ih (fun b hb => h b (List.mem_cons_of_mem a hb)) (done + 1)

/-- **What every operation keeps, a pass keeps.** -/
theorem pass_keeps (hk : ∀ s, P s → P (Storage.keys s).state)
    (hd : ∀ key s, P s → P (Storage.delete key s).state)
    (hw : ∀ r s, P s → P (Storage.write r s).state) (hf : ∀ s, P s → P (Storage.flush s).state)
    (records : List Snapshot) {s : σ} (hs : P s) : P (pass records s).state := by
  refine Outcome.andThen_keeps (hk s hs) fun listed s hs => ?_
  refine Outcome.andThen_keeps (each_keeps (fun key _ => hd key) _ hs) fun deleted s hs => ?_
  exact Outcome.andThen_keeps (each_keeps (fun r _ => hw r) _ hs) fun written s hs => hf s hs

theorem each_leaves (h : ∀ a s u, (act a s).result = .ok u → P (act a s).state)
    (items : List α) (done : Nat) {s : σ} (hs : P s) {n : Nat}
    (hr : (each cancelled failed act done items s).result = .ok n) :
    P (each cancelled failed act done items s).state := by
  induction items generalizing done s with
  | nil => exact hs
  | cons a items ih =>
    rw [each] at hr ⊢
    split at hr
    · cases hr
    · rename_i hc
      rw [if_neg hc]
      refine Outcome.andThen_leaves hr (fun u ha => ?_) fun _ _ => ih (done + 1)
      exact h a s u (Outcome.result_mapError_eq_ok.mp ha)

/-- **What every operation leaves when it succeeds, a pass leaves when it succeeds.** -/
theorem pass_leaves
    (hk : ∀ s listed, (Storage.keys s).result = .ok listed → P (Storage.keys s).state)
    (hd : ∀ key s u, (Storage.delete key s).result = .ok u → P (Storage.delete key s).state)
    (hw : ∀ r s u, (Storage.write r s).result = .ok u → P (Storage.write r s).state)
    (hf : ∀ s, P s → P (Storage.flush s).state) {records : List Snapshot} {s : σ}
    {report : PassReport} (hr : (pass records s).result = .ok report) :
    P (pass records s).state := by
  refine Outcome.andThen_leaves hr
    (fun listed h => hk s listed (Outcome.result_mapError_eq_ok.mp h)) fun listed s hs hr => ?_
  refine Outcome.andThen_leaves hr (fun _ => each_leaves hd _ _ hs) fun deleted s hs hr => ?_
  refine Outcome.andThen_leaves hr (fun _ => each_leaves hw _ _ hs) fun written s hs _ => ?_
  exact hf s hs

end Keeps

variable {σ δ α : Type} [Holding σ δ]

/-- What is held after `d` of the stale keys are removed and `w` of the records stored. -/
def progress (records : List Snapshot) (listed : List String) (d w : Nat) (s : σ) : Contents δ :=
  stored (Holding.form σ) (records.take w) (removed ((stale records listed).take d) (held s))

/-- A key that the records have is never one that a pass removes. -/
theorem isSome_progress {records : List Snapshot} {s : σ} {key : String}
    (hk : key ∈ records.map Snapshot.key) (hs : (held s key).isSome = true)
    (listed : List String) (d w : Nat) : (progress records listed d w s key).isSome = true := by
  have hn : key ∉ (stale records listed).take d := fun h =>
    (mem_stale.mp (List.mem_of_mem_take h)).2 hk
  refine Contents.isSome_stored ?_ _
  rwa [Contents.removed_of_not_mem hn]

variable [Storage σ]

/-! ## Runs -/

/-- **A run gets through its list or to a place in it.** -/
theorem each_cases {cancelled : Nat → StoreError} {failed : Nat → StoreError → StoreError}
    {act : α → σ → Outcome σ Unit} {effect : Contents δ → α → Contents δ}
    (hok : ∀ {a s u}, (act a s).result = .ok u → held (act a s).state = effect (held s) a)
    (herror : ∀ {a s e}, (act a s).result = .error e → held (act a s).state = held s)
    (items : List α) (done : Nat) (s : σ) :
    let o := each cancelled failed act done items s
    (o.result = .ok (done + items.length) ∧ held o.state = items.foldl effect (held s)) ∨
    ∃ k < items.length, ∃ e, o.result = .error e ∧
      (e = cancelled (done + k) ∨ ∃ cause, e = failed (done + k) cause) ∧
      held o.state = (items.take k).foldl effect (held s) := by
  induction items generalizing done s with
  | nil => exact .inl ⟨rfl, rfl⟩
  | cons a items ih =>
    intro o
    cases hc : Storage.cancelled s with
    | true =>
      have ho : o = .fail (cancelled done) s := if_pos hc
      rw [ho]
      exact .inr ⟨0, Nat.succ_pos _, _, rfl, .inl rfl, rfl⟩
    | false =>
      have ho : o = ((act a s).mapError (failed done)).andThen fun _ s =>
          each cancelled failed act (done + 1) items s := if_neg (by rw [hc]; decide)
      cases hr : (act a s).result with
      | error cause =>
        have hm := @Outcome.result_mapError_of_error _ _ _ (failed done) _ hr
        refine .inr ⟨0, Nat.succ_pos _, _, ?_, .inr ⟨cause, rfl⟩, ?_⟩
        · rw [ho, Outcome.result_andThen_of_error hm, Nat.add_zero]
        · rw [ho, Outcome.state_andThen_of_error hm, Outcome.state_mapError, herror hr]
          rfl
      | ok u =>
        have hm := (@Outcome.result_mapError_eq_ok _ _ _ (failed done) _).mpr hr
        rw [ho, Outcome.result_andThen_of_ok hm, Outcome.state_andThen_of_ok hm,
          Outcome.state_mapError]
        -- The rest of the run counts from one more on.
        rcases ih (done + 1) (act a s).state with ⟨he, hs⟩ | ⟨k, hk, e, he, hw, hs⟩
        · refine .inl ⟨?_, ?_⟩
          · rw [he, List.length_cons, Nat.add_assoc, Nat.add_comm 1]
          · rw [hs, hok hr, List.foldl_cons]
        · refine .inr ⟨k + 1, Nat.succ_lt_succ hk, e, he, ?_, ?_⟩
          · rwa [Nat.add_assoc, Nat.add_comm 1] at hw
          · rw [hs, hok hr, List.take_succ_cons, List.foldl_cons]

/-- What a pass ends with before its end: it was asked to, or an operation failed. -/
def Stops (phase : PassPhase) (deleted written : Nat) (e : StoreError) : Prop :=
  e = .passCancelled phase deleted written ∨ ∃ cause, e = .passFailed phase deleted written cause

variable [Atomic σ]

theorem applyDeletes_cases (keys : List String) (s : σ) :
    let o := applyDeletes keys s
    (o.result = .ok keys.length ∧ held o.state = removed keys (held s)) ∨
    ∃ d < keys.length, ∃ e, o.result = .error e ∧ Stops .applyDeletes d 0 e ∧
      held o.state = removed (keys.take d) (held s) := by
  have h := @each_cases σ δ String _ _ (.passCancelled .applyDeletes · 0)
    (.passFailed .applyDeletes · 0) Storage.delete (fun c key => Function.update c key none)
    Atomic.delete_ok Atomic.delete_error keys 0 s
  simp only [Nat.zero_add] at h
  exact h

theorem held_applyDeletes {keys : List String} {s : σ} {n : Nat}
    (h : (applyDeletes keys s).result = .ok n) :
    held (applyDeletes keys s).state = removed keys (held s) := by
  rcases applyDeletes_cases keys s with ⟨-, hh⟩ | ⟨d, -, e, he, -, -⟩
  · exact hh
  · rw [he] at h
    cases h

/-- **When the stale keys are removed, nothing is held but under keys of the records.** -/
theorem removed_stale {records : List Snapshot} {s : σ} {listed : List String}
    (hk : (Storage.keys s).result = .ok listed) {key : String}
    (h : key ∉ records.map Snapshot.key) : removed (stale records listed) (held s) key = none := by
  obtain ⟨-, hmem⟩ := @Atomic.keys_ok σ δ _ _ _ s listed hk
  by_cases hm : key ∈ listed
  · exact Contents.removed_of_mem (mem_stale.mpr ⟨hm, h⟩) _
  · refine Contents.removed_of_eq_none ?_ _
    rw [← Option.not_isSome_iff_eq_none, ← hmem]
    exact hm

theorem writeAll_cases (deleted : Nat) (records : List Snapshot) (s : σ) :
    let o := writeAll deleted records s
    (o.result = .ok records.length ∧
      held o.state = stored (Holding.form σ) records (held s)) ∨
    ∃ w < records.length, ∃ e, o.result = .error e ∧ Stops .writeAll deleted w e ∧
      held o.state = stored (Holding.form σ) (records.take w) (held s) := by
  have h := @each_cases σ δ Snapshot _ _ (.passCancelled .writeAll deleted)
    (.passFailed .writeAll deleted) Storage.write
    (fun c r => Function.update c r.key (some (Holding.form σ r)))
    Atomic.write_ok Atomic.write_error records 0 s
  simp only [Nat.zero_add] at h
  exact h

/-! ## Passes -/

/-- The ends that a pass can have. -/
inductive Ends (records : List Snapshot) (s : σ) (o : Outcome σ PassReport) : Prop
  /-- The keys could not be listed. -/
  | unlisted (e : StoreError) (keys_eq : (Storage.keys s).result = .error e)
    (result_eq : o.result = .error (listError e)) (held_eq : held o.state = held s)
  /-- The next stale key was not removed. -/
  | deleting (listed : List String) (d : Nat) (e : StoreError)
    (keys_eq : (Storage.keys s).result = .ok listed) (lt : d < (stale records listed).length)
    (result_eq : o.result = .error e) (stops : Stops .applyDeletes d 0 e)
    (held_eq : held o.state = progress records listed d 0 s)
  /-- The next record was not stored. -/
  | writing (listed : List String) (w : Nat) (e : StoreError)
    (keys_eq : (Storage.keys s).result = .ok listed) (lt : w < records.length)
    (result_eq : o.result = .error e) (stops : Stops .writeAll (stale records listed).length w e)
    (held_eq : held o.state = progress records listed (stale records listed).length w s)
  /-- Everything was done, but not flushed. -/
  | unflushed (listed : List String) (t : σ) (cause : StoreError)
    (keys_eq : (Storage.keys s).result = .ok listed)
    (flush_eq : (Storage.flush t).result = .error cause)
    (state_eq : o.state = (Storage.flush t).state)
    (result_eq : o.result =
      .error (.passFailed .writeAll (stale records listed).length records.length cause))
    (held_eq : held o.state =
      progress records listed (stale records listed).length records.length s)
  /-- Everything was done. -/
  | finished (listed : List String) (keys_eq : (Storage.keys s).result = .ok listed)
    (result_eq : o.result = .ok ⟨(stale records listed).length, records.length⟩)
    (held_eq : held o.state =
      progress records listed (stale records listed).length records.length s)

omit [Holding σ δ] [Atomic σ] in
/-- What comes of flushing decides whether a pass that has done everything succeeds. -/
theorem finish_cases (deleted written : Nat) (s : σ) :
    (∃ cause, (Storage.flush s).result = .error cause ∧
      (finish deleted written s).result = .error (.passFailed .writeAll deleted written cause)) ∨
    (finish deleted written s).result = .ok ⟨deleted, written⟩ := by
  have hf : (finish deleted written s).result = ((Storage.flush s).result.mapError
    (.passFailed .writeAll deleted written)).map fun _ => ⟨deleted, written⟩ := rfl
  rw [hf]
  cases (Storage.flush s).result with
  | error cause => exact .inl ⟨cause, rfl, rfl⟩
  | ok u => exact .inr rfl

/-- **Every pass over an atomic storage ends in one of these ways.** -/
theorem ends_pass (records : List Snapshot) (s : σ) : Ends records s (pass records s) := by
  rw [pass]
  cases hk : (Storage.keys s).result with
  | error e =>
    have hm := @Outcome.result_mapError_of_error _ _ _ listError _ hk
    rw [Outcome.andThen_of_error hm]
    exact .unlisted e hk rfl (Atomic.held_keys s)
  | ok listed =>
    have hm := (@Outcome.result_mapError_eq_ok _ _ _ listError _).mpr hk
    have hh : held ((Storage.keys s).mapError listError).state = held s := Atomic.held_keys s
    rw [Outcome.andThen_of_ok hm]
    generalize ((Storage.keys s).mapError listError).state = t at hh ⊢
    rcases applyDeletes_cases (stale records listed) t with ⟨hd, hc⟩ | ⟨d, hlt, e, hd, hw, hc⟩
    · rw [Outcome.andThen_of_ok hd]
      rw [hh] at hc
      generalize (applyDeletes (stale records listed) t).state = u at hc ⊢
      rcases writeAll_cases (stale records listed).length records u with
        ⟨hw, hcw⟩ | ⟨w, hlt, e, hw, hst, hcw⟩
      · rw [Outcome.andThen_of_ok hw]
        rw [hc] at hcw
        generalize (writeAll (stale records listed).length records u).state = v at hcw ⊢
        have hv : held (Storage.flush v).state =
            progress records listed (stale records listed).length records.length s := by
          rw [progress, List.take_length, List.take_length, Atomic.held_flush, hcw]
        rcases finish_cases (stale records listed).length records.length v with ⟨cause, hc, hr⟩ | hr
        · exact .unflushed listed v cause hk hc rfl hr hv
        · exact .finished listed hk hr hv
      · rw [Outcome.andThen_of_error hw]
        refine .writing listed w e hk hlt rfl hst ?_
        rw [progress, List.take_length, ← hc]
        exact hcw
    · rw [Outcome.andThen_of_error hd]
      refine .deleting listed d e hk hlt rfl hw ?_
      rw [progress, ← hh]
      exact hc

/-- **A pass that succeeds has done everything.** -/
theorem finished_of_ok {records : List Snapshot} {s : σ} {report : PassReport}
    (hp : (pass records s).result = .ok report) :
    ∃ listed, (Storage.keys s).result = .ok listed ∧
      report = ⟨(stale records listed).length, records.length⟩ ∧
      held (pass records s).state =
        progress records listed (stale records listed).length records.length s := by
  cases ends_pass records s with
  | unlisted _ _ hr _ =>
    rw [hp] at hr
    cases hr
  | deleting _ _ _ _ _ hr _ _ =>
    rw [hp] at hr
    cases hr
  | writing _ _ _ _ _ hr _ _ =>
    rw [hp] at hr
    cases hr
  | unflushed _ _ _ _ _ _ hr _ =>
    rw [hp] at hr
    cases hr
  | finished listed hk hr hh => exact ⟨listed, hk, Except.ok.inj (hp.symm.trans hr), hh⟩

/-! ## Passes that end early -/

theorem Stops.unique {p q : PassPhase} {d d' w w' : Nat} {e : StoreError} (h : Stops p d w e)
    (h' : Stops q d' w' e) : p = q ∧ d = d' ∧ w = w' := by
  rcases h with rfl | ⟨cause, rfl⟩
  · rcases h' with h' | ⟨cause, h'⟩
    · cases h'
      exact ⟨rfl, rfl, rfl⟩
    · cases h'
  · rcases h' with h' | ⟨cause', h'⟩
    · cases h'
    · cases h'
      exact ⟨rfl, rfl, rfl⟩

/-- Whatever the storage fails with when it lists its keys, no count comes of it. -/
theorem not_stops_listError (p : PassPhase) (d w : Nat) (e : StoreError) :
    ¬ Stops p d w (listError e) := by
  have hb : ∃ fault, listError e = .backend fault := by
    unfold listError
    split
    · exact ⟨_, rfl⟩
    · exact ⟨_, rfl⟩
  obtain ⟨fault, hb⟩ := hb
  rw [hb]
  rintro (h | ⟨cause, h⟩)
  · cases h
  · cases h

/-- **A pass removes no key that its records have**, however it ends. -/
theorem isSome_held_pass {records : List Snapshot} {s : σ} {key : String}
    (hk : key ∈ records.map Snapshot.key) (hs : (held s key).isSome = true) :
    (held (pass records s).state key).isSome = true := by
  cases ends_pass records s with
  | unlisted _ _ _ hh => rwa [hh]
  | deleting listed d _ _ _ _ _ hh =>
    rw [hh]
    exact isSome_progress hk hs listed d 0
  | writing listed w _ _ _ _ _ hh =>
    rw [hh]
    exact isSome_progress hk hs listed _ w
  | unflushed listed _ _ _ _ _ _ hh =>
    rw [hh]
    exact isSome_progress hk hs listed _ _
  | finished listed _ _ hh =>
    rw [hh]
    exact isSome_progress hk hs listed _ _

/-- **A pass that ends early has done what it says, and no more.** Of the stored keys that the
records do not have, the first `deleted` are gone, and of the records the first `written` are
stored. However a pass ends, no key of the records is gone that was there. -/
theorem pass_interrupted (records : List Snapshot) (s : σ) :
    (∀ (phase : PassPhase) (deleted written : Nat) (e : StoreError),
      (pass records s).result = .error e → Stops phase deleted written e →
      ∃ listed, (Storage.keys s).result = .ok listed ∧
        let gone := listed.filter (· ∉ records.map Snapshot.key)
        held (pass records s).state =
          stored (Holding.form σ) (records.take written) (removed (gone.take deleted) (held s)) ∧
        (phase = .applyDeletes → written = 0 ∧ deleted < gone.length) ∧
        (phase = .writeAll → deleted = gone.length ∧ written ≤ records.length ∧
          (written = records.length → ∃ t cause, (Storage.flush t).result = .error cause ∧
            e = .passFailed .writeAll deleted written cause ∧
            (pass records s).state = (Storage.flush t).state))) ∧
    ∀ key ∈ records.map Snapshot.key, (held s key).isSome = true →
      (held (pass records s).state key).isSome = true := by
  refine ⟨fun phase deleted written e he hst => ?_, fun key => isSome_held_pass⟩
  cases ends_pass records s with
  | unlisted e' _ hr _ =>
    rw [he, Except.error.injEq] at hr
    exact absurd (hr ▸ hst) (not_stops_listError _ _ _ _)
  | deleting listed d e' hk hlt hr hst' hh =>
    rw [he, Except.error.injEq] at hr
    subst hr
    obtain ⟨rfl, rfl, rfl⟩ := hst.unique hst'
    refine ⟨listed, hk, ?_⟩
    rw [← stale_eq]
    exact ⟨hh, fun _ => ⟨rfl, hlt⟩, fun hp => nomatch hp⟩
  | writing listed w e' hk hlt hr hst' hh =>
    rw [he, Except.error.injEq] at hr
    subst hr
    obtain ⟨rfl, rfl, rfl⟩ := hst.unique hst'
    refine ⟨listed, hk, ?_⟩
    rw [← stale_eq]
    exact ⟨hh, fun hp => (nomatch hp), fun _ =>
      ⟨rfl, Nat.le_of_lt hlt, fun hw => absurd hw (Nat.ne_of_lt hlt)⟩⟩
  | unflushed listed t cause hk hf hs hr hh =>
    rw [he, Except.error.injEq] at hr
    subst hr
    obtain ⟨rfl, rfl, rfl⟩ := hst.unique (.inr ⟨cause, rfl⟩)
    refine ⟨listed, hk, ?_⟩
    rw [← stale_eq]
    exact ⟨hh, fun hp => (nomatch hp), fun _ =>
      ⟨rfl, Nat.le_refl _, fun _ => ⟨t, cause, hf, rfl, hs⟩⟩⟩
  | finished listed _ hr _ =>
    rw [he] at hr
    cases hr

/-- A record to try passes with. -/
def trial (key : String) : Snapshot := ⟨default, key, [[0]], ∅⟩

/-- Tables with one record, where a pass is asked to end while it writes. -/
def trialStore : Faulty TableStore :=
  ⟨(TableStore.write (trial "a") ∅).state, [⟨.write, 0, .cancel⟩], false⟩

/-- A pass with two other records removes the one that is there and stores one of the two. -/
theorem pass_interrupted_cancelled :
    (pass [trial "b", trial "c"] trialStore).result = .error (.passCancelled .writeAll 1 1) ∧
    ∃ listed, (Storage.keys trialStore).result = .ok listed ∧
      held (pass [trial "b", trial "c"] trialStore).state =
        stored TableStore.rowsOf [trial "b"]
          (removed ((listed.filter (· ∉ ["b", "c"])).take 1) (held trialStore)) ∧
      (listed.filter (· ∉ ["b", "c"])).length = 1 := by
  have he : (pass [trial "b", trial "c"] trialStore).result =
      .error (.passCancelled .writeAll 1 1) := by decide +kernel
  obtain ⟨listed, hk, hh, -, hw⟩ :=
    (pass_interrupted [trial "b", trial "c"] trialStore).1 .writeAll 1 1 _ he (.inl rfl)
  exact ⟨he, listed, hk, hh, (hw rfl).1.symm⟩

end RecordStore.Pass
