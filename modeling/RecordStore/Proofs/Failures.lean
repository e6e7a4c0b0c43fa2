import RecordStore.Pass
import RecordStore.Proofs.Denied
import RecordStore.Proofs.Storage.Outcome
import RecordStore.Storage.Kind

/-!
# Why things fail

An error tells what failed. Requests fail because they were wrong or asked for what is not there,
passes because the storage did or because they were asked to end, and loading because what is stored
is unusable or cannot be read. None of them fails as a server does that refuses a call.

* `FailsWith`: that a result is no failure but one of some kind.
* `isOfRequest`, `isOfPass`, `isOfLoad`: the kinds. `isRefusal`: the refusals of a server.
* `Container.failsWith_answer`, `failsWith_pass`, `Container.failsWith_load`,
  `Backing.failsWith_load`: **what each can fail with.**
-/

namespace RecordStore

/-- That a result is no failure but one of a kind. -/
def FailsWith {α : Type} (kind : StoreError → Bool) (result : Except StoreError α) : Prop :=
  ∀ e, result = .error e → kind e = true

namespace StoreError

/-- The errors of requests. -/
def isOfRequest : StoreError → Bool
  | emptyKey | emptyValue | reservedMetadataKey _ | invalidQuery _ => true
  | keyNotFound _ | metadataKeyNotFound _ _ | outOfRange _ _ => true
  | _ => false

/-- The errors of passes. -/
def isOfPass : StoreError → Bool
  | backend _ | passFailed .. | passCancelled .. => true
  | _ => false

/-- The errors of loading. -/
def isOfLoad : StoreError → Bool
  | backend _ | corruption _ | keyNotFound _ | emptyKey => true
  | _ => false

/-- The errors of a server that refuses a call. -/
def isRefusal : StoreError → Bool
  | notRunning _ | invalidTransition _ _ => true
  | _ => false

variable {e : StoreError}

theorem isRefusal_of_isOfRequest (h : e.isOfRequest = true) : e.isRefusal = false := by
  cases e <;> first | rfl | cases h

theorem isRefusal_of_isOfPass (h : e.isOfPass = true) : e.isRefusal = false := by
  cases e <;> first | rfl | cases h

theorem isRefusal_of_isOfLoad (h : e.isOfLoad = true) : e.isRefusal = false := by
  cases e <;> first | rfl | cases h

end StoreError

open StoreError (isOfRequest isOfPass isOfLoad)

namespace FailsWith

variable {α β σ : Type} {kind : StoreError → Bool} {result : Except StoreError α}

theorem ok (a : α) : FailsWith kind (.ok a : Except StoreError α) := fun _ h => nomatch h

theorem error {e : StoreError} (h : kind e = true) :
    FailsWith kind (.error e : Except StoreError α) := by
  rintro _ ⟨⟩
  exact h

theorem bind (h : FailsWith kind result) {next : α → Except StoreError β}
    (hn : ∀ a, FailsWith kind (next a)) : FailsWith kind (result.bind next) := by
  cases result with
  | error e => exact error (h e rfl)
  | ok a => exact hn a

theorem map (h : FailsWith kind result) (f : α → β) : FailsWith kind (result.map f) := by
  cases result with
  | error e => exact error (h e rfl)
  | ok a => exact ok (f a)

theorem mapM {f : α → Except StoreError β} (h : ∀ a, FailsWith kind (f a)) (items : List α) :
    FailsWith kind (items.mapM f) := by
  induction items with
  | nil => exact ok []
  | cons a items ih =>
    rw [List.mapM_cons]
    exact (h a).bind fun b => ih.bind fun bs => ok (b :: bs)

theorem andThen {o : Outcome σ α} {next : α → σ → Outcome σ β} (h : FailsWith kind o.result)
    (hn : ∀ a s, FailsWith kind (next a s).result) : FailsWith kind (o.andThen next).result := by
  cases ho : o.result with
  | error e =>
    rw [Outcome.result_andThen_of_error ho]
    exact error (h e ho)
  | ok a =>
    rw [Outcome.result_andThen_of_ok ho]
    exact hn a o.state

theorem mapError {o : Outcome σ α} {f : StoreError → StoreError} (h : ∀ e, kind (f e) = true) :
    FailsWith kind (o.mapError f).result := by
  cases ho : o.result with
  | error e =>
    rw [Outcome.result_mapError_of_error ho]
    exact error (h e)
  | ok a =>
    rw [Outcome.result_mapError_of_ok ho]
    exact ok a

end FailsWith

/-! ## Requests -/

theorem Record.Denied.isOfRequest {r : Record} {request : Request} {e : StoreError}
    (h : r.Denied request e) : e.isOfRequest = true := by
  cases h <;> rfl

theorem Container.Denied.isOfRequest {c : Container} {request : Request} {e : StoreError}
    (h : c.Denied request e) : e.isOfRequest = true := by
  cases h with
  | keyless => rfl
  | absent => rfl
  | record _ _ _ _ _ _ _ hd => exact hd.isOfRequest
  | malformed => rfl

/-- **A request fails because it was wrong or asked for what is not there.** -/
theorem Container.failsWith_answer (c : Container) (request : Request) :
    FailsWith isOfRequest (c.answer request).1 :=
  fun _ h => (answer_eq_error_iff.mp h).isOfRequest

/-! ## Passes -/

namespace Pass

variable {σ α : Type} [Storage σ]

theorem failsWith_each {kind : StoreError → Bool} {cancelled : Nat → StoreError}
    {failed : Nat → StoreError → StoreError} {act : α → σ → Outcome σ Unit}
    (hc : ∀ n, kind (cancelled n) = true) (hf : ∀ n e, kind (failed n e) = true)
    (items : List α) (done : Nat) (s : σ) :
    FailsWith kind (each cancelled failed act done items s).result := by
  induction items generalizing done s with
  | nil => exact .ok _
  | cons a items ih =>
    rw [each]
    split
    · exact .error (hc done)
    · exact .andThen (.mapError (hf done)) fun _ s => ih (done + 1) s

theorem isOfPass_listError (e : StoreError) : (listError e).isOfPass = true := by
  unfold listError
  split <;> rfl

end Pass

/-- **A pass fails because the storage did, or because it was asked to end.** -/
theorem failsWith_pass {σ : Type} [Storage σ] (records : List Snapshot) (s : σ) :
    FailsWith isOfPass (pass records s).result := by
  refine .andThen (.mapError Pass.isOfPass_listError) fun listed s => ?_
  refine .andThen (Pass.failsWith_each (fun _ => rfl) (fun _ _ => rfl) _ 0 s) fun deleted s => ?_
  refine .andThen (Pass.failsWith_each (fun _ => rfl) (fun _ _ => rfl) _ 0 s) fun written s => ?_
  exact .map (.mapError fun _ => rfl) _

/-! ## Loading -/

theorem Record.failsWith_ofSnapshot (s : Snapshot) : FailsWith isOfLoad (ofSnapshot s) := by
  unfold ofSnapshot
  refine FailsWith.bind ?_ fun _ => ?_
  · unfold checkKey
    split
    · exact .error rfl
    · exact .ok ()
  · split
    · exact .ok _
    · exact .error rfl

/-- **Records are not taken over if one has no key or no value.** -/
theorem Container.failsWith_load (c : Container) (records : List Snapshot) :
    FailsWith isOfLoad (c.load records).1 := by
  induction records generalizing c with
  | nil => exact .ok _
  | cons s records ih =>
    rw [load]
    split
    · rename_i e he
      exact .error (Record.failsWith_ofSnapshot s e he)
    · exact (ih _).map _

theorem TableStore.failsWith_load (s : TableStore) :
    FailsWith isOfLoad (Storage.load s).result := by
  show FailsWith isOfLoad (s.whenSettled fun s => ⟨s.load, s, []⟩).result
  unfold whenSettled
  split
  · refine FailsWith.mapM (fun key => ?_) _
    unfold TableStore.read
    split
    · exact .error rfl
    · split
      · exact .error rfl
      · exact .ok _
  · exact .error rfl

/-- **Of the storages, only tables may fail to be loaded**, and then what is in them is unusable or
cannot be read. -/
theorem Backing.failsWith_load (b : Backing) : FailsWith isOfLoad (Storage.load b).result := by
  cases b with
  | log s => exact .ok _
  | tables s => exact s.failsWith_load
  | memory s => exact .ok _
  | discard s => exact .ok _

end RecordStore
