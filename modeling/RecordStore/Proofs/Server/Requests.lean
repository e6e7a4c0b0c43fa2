import RecordStore.Proofs.Failures
import RecordStore.Proofs.Server.Run

/-!
# Requests that fail do no harm

A request to a running server is answered and nothing is noted, or it fails: then everything is as
before, and one event tells whether the request was wrong or asked for what is not there. Nothing
that is asked can make a running server fail otherwise.

* `StoreError.event_cases`: the event of an error of requests is one of two.
* `Harmless`: that a request fails and does no harm. `harmless_of_denied`: this is what comes of a
  request that does not pass a check.
* `answered_or_harmless`: **a request is answered without a note, or it fails without harm.**
-/

namespace RecordStore

/-- **The error of a request is noted as what it is**, and never as a fault. -/
theorem StoreError.event_cases {e : StoreError} (h : e.isOfRequest = true) :
    (e.isValidation = true ∧ e.isNotFound = false ∧ e.event = .requestRejected) ∨
    (e.isNotFound = true ∧ e.isValidation = false ∧ e.event = .requestMissed) := by
  cases e with
  | emptyKey => exact .inl ⟨rfl, rfl, rfl⟩
  | emptyValue => exact .inl ⟨rfl, rfl, rfl⟩
  | reservedMetadataKey => exact .inl ⟨rfl, rfl, rfl⟩
  | invalidQuery => exact .inl ⟨rfl, rfl, rfl⟩
  | keyNotFound => exact .inr ⟨rfl, rfl, rfl⟩
  | metadataKeyNotFound => exact .inr ⟨rfl, rfl, rfl⟩
  | outOfRange => exact .inr ⟨rfl, rfl, rfl⟩
  | _ => cases h

namespace Server

variable {σ : Type}

/-- **That a request fails with an error and does no harm.** -/
structure Harmless (s : Server σ) (request : Request) (e : StoreError) : Prop where
  result_eq : (s.handle request).result = .error e
  /-- Everything is as before, -/
  state_eq : (s.handle request).state = s
  /-- for the request does not pass one of the checks, -/
  denied : s.container.Denied request e
  /-- all of which are of requests. -/
  isOfRequest : e.isOfRequest = true
  /-- One event is noted, and it tells whose the fault is. -/
  noted : (e.isValidation = true ∧ e.isNotFound = false ∧
      (s.handle request).events = [.requestRejected]) ∨
    (e.isNotFound = true ∧ e.isValidation = false ∧
      (s.handle request).events = [.requestMissed])

variable {s : Server σ}

theorem handle_of_answer_ok (hs : s.state = .running) {request : Request} {reply : Reply}
    {after : Container} (h : s.container.answer request = (.ok reply, after)) :
    s.handle request = .ok reply { s with container := after } := by
  rw [handle, checkRunning_of_running hs, h]

theorem handle_of_answer_error (hs : s.state = .running) {request : Request} {e : StoreError}
    (h : s.container.answer request = (.error e, s.container)) :
    s.handle request = ⟨.error e, s, [e.event]⟩ := by
  rw [handle, checkRunning_of_running hs, h]

/-- A request that does not pass a check fails without harm. -/
theorem harmless_of_denied (hs : s.state = .running) {request : Request} {e : StoreError}
    (h : s.container.Denied request e) : Harmless s request e := by
  have hr : (s.container.answer request).1 = .error e := Container.answer_eq_error_iff.mpr h
  have ho : s.handle request = ⟨.error e, s, [e.event]⟩ :=
    handle_of_answer_error hs (Prod.ext hr (Container.answer_of_error hr))
  have hevent := StoreError.event_cases h.isOfRequest
  refine ⟨by rw [ho], by rw [ho], h, h.isOfRequest, ?_⟩
  rw [ho]
  refine hevent.imp (fun hv => ⟨hv.1, hv.2.1, ?_⟩) fun hn => ⟨hn.1, hn.2.1, ?_⟩
  · exact congrArg (fun event => [event]) hv.2.2
  · exact congrArg (fun event => [event]) hn.2.2

/-- **A request to a running server is answered without a note, or it fails without harm.** It fails
just when it does not pass a check. -/
theorem answered_or_harmless (hs : s.state = .running) (request : Request) :
    ((∃ reply, (s.handle request).result = .ok reply) ∧ (s.handle request).events = [] ∧
      ∀ e, ¬ s.container.Denied request e) ∨
    ∃ e, Harmless s request e := by
  rcases s.container.answer_cases request with ⟨e, he⟩ | ⟨reply, after, he, -⟩
  · have hd : s.container.Denied request e := Container.answer_eq_error_iff.mp (by rw [he])
    exact .inr ⟨e, harmless_of_denied hs hd⟩
  · have ho := handle_of_answer_ok hs he
    refine .inl ⟨⟨reply, by rw [ho]; rfl⟩, by rw [ho]; rfl, fun e hd => ?_⟩
    have hr := Container.answer_eq_error_iff.mpr hd
    rw [he] at hr
    cases hr

/-- A server that was started over memory and given a value. -/
def trialStarted : Server MemoryStore :=
  (({ storage := ∅, kind := .memory, period := 0 } : Server MemoryStore).start.state.handle
    (.set "a" [1] default)).state

/-- The counter is not to be removed, and there is no second value. -/
theorem answered_or_harmless_trial :
    Harmless trialStarted (.deleteMetadata "a" "Version") (.reservedMetadataKey "Version") ∧
      Harmless trialStarted (.get "a" (.number 1)) (.outOfRange 1 1) := by
  have hrun : trialStarted.state = .running := by decide +kernel
  have hfails : ∀ {request e}, (trialStarted.handle request).result = .error e →
      Harmless trialStarted request e := by
    intro request e hr
    rcases answered_or_harmless hrun request with ⟨⟨reply, hok⟩, -⟩ | ⟨e', h⟩
    · rw [hr] at hok
      cases hok
    · have he := h.result_eq
      rw [hr] at he
      cases he
      exact h
  exact ⟨hfails (by decide +kernel), hfails (by decide +kernel)⟩

end Server

end RecordStore
