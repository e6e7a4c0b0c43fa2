import RecordStore.Proofs.Storage.Mirror
import RecordStore.Storage.Faulty

/-!
# Passes that may fail anywhere

A storage under trial fails on a schedule of its own. Here the schedule is any: of every operation
to come it is foretold whether it fails, and then it has no effect, or whether the pass under way is
asked to end before it. A pass that succeeds was hindered by none of this, so it has done what it
would have done without.

* `Foretold`: a storage and what befalls its next operations.
* `Through`: that an operation that goes through is that of the storage itself.
* `through_pass`: **a pass that succeeds is a pass over the storage itself.**
* `Pass.Invariant.foretold`: what passes keep they keep under any schedule.
-/

namespace RecordStore

/-- A storage of which it is foretold what befalls the operations to come. -/
structure Foretold (σ : Type) where
  storage : σ
  /-- What befalls them, one after the other. Behind the last of these all go through. -/
  omens : List (Option Effect) := []

namespace Foretold

variable {σ α β : Type}

/-- The next operation: it fails without any effect, or it goes through. -/
def call (act : σ → Outcome σ α) (s : Foretold σ) : Outcome (Foretold σ) α :=
  match s.omens with
  | some (.fail e) :: omens => .fail e { s with omens }
  | omens => (act s.storage).within fun storage => ⟨storage, omens.tail⟩

instance [Storage σ] : Storage (Foretold σ) where
  name s := Storage.name s.storage
  retains s := Storage.retains s.storage
  write r := call (Storage.write r)
  read key := call (Storage.read key)
  delete key := call (Storage.delete key)
  load := call Storage.load
  keys := call Storage.keys
  compare r := call (Storage.compare r)
  flush := call Storage.flush
  cancelled s := s.omens.head? = some (some .cancel) || Storage.cancelled s.storage

theorem call_cases (act : σ → Outcome σ α) (s : Foretold σ) :
    (∃ e omens, s.call act = .fail e ⟨s.storage, omens⟩) ∨
      ∃ omens, s.call act = (act s.storage).within (⟨·, omens⟩) := by
  unfold call
  split
  · exact .inl ⟨_, _, rfl⟩
  · exact .inr ⟨_, rfl⟩

/-- What an operation keeps it keeps whatever befalls it. -/
theorem call_keeps {P : σ → Prop} {act : σ → Outcome σ α} (h : ∀ s, P s → P (act s).state)
    {s : Foretold σ} (hs : P s.storage) : P (s.call act).state.storage := by
  rcases call_cases act s with ⟨e, omens, hc⟩ | ⟨omens, hc⟩
  · rw [hc]
    exact hs
  · rw [hc]
    exact h s.storage hs

/-! ## Passes that go through -/

/-- That an operation, if it ends well, is one of the storage itself. -/
def Through (o : Outcome (Foretold σ) α) (o' : Outcome σ α) : Prop :=
  ∀ a, o.result = .ok a → o'.result = .ok a ∧ o.state.storage = o'.state

theorem through_call (act : σ → Outcome σ α) (s : Foretold σ) :
    Through (s.call act) (act s.storage) := by
  intro a h
  rcases call_cases act s with ⟨e, omens, hc⟩ | ⟨omens, hc⟩
  · rw [hc] at h
    cases h
  · rw [hc] at h ⊢
    exact ⟨h, rfl⟩

namespace Through

variable {o : Outcome (Foretold σ) α} {o' : Outcome σ α}

theorem mapError (h : Through o o') (f : StoreError → StoreError) :
    Through (o.mapError f) (o'.mapError f) := by
  intro a ha
  obtain ⟨hr, hs⟩ := h a (Outcome.result_mapError_eq_ok.mp ha)
  exact ⟨Outcome.result_mapError_of_ok hr, hs⟩

theorem map (h : Through o o') (f : α → β) : Through (o.map f) (o'.map f) := by
  intro b hb
  cases ho : o.result with
  | error e =>
    rw [Outcome.result_map_eq_error.mpr ho] at hb
    cases hb
  | ok a =>
    obtain ⟨hr, hs⟩ := h a ho
    rw [Outcome.result_map_of_ok ho] at hb
    rw [Outcome.result_map_of_ok hr]
    exact ⟨hb, hs⟩

theorem andThen (h : Through o o') {next : α → Foretold σ → Outcome (Foretold σ) β}
    {next' : α → σ → Outcome σ β} (hn : ∀ a s, Through (next a s) (next' a s.storage)) :
    Through (o.andThen next) (o'.andThen next') := by
  intro b hb
  obtain ⟨a, ha, hab⟩ := Outcome.result_andThen_eq_ok.mp hb
  obtain ⟨hr, hs⟩ := h a ha
  rw [Outcome.state_andThen_of_ok ha, Outcome.result_andThen_of_ok hr,
    Outcome.state_andThen_of_ok hr, ← hs]
  exact hn a o.state b hab

end Through

variable [Storage σ]

theorem through_each {cancelled : Nat → StoreError} {failed : Nat → StoreError → StoreError}
    (act : α → σ → Outcome σ Unit) (items : List α) (done : Nat) (s : Foretold σ) :
    Through (Pass.each cancelled failed (fun a => call (act a)) done items s)
      (Pass.each cancelled failed act done items s.storage) := by
  induction items generalizing done s with
  | nil =>
    intro n hn
    exact ⟨hn, rfl⟩
  | cons a items ih =>
    rw [Pass.each, Pass.each]
    split
    · intro n hn
      cases hn
    · rename_i hc
      -- What is not asked to end here was not asked to inside either.
      have hinner : ¬Storage.cancelled s.storage = true := fun h =>
        hc (Bool.or_eq_true_iff.mpr (.inr h))
      rw [if_neg hinner]
      exact ((through_call (act a) s).mapError _).andThen fun _ s => ih (done + 1) s

/-- **A pass that succeeds is a pass over the storage itself.** -/
theorem through_pass (records : List Snapshot) (s : Foretold σ) :
    Through (pass records s) (pass records s.storage) := by
  unfold pass
  refine ((through_call Storage.keys s).mapError _).andThen fun listed s => ?_
  refine (through_each Storage.delete _ 0 s).andThen fun deleted s => ?_
  refine (through_each Storage.write records 0 s).andThen fun written s => ?_
  exact ((through_call Storage.flush s).mapError _).map _

end Foretold

/-- What passes keep they keep whatever befalls them. -/
theorem Pass.Invariant.foretold {σ : Type} [Storage σ] {P : σ → Prop} (h : Pass.Invariant P) :
    Pass.Invariant fun s : Foretold σ => P s.storage where
  keys _ := Foretold.call_keeps h.keys
  delete key _ := Foretold.call_keeps (h.delete key)
  write r _ := Foretold.call_keeps (h.write r)
  flush _ := Foretold.call_keeps h.flush

end RecordStore
