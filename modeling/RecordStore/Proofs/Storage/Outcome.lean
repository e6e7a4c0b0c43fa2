import RecordStore.Storage.Basic

/-!
# How operations end one after the other

Going on after a good end gives the end and the state of what comes next; after a failure, nothing
comes next.

* `result_andThen_eq_ok`: two operations end well when both do.
* `andThen_assoc`, `map_andThen`: how operations are put together does not matter.
* `andThen_keeps`, `andThen_leaves`: what holds of the state afterwards.
-/

namespace RecordStore

instance decidableEqExcept {ε α : Type} [DecidableEq ε] [DecidableEq α] :
    DecidableEq (Except ε α)
  | .ok a, .ok b => decidable_of_iff (a = b) ⟨congrArg _, Except.ok.inj⟩
  | .error d, .error e => decidable_of_iff (d = e) ⟨congrArg _, Except.error.inj⟩
  | .ok _, .error _ => isFalse nofun
  | .error _, .ok _ => isFalse nofun

namespace Outcome

variable {σ τ α β : Type} {o : Outcome σ α} {next : α → σ → Outcome σ β}

theorem andThen_of_ok {a : α} (h : o.result = .ok a) :
    o.andThen next = ⟨(next a o.state).result, (next a o.state).state,
      o.events ++ (next a o.state).events⟩ := by
  rw [andThen, h]

theorem andThen_of_error {e : StoreError} (h : o.result = .error e) :
    o.andThen next = ⟨.error e, o.state, o.events⟩ := by
  rw [andThen, h]

theorem result_andThen_of_ok {a : α} (h : o.result = .ok a) :
    (o.andThen next).result = (next a o.state).result := by
  rw [andThen, h]

theorem state_andThen_of_ok {a : α} (h : o.result = .ok a) :
    (o.andThen next).state = (next a o.state).state := by
  rw [andThen, h]

theorem result_andThen_of_error {e : StoreError} (h : o.result = .error e) :
    (o.andThen next).result = .error e := by
  rw [andThen, h]

theorem state_andThen_of_error {e : StoreError} (h : o.result = .error e) :
    (o.andThen next).state = o.state := by
  rw [andThen, h]

theorem result_andThen_eq_ok {b : β} :
    (o.andThen next).result = .ok b ↔
      ∃ a, o.result = .ok a ∧ (next a o.state).result = .ok b := by
  cases h : o.result with
  | error e => simp [result_andThen_of_error h]
  | ok a => simp [result_andThen_of_ok h]

theorem andThen_assoc {γ : Type} {last : β → σ → Outcome σ γ} :
    (o.andThen next).andThen last = o.andThen fun a s => (next a s).andThen last := by
  cases h : o.result with
  | error e => simp only [andThen, h]
  | ok a =>
    rw [andThen_of_ok h, andThen_of_ok h]
    cases hn : (next a o.state).result <;> simp only [andThen, hn, List.append_assoc]

theorem map_andThen {γ : Type} {f : α → γ} {next : γ → σ → Outcome σ β} :
    (o.map f).andThen next = o.andThen fun a => next (f a) := by
  cases h : o.result <;> simp only [andThen, map, h, Except.map]

/-- What both operations keep is kept. -/
theorem andThen_keeps {P : σ → Prop} (ho : P o.state) (hn : ∀ a s, P s → P (next a s).state) :
    P (o.andThen next).state := by
  cases h : o.result with
  | error e => rwa [andThen_of_error h]
  | ok a =>
    rw [andThen_of_ok h]
    exact hn a o.state ho

/-- Two operations that end well leave what the second makes of what the first leaves. -/
theorem andThen_leaves {P Q : σ → Prop} {b : β} (h : (o.andThen next).result = .ok b)
    (ho : ∀ a, o.result = .ok a → P o.state)
    (hn : ∀ a s, P s → (next a s).result = .ok b → Q (next a s).state) :
    Q (o.andThen next).state := by
  obtain ⟨a, ha, hb⟩ := result_andThen_eq_ok.mp h
  rw [andThen_of_ok ha]
  exact hn a o.state (ho a ha) hb

theorem result_mapError_of_ok {f : StoreError → StoreError} {a : α} (h : o.result = .ok a) :
    (o.mapError f).result = .ok a := by
  show o.result.mapError f = _
  rw [h]
  rfl

theorem result_mapError_of_error {f : StoreError → StoreError} {e : StoreError}
    (h : o.result = .error e) : (o.mapError f).result = .error (f e) := by
  show o.result.mapError f = _
  rw [h]
  rfl

theorem result_mapError_eq_ok {f : StoreError → StoreError} {a : α} :
    (o.mapError f).result = .ok a ↔ o.result = .ok a := by
  refine ⟨fun h => ?_, result_mapError_of_ok⟩
  cases hr : o.result with
  | error e =>
    rw [result_mapError_of_error hr] at h
    cases h
  | ok b =>
    rw [result_mapError_of_ok hr] at h
    exact h

theorem result_map_of_ok {g : α → β} {a : α} (h : o.result = .ok a) :
    (o.map g).result = .ok (g a) := by
  show o.result.map g = _
  rw [h]
  rfl

theorem result_map_eq_error {g : α → β} {e : StoreError} :
    (o.map g).result = .error e ↔ o.result = .error e := by
  show o.result.map g = _ ↔ _
  cases o.result <;> simp [Except.map]

@[simp]
theorem state_map (g : α → β) : (o.map g).state = o.state := rfl

@[simp]
theorem state_mapError (f : StoreError → StoreError) : (o.mapError f).state = o.state := rfl

@[simp]
theorem state_within (f : σ → τ) : (o.within f).state = f o.state := rfl

end Outcome

end RecordStore
