import RecordStore.Pass
import RecordStore.Proofs.Storage.Outcome
import RecordStore.Storage.Kind

/-!
# Storages inside others

A storage of any kind does what the storage in it does, so a pass over it is a pass over that.

* `Embeds`: that every operation is passed on.
* `Embeds.pass_eq`: **so is a pass.**
* `embeds_log`, `embeds_tables`, `embeds_memory`: the kinds of storage that keep records.
-/

namespace RecordStore

/-- That the operations of a storage are those of the storage in it. -/
structure Embeds {σ τ : Type} [Storage σ] [Storage τ] (f : σ → τ) : Prop where
  write_eq : ∀ r s, Storage.write r (f s) = (Storage.write r s).within f
  read_eq : ∀ key s, Storage.read key (f s) = (Storage.read key s).within f
  delete_eq : ∀ key s, Storage.delete key (f s) = (Storage.delete key s).within f
  keys_eq : ∀ s, Storage.keys (f s) = (Storage.keys s).within f
  compare_eq : ∀ r s, Storage.compare r (f s) = (Storage.compare r s).within f
  flush_eq : ∀ s, Storage.flush (f s) = (Storage.flush s).within f
  cancelled_eq : ∀ s, Storage.cancelled (f s) = Storage.cancelled s

namespace Outcome

variable {σ τ α β : Type} {f : σ → τ}

theorem mapError_within (o : Outcome σ α) (g : StoreError → StoreError) :
    (o.within f).mapError g = (o.mapError g).within f := rfl

theorem map_within (o : Outcome σ α) (g : α → β) : (o.within f).map g = (o.map g).within f := rfl

theorem andThen_within {o : Outcome σ α} {next : α → σ → Outcome σ β}
    {next' : α → τ → Outcome τ β} (h : ∀ a s, next' a (f s) = (next a s).within f) :
    (o.within f).andThen next' = (o.andThen next).within f := by
  cases ho : o.result with
  | error e =>
    have hw : (o.within f).result = .error e := ho
    rw [andThen_of_error hw, andThen_of_error ho]
    rfl
  | ok a =>
    have hw : (o.within f).result = .ok a := ho
    rw [andThen_of_ok hw, andThen_of_ok ho, state_within, h]
    rfl

end Outcome

namespace Embeds

variable {σ τ α : Type} [Storage σ] [Storage τ] {f : σ → τ}

theorem each_eq (h : Embeds f) {cancelled : Nat → StoreError}
    {failed : Nat → StoreError → StoreError} {act : α → σ → Outcome σ Unit}
    {act' : α → τ → Outcome τ Unit} (ha : ∀ a s, act' a (f s) = (act a s).within f)
    (items : List α) (done : Nat) (s : σ) :
    Pass.each cancelled failed act' done items (f s) =
      (Pass.each cancelled failed act done items s).within f := by
  induction items generalizing done s with
  | nil => rfl
  | cons a items ih =>
    rw [Pass.each, Pass.each, h.cancelled_eq, ha, Outcome.mapError_within]
    split
    · rfl
    · exact Outcome.andThen_within fun _ s => ih (done + 1) s

/-- **A pass over the outer storage is one over the inner.** -/
theorem pass_eq (h : Embeds f) (records : List Snapshot) (s : σ) :
    pass records (f s) = (pass records s).within f := by
  rw [pass, pass, h.keys_eq, Outcome.mapError_within]
  refine Outcome.andThen_within fun listed s => ?_
  rw [Pass.applyDeletes, Pass.applyDeletes, h.each_eq h.delete_eq]
  refine Outcome.andThen_within fun deleted s => ?_
  rw [Pass.writeAll, Pass.writeAll, h.each_eq h.write_eq]
  refine Outcome.andThen_within fun written s => ?_
  rw [Pass.finish, Pass.finish, h.flush_eq, Outcome.mapError_within, Outcome.map_within]

end Embeds

theorem embeds_log : Embeds Backing.log := by
  constructor <;> intros <;> rfl

theorem embeds_tables : Embeds Backing.tables := by
  constructor <;> intros <;> rfl

theorem embeds_memory : Embeds Backing.memory := by
  constructor <;> intros <;> rfl

end RecordStore
