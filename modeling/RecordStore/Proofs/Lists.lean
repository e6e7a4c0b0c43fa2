/-!
# Lists of readings

What reading every item of a list gives, in `Option` and in `Except`.

* `mapM_eq_pure_map`: where every item can be read, all are.
* `mapM_map_eq_pure`, `mapM_map`: what is written item by item is read back item by item.
* `mapM_eq_none`: one item that cannot be read is enough.
* `mapM_cons_eq_ok`, `exists_mapM_eq_ok_iff`, `mapM_eq_ok_iff`: all are read when each of them is.
* `mem_of_mapM_eq_ok`: what is read of some items is read of one of them.
* `mapM_eq_ok_iff_map`: what is read is what was written.
* `mapM_eq_error_iff`: the first item that cannot be read tells the error.
* `map_of_mapM_eq_ok`: what is read tells what it was read from.
* `exists_map_fst_eq`: what each item has is listed beside it.
* `forall_mem_of_all`: what a test finds of all items.
-/

namespace RecordStore.Lists

theorem mapM_eq_pure_map {m : Type → Type} [Monad m] [LawfulMonad m] {α β : Type} {f : α → m β}
    {g : α → β} :
    ∀ {items : List α}, (∀ a ∈ items, f a = pure (g a)) → items.mapM f = pure (items.map g)
  | [], _ => List.mapM_nil
  | a :: items, h => by
    have ih := mapM_eq_pure_map fun b hb => h b (List.mem_cons_of_mem a hb)
    rw [List.mapM_cons, h a List.mem_cons_self, pure_bind, ih, pure_bind, List.map_cons]

theorem mapM_map_eq_pure {m : Type → Type} [Monad m] [LawfulMonad m] {α β : Type} {f : β → m α}
    {g : α → β} {items : List α} (h : ∀ a ∈ items, f (g a) = pure a) :
    (items.map g).mapM f = pure items := by
  have hm : items.mapM (f ∘ g) = pure (items.map id) := mapM_eq_pure_map h
  rw [List.mapM_map, hm, List.map_id]

theorem mapM_map {α β : Type} {f : β → Option α} {g : α → β} {items : List α}
    (h : ∀ a ∈ items, f (g a) = some a) : (items.map g).mapM f = some items :=
  mapM_map_eq_pure h

theorem mapM_eq_none {f : α → Option β} {a : α} (ha : f a = none) :
    ∀ {items : List α}, a ∈ items → items.mapM f = none
  | b :: items, hm => by
    rcases List.mem_cons.mp hm with rfl | hm
    · simp [ha]
    · cases f b <;> simp [mapM_eq_none ha hm, *]

theorem mapM_cons_eq_ok {f : α → Except ε β} {a : α} {as : List α} {bs : List β} :
    (a :: as).mapM f = .ok bs ↔
      ∃ b more, f a = .ok b ∧ as.mapM f = .ok more ∧ bs = b :: more := by
  rw [List.mapM_cons]
  cases hb : f a with
  | error e => simp [bind, Except.bind]
  | ok b =>
    cases hs : as.mapM f with
    | error e => simp [bind, Except.bind]
    | ok more => simp [bind, Except.bind, pure, Except.pure, eq_comm]

/-- All are read when each of them is. -/
theorem exists_mapM_eq_ok_iff {ε α β : Type} {f : α → Except ε β} {as : List α} :
    (∃ bs, as.mapM f = .ok bs) ↔ ∀ a ∈ as, ∃ b, f a = .ok b := by
  induction as with
  | nil => exact ⟨fun _ => List.forall_mem_nil _, fun _ => ⟨[], rfl⟩⟩
  | cons a as ih =>
    rw [List.forall_mem_cons, ← ih]
    constructor
    · rintro ⟨_, h⟩
      obtain ⟨b, bs, hb, hbs, -⟩ := mapM_cons_eq_ok.mp h
      exact ⟨⟨b, hb⟩, bs, hbs⟩
    · rintro ⟨⟨b, hb⟩, bs, hbs⟩
      exact ⟨b :: bs, mapM_cons_eq_ok.mpr ⟨b, bs, hb, hbs, rfl⟩⟩

/-- What is read of some items is read of one of them. -/
theorem mem_of_mapM_eq_ok {ε α β : Type} {f : α → Except ε β} {as : List α} {bs : List β} {b : β}
    (h : as.mapM f = .ok bs) : b ∈ bs ↔ ∃ a ∈ as, f a = .ok b := by
  induction as generalizing bs with
  | nil =>
    cases h
    simp
  | cons a as ih =>
    obtain ⟨first, more, hfirst, hmore, rfl⟩ := mapM_cons_eq_ok.mp h
    simp only [List.mem_cons, ih hmore, exists_eq_or_imp, hfirst, Except.ok.injEq, @eq_comm β b]

/-- Where a reading can give one result only, all are read when each gives this. -/
theorem mapM_eq_ok_iff {ε α β : Type} {f : α → Except ε β} {g : α → β}
    (h : ∀ {a b}, f a = .ok b → b = g a) {as : List α} {bs : List β} :
    as.mapM f = .ok bs ↔ (∀ a ∈ as, f a = .ok (g a)) ∧ bs = as.map g := by
  constructor
  · intro hm
    induction as generalizing bs with
    | nil =>
      cases hm
      exact ⟨List.forall_mem_nil _, rfl⟩
    | cons a as ih =>
      obtain ⟨b, more, hb, hs, rfl⟩ := mapM_cons_eq_ok.mp hm
      obtain ⟨hall, rfl⟩ := ih hs
      obtain rfl := h hb
      exact ⟨List.forall_mem_cons.mpr ⟨hb, hall⟩, rfl⟩
  · rintro ⟨hall, rfl⟩
    exact mapM_eq_pure_map (m := Except ε) hall

/-- Where a reading takes back a writing, all are read just when they are as written. -/
theorem mapM_eq_ok_iff_map {ε α β : Type} {f : α → Except ε β} {g : β → α} {P : β → Prop} :
    ∀ {as : List α} {bs : List β}, (∀ a ∈ as, ∀ b, f a = .ok b ↔ P b ∧ a = g b) →
      (as.mapM f = .ok bs ↔ (∀ b ∈ bs, P b) ∧ as = bs.map g)
  | [], bs, _ => by
    constructor
    · intro hm
      cases hm
      exact ⟨List.forall_mem_nil _, rfl⟩
    · rintro ⟨-, hnil⟩
      obtain rfl := List.map_eq_nil_iff.mp hnil.symm
      rfl
  | a :: as, bs, h => by
    obtain ⟨ha, has⟩ := List.forall_mem_cons.mp h
    rw [mapM_cons_eq_ok]
    constructor
    · rintro ⟨b, more, hb, hs, rfl⟩
      obtain ⟨hP, rfl⟩ := (ha b).mp hb
      obtain ⟨hall, rfl⟩ := (mapM_eq_ok_iff_map has).mp hs
      exact ⟨List.forall_mem_cons.mpr ⟨hP, hall⟩, rfl⟩
    · rintro ⟨hall, heq⟩
      obtain ⟨b, more, rfl, rfl, rfl⟩ := List.map_eq_cons_iff.mp heq.symm
      obtain ⟨hP, hall⟩ := List.forall_mem_cons.mp hall
      exact ⟨b, more, (ha b).mpr ⟨hP, rfl⟩, (mapM_eq_ok_iff_map has).mpr ⟨hall, rfl⟩, rfl⟩

/-- Reading fails with the error of the first item that cannot be read. -/
theorem mapM_eq_error_iff {ε α β : Type} {f : α → Except ε β} {e : ε} {as : List α} :
    as.mapM f = .error e ↔
      ∃ before a after bs, as = before ++ a :: after ∧ before.mapM f = .ok bs ∧ f a = .error e := by
  constructor
  · intro h
    induction as with
    | nil => cases h
    | cons a as ih =>
      rw [List.mapM_cons] at h
      cases ha : f a with
      | error e' =>
        rw [ha] at h
        cases h
        exact ⟨[], a, as, [], rfl, rfl, ha⟩
      | ok b =>
        cases hs : as.mapM f with
        | error e' =>
          rw [ha, hs] at h
          cases h
          obtain ⟨before, a', after, bs, rfl, hbefore, ha'⟩ := ih hs
          exact ⟨a :: before, a', after, b :: bs, rfl,
            mapM_cons_eq_ok.mpr ⟨b, bs, ha, hbefore, rfl⟩, ha'⟩
        | ok bs =>
          rw [ha, hs] at h
          cases h
  · rintro ⟨before, a, after, bs, rfl, hbefore, ha⟩
    rw [List.mapM_append, hbefore, List.mapM_cons, ha]
    rfl

theorem map_of_mapM_eq_ok {f : α → Except ε β} {g : β → α} (h : ∀ {a b}, f a = .ok b → g b = a) :
    ∀ {as : List α} {bs : List β}, as.mapM f = .ok bs → bs.map g = as
  | [], bs, hm => by
    cases hm
    rfl
  | a :: as, bs, hm => by
    obtain ⟨b, more, hb, hs, rfl⟩ := mapM_cons_eq_ok.mp hm
    rw [List.map_cons, h hb, map_of_mapM_eq_ok h hs]

/-- What each item has is listed beside it. -/
theorem exists_map_fst_eq {α β : Type} {P : α → β → Prop} {as : List α}
    (h : ∀ a ∈ as, ∃ b, P a b) :
    ∃ pairs : List (α × β), pairs.map (·.1) = as ∧ ∀ p ∈ pairs, P p.1 p.2 := by
  induction as with
  | nil => exact ⟨[], rfl, List.forall_mem_nil _⟩
  | cons a as ih =>
    obtain ⟨b, hb⟩ := h a List.mem_cons_self
    obtain ⟨pairs, rfl, hp⟩ := ih fun c hc => h c (List.mem_cons_of_mem a hc)
    exact ⟨(a, b) :: pairs, rfl, List.forall_mem_cons.mpr ⟨hb, hp⟩⟩

/-- What a test finds of all items. -/
theorem forall_mem_of_all {α : Type} {P : α → Prop} [DecidablePred P] {as : List α}
    (h : (as.all fun a => P a) = true) : ∀ a ∈ as, P a :=
  fun a ha => of_decide_eq_true (List.all_eq_true.mp h a ha)

end RecordStore.Lists
