import RecordStore.Proofs.Anonymous
import RecordStore.Proofs.Server.Run

/-!
# Clients with keys of their own

A request that is about a key is answered from the record of this key and changes no other. So
clients whose requests are about different keys do not notice each other: in whatever order their
requests come, each is answered as if it were alone, and each key ends as its own client leaves it.

* `get?_answer_of_ne`, `answer_congr`: **what a request changes, and what it is answered from.**
* `Schedule`, `turns`, `Interleaves`: requests of several clients in one order.
* `Server.serve`, `Server.served`: what is answered, and the server afterwards.
* `turns_serve`: what one client sees and leaves, in a schedule in which the others are on other
  keys. `get?_served_of_owns`, `get?_served_of_not_owns`: the records that a schedule leaves.
* `clients_apart`: **any two orders answer each client alike and leave the same records**, but for
  the ids of new ones.
-/

namespace RecordStore

namespace Request

@[simp]
theorem key?_anonymous (request : Request) : request.anonymous.key? = request.key? := by
  cases request <;> rfl

end Request

namespace Container

variable {c d : Container} {key : String} {request : Request}

/-! ## One request -/

/-- **A request changes no key but the one that it is about.** -/
theorem get?_answer_of_ne (hk : request.key? = some key) {other : String} (ho : other ≠ key)
    (c : Container) : (c.answer request).2.get? other = c.get? other := by
  rcases c.answer_cases request with ⟨e, he⟩ | ⟨reply, after, he, ha⟩
  · rw [he]
  · rw [he]
    cases ha with
    | read => rfl
    | delete k =>
      obtain rfl : k = key := Option.some.inj hk
      rw [get?_erase, if_neg ho.symm]
    | _ =>
      cases hk
      exact get?_insert_of_ne ho.symm c _

theorem require_congr (h : c.get? key = d.get? key) : c.require key = d.require key := by
  rw [require, require, h]

theorem update_congr (h : c.get? key = d.get? key) {α : Type}
    (change : Record → Except StoreError α × Record) :
    (c.update key change).1 = (d.update key change).1 ∧
      (c.update key change).2.get? key = (d.update key change).2.get? key := by
  unfold update modify
  rw [h]
  cases checkKey key with
  | error e => exact ⟨rfl, h⟩
  | ok u =>
    cases d.get? key with
    | none => exact ⟨rfl, h⟩
    | some r => exact ⟨rfl, by rw [get?_insert_self, get?_insert_self]⟩

theorem upsert_congr (h : c.get? key = d.get? key) {α : Type}
    (create : Unit → Except StoreError (Record × α))
    (change : Record → Except StoreError α × Record) :
    (c.upsert key create change).1 = (d.upsert key create change).1 ∧
      (c.upsert key create change).2.get? key = (d.upsert key create change).2.get? key := by
  unfold upsert
  rw [h]
  cases checkKey key with
  | error e => exact ⟨rfl, h⟩
  | ok u =>
    cases d.get? key with
    | some r => exact ⟨rfl, by rw [get?_insert_self, get?_insert_self]⟩
    | none =>
      cases create () with
      | error e => exact ⟨rfl, h⟩
      | ok made =>
        obtain ⟨r, answer⟩ := made
        dsimp only
        cases checkEntry key r with
        | error e => exact ⟨rfl, h⟩
        | ok u => exact ⟨rfl, by rw [get?_insert_self, get?_insert_self]⟩

/-- **A request is answered from the record of its key**, and so is what becomes of this. -/
theorem answer_congr (hk : request.key? = some key) (h : c.get? key = d.get? key) :
    (c.answer request).1 = (d.answer request).1 ∧
      (c.answer request).2.get? key = (d.answer request).2.get? key := by
  cases request <;> cases hk
  case get => exact ⟨by rw [answer, answer, require_congr h], h⟩
  case getMetadata => exact ⟨by rw [answer, answer, require_congr h], h⟩
  case listMetadata => exact ⟨by rw [answer, answer, require_congr h], h⟩
  case set => exact upsert_congr h _ _
  case setMetadata => exact update_congr h _
  case deleteMetadata => exact update_congr h _
  case delete =>
    rw [answer, answer, require_congr h]
    cases d.require key with
    | error e => exact ⟨rfl, h⟩
    | ok r => exact ⟨rfl, by rw [get?_erase, get?_erase, if_pos rfl, if_pos rfl]⟩

/-- Requests about other keys leave a key as it is. -/
theorem get?_answerAll_of_ne {requests : List Request}
    (h : ∀ request ∈ requests, ∃ k, request.key? = some k ∧ key ≠ k) (c : Container) :
    (answerAll requests c).get? key = c.get? key := by
  induction requests generalizing c with
  | nil => rfl
  | cons request requests ih =>
    obtain ⟨⟨k, hk, hne⟩, hs⟩ := List.forall_mem_cons.mp h
    exact (ih hs _).trans (get?_answer_of_ne hk hne c)

end Container

/-! ## Requests of several clients -/

/-- Items of several clients in one order, each with the client whose it is. -/
abbrev Schedule (ι α : Type) : Type := List (ι × α)

section Clients

variable {ι α : Type} [DecidableEq ι]

/-- The items of one client. -/
def turns (i : ι) (schedule : Schedule ι α) : List α :=
  schedule.filterMap fun turn => if turn.1 = i then some turn.2 else none

@[simp]
theorem turns_cons_self (i : ι) (a : α) (schedule : Schedule ι α) :
    turns i ((i, a) :: schedule) = a :: turns i schedule := by
  simp [turns]

theorem turns_cons_of_ne {i j : ι} (h : j ≠ i) (a : α) (schedule : Schedule ι α) :
    turns i ((j, a) :: schedule) = turns i schedule := by
  simp [turns, h]

theorem mem_turns {turn : ι × α} {schedule : Schedule ι α} (h : turn ∈ schedule) :
    turn.2 ∈ turns turn.1 schedule :=
  List.mem_filterMap.mpr ⟨turn, h, if_pos rfl⟩

/-- That a schedule has the requests of each client, in its order. New records may be given any
ids. -/
def Interleaves (clients : ι → List Request) (schedule : Schedule ι Request) : Prop :=
  ∀ i, (turns i schedule).map Request.anonymous = (clients i).map Request.anonymous

omit [DecidableEq ι] in
/-- That every request is about a key, and those of different clients are about different keys. -/
structure OnOwnKeys (clients : ι → List Request) : Prop where
  keyed : ∀ i, ∀ request ∈ clients i, request.key?.isSome = true
  disjoint : ∀ i j, i ≠ j → ∀ a ∈ clients i, ∀ b ∈ clients j, a.key? ≠ b.key?

/-- The keys of a client. -/
def Owns (requests : List Request) (key : String) : Prop :=
  ∃ request ∈ requests, request.key? = some key

variable {clients : ι → List Request} {schedule : Schedule ι Request} {i : ι}

/-- Every request in a schedule is about a key of its client. -/
theorem Interleaves.exists_key (h : Interleaves clients schedule) (hc : OnOwnKeys clients)
    {turn : ι × Request} (ht : turn ∈ schedule) :
    ∃ key, turn.2.key? = some key ∧ Owns (clients turn.1) key := by
  have hm : turn.2.anonymous ∈ (clients turn.1).map Request.anonymous :=
    h turn.1 ▸ List.mem_map_of_mem (mem_turns ht)
  obtain ⟨request, hr, he⟩ := List.mem_map.mp hm
  obtain ⟨key, hk⟩ := Option.isSome_iff_exists.mp (hc.keyed turn.1 request hr)
  refine ⟨key, ?_, request, hr, hk⟩
  rw [← Request.key?_anonymous, ← he, Request.key?_anonymous, hk]

omit [DecidableEq ι] in
/-- No key belongs to two clients. -/
theorem OnOwnKeys.not_owns (hc : OnOwnKeys clients) {j : ι} (hij : i ≠ j) {key : String}
    (hk : Owns (clients i) key) : ¬ Owns (clients j) key := by
  rintro ⟨b, hb, hkb⟩
  obtain ⟨a, ha, hka⟩ := hk
  exact hc.disjoint i j hij a ha b hb (hka.trans hkb.symm)

end Clients

namespace Server

variable {σ ι : Type} {s : Server σ}

/-- What some requests are answered one after the other. -/
def serve : Schedule ι Request → Server σ → Schedule ι (Except StoreError Reply)
  | [], _ => []
  | (i, request) :: schedule, s =>
    (i, (s.handle request).result) :: serve schedule (s.handle request).state

/-- The server afterwards. -/
def served (schedule : Schedule ι Request) (s : Server σ) : Server σ :=
  schedule.foldl (fun s turn => (s.handle turn.2).state) s

theorem container_served (hs : s.state = .running) (schedule : Schedule ι Request) :
    (s.served schedule).container = s.container.answerAll (schedule.map Prod.snd) := by
  induction schedule generalizing s with
  | nil => rfl
  | cons turn schedule ih =>
    have hstate := (handle_of_running hs turn.2).2
    rw [served, List.foldl_cons, hstate]
    exact ih hs

variable [DecidableEq ι] {clients : ι → List Request} {schedule : Schedule ι Request} {i : ι}

/-- **What one client is answered and what becomes of its keys**, in a schedule in which the others
are on other keys, is as if only its own requests were made. -/
theorem turns_serve {K : String → Prop}
    (hown : ∀ turn ∈ schedule, turn.1 = i → ∃ key, turn.2.key? = some key ∧ K key)
    (hother : ∀ turn ∈ schedule, turn.1 ≠ i → ∃ key, turn.2.key? = some key ∧ ¬ K key)
    (hs : s.state = .running) {c : Container}
    (hc : ∀ key, K key → s.container.get? key = c.get? key) :
    turns i (s.serve schedule) = c.answers (turns i schedule) ∧
      ∀ key, K key → (s.served schedule).container.get? key =
        (c.answerAll (turns i schedule)).get? key := by
  induction schedule generalizing s c with
  | nil => exact ⟨rfl, hc⟩
  | cons turn schedule ih =>
    obtain ⟨j, request⟩ := turn
    obtain ⟨howner, hown⟩ := List.forall_mem_cons.mp hown
    obtain ⟨hforeign, hother⟩ := List.forall_mem_cons.mp hother
    obtain ⟨hresult, hstate⟩ := handle_of_running hs request
    rw [serve, served, List.foldl_cons, hresult, hstate]
    by_cases hj : j = i
    · -- A turn of the client: both containers change in the same way.
      subst hj
      obtain ⟨key, hk, hkey⟩ := howner rfl
      obtain ⟨hanswer, hafter⟩ := Container.answer_congr hk (hc key hkey)
      have hc' : ∀ k, K k → (s.container.answer request).2.get? k =
          (c.answer request).2.get? k := by
        intro k hkk
        by_cases h : k = key
        · rw [h, hafter]
        · rw [Container.get?_answer_of_ne hk h, Container.get?_answer_of_ne hk h, hc k hkk]
      obtain ⟨ha, hg⟩ := ih hown hother
        (s := { s with container := (s.container.answer request).2 }) hs hc'
      rw [turns_cons_self, turns_cons_self, Container.answers, ha, hanswer]
      exact ⟨rfl, hg⟩
    · -- A turn of another: nothing is seen of it.
      obtain ⟨key, hk, hkey⟩ := hforeign hj
      have hc' : ∀ k, K k → (s.container.answer request).2.get? k = c.get? k := by
        intro k hkk
        rw [Container.get?_answer_of_ne hk (fun h => hkey (h ▸ hkk)), hc k hkk]
      rw [turns_cons_of_ne hj, turns_cons_of_ne hj]
      exact ih hown hother (s := { s with container := (s.container.answer request).2 }) hs hc'

/-- A client alone is answered from the records. -/
theorem turns_serve_alone (hs : s.state = .running) (i : ι) (requests : List Request) :
    turns i (s.serve (requests.map (i, ·))) = s.container.answers requests := by
  induction requests generalizing s with
  | nil => rfl
  | cons request requests ih =>
    obtain ⟨hresult, hstate⟩ := handle_of_running hs request
    rw [List.map_cons, serve, turns_cons_self, hresult, hstate, Container.answers]
    rw [ih (s := { s with container := (s.container.answer request).2 }) hs]

section Apart

variable (h : Interleaves clients schedule) (hc : OnOwnKeys clients) (hs : s.state = .running)
include h hc hs

/-- What a client sees and leaves when it takes turns with others. -/
theorem turns_serve_of_interleaves (i : ι) :
    turns i (s.serve schedule) = s.container.answers (turns i schedule) ∧
      ∀ key, Owns (clients i) key → (s.served schedule).container.get? key =
        (s.container.answerAll (turns i schedule)).get? key := by
  refine turns_serve (fun turn ht hi => ?_) (fun turn ht hi => ?_) hs fun _ _ => rfl
  · rw [← hi]
    exact h.exists_key hc ht
  · obtain ⟨key, hk, ho⟩ := h.exists_key hc ht
    exact ⟨key, hk, hc.not_owns hi ho⟩

/-- Each key ends as its client alone leaves it, but for the ids, -/
theorem get?_served_of_owns {key : String} (hk : Owns (clients i) key) :
    (s.served schedule).container.anonymous.get? key =
      ((s.container.answerAll (clients i)).anonymous).get? key := by
  rw [← (Container.answers_congr (h i) s.container).2, Container.get?_anonymous,
    Container.get?_anonymous, (turns_serve_of_interleaves h hc hs i).2 key hk]

/-- and a key of none as it was. -/
theorem get?_served_of_not_owns {key : String} (hk : ∀ i, ¬ Owns (clients i) key) :
    (s.served schedule).container.get? key = s.container.get? key := by
  rw [container_served hs]
  refine Container.get?_answerAll_of_ne (fun request hm => ?_) s.container
  obtain ⟨turn, ht, rfl⟩ := List.mem_map.mp hm
  obtain ⟨k, hk', ho⟩ := h.exists_key hc ht
  exact ⟨k, hk', fun he => hk turn.1 (he ▸ ho)⟩

omit hc hs in
/-- A key that no client deletes is not deleted in a schedule of theirs. -/
theorem delete_not_mem_of_interleaves {key : String} (hd : ∀ i, .delete key ∉ clients i) :
    .delete key ∉ schedule.map Prod.snd := by
  intro hm
  obtain ⟨turn, ht, hdelete⟩ := List.mem_map.mp hm
  refine hd turn.1 ?_
  rw [← Container.delete_mem_map_anonymous, ← h turn.1, Container.delete_mem_map_anonymous,
    ← hdelete]
  exact mem_turns ht

omit h in
/-- **Clients with keys of their own do not notice each other.** In any order of their requests each
is answered as if it were alone, errors included, and any two orders leave the same records. They
differ in ids at most, and not in the id of a record that was there before and was not deleted. -/
theorem clients_apart {first : Schedule ι Request} (hfirst : Interleaves clients first) :
    (∀ i, turns i (s.serve first) = turns i (s.serve ((clients i).map (i, ·)))) ∧
    (∀ second, Interleaves clients second →
      (s.served second).container.anonymous = (s.served first).container.anonymous) ∧
    ∀ key r, s.container.get? key = some r → (∀ i, .delete key ∉ clients i) →
      ∃ r', (s.served first).container.get? key = some r' ∧ r'.id = r.id := by
  refine ⟨fun i => ?_, fun second hsecond => ?_, fun key r hr hd => ?_⟩
  · rw [(turns_serve_of_interleaves hfirst hc hs i).1, turns_serve_alone hs,
      (Container.answers_congr (hfirst i) s.container).1]
  · refine Container.ext_get? fun key => ?_
    by_cases hk : ∃ i, Owns (clients i) key
    · obtain ⟨i, hk⟩ := hk
      rw [get?_served_of_owns hsecond hc hs hk, get?_served_of_owns hfirst hc hs hk]
    · have hk := not_exists.mp hk
      rw [Container.get?_anonymous, Container.get?_anonymous,
        get?_served_of_not_owns hsecond hc hs hk, get?_served_of_not_owns hfirst hc hs hk]
  · rw [container_served hs]
    exact Container.exists_get?_answerAll hr (delete_not_mem_of_interleaves hfirst hd)

end Apart

/-- A running server over memory, with one record. -/
def trialShared : Server MemoryStore :=
  { container := (∅ : Container).insert "c" ⟨default, "c", .single [0], ∅⟩
    storage := ∅, state := .running, kind := .memory, period := 0 }

/-- One client creates a record and asks for what it has not, the other replaces one. -/
def trialClients : Bool → List Request
  | false => [.set "a" [1] default, .get "a" (.number 1), .deleteMetadata "a" "b"]
  | true => [.delete "c", .set "c" [2] default]

/-- They take turns, and the new record gets an id of its own. -/
def trialTurns : Schedule Bool Request :=
  [(true, .delete "c"), (false, .set "a" [1] default), (false, .get "a" (.number 1)),
    (true, .set "c" [2] ⟨List.replicate 32 1, rfl⟩), (false, .deleteMetadata "a" "b")]

/-- The first client is told that it has one value and no entry, and the records are those that
are left when the second client comes last. -/
theorem clients_apart_trial :
    OnOwnKeys trialClients ∧ Interleaves trialClients trialTurns ∧
    turns false (trialShared.serve trialTurns) =
      [.ok (.version 0), .error (.outOfRange 1 1), .error (.metadataKeyNotFound "a" "b")] ∧
    (trialShared.served trialTurns).container.anonymous =
      (trialShared.served ((trialClients false).map (false, ·) ++
        (trialClients true).map (true, ·))).container.anonymous := by
  have hc : OnOwnKeys trialClients := ⟨by decide +kernel, by decide +kernel⟩
  have hturns : Interleaves trialClients trialTurns := fun i => by cases i <;> decide +kernel
  have hlast : Interleaves trialClients ((trialClients false).map (false, ·) ++
      (trialClients true).map (true, ·)) := fun i => by cases i <;> decide +kernel
  have halone : turns false (trialShared.serve ((trialClients false).map (false, ·))) =
      [.ok (.version 0), .error (.outOfRange 1 1), .error (.metadataKeyNotFound "a" "b")] := by
    decide +kernel
  obtain ⟨hanswers, -, -⟩ := clients_apart (s := trialShared) hc rfl hturns
  obtain ⟨-, hrecords, -⟩ := clients_apart (s := trialShared) hc rfl hlast
  exact ⟨hc, hturns, (hanswers false).trans halone, hrecords trialTurns hturns⟩

end Server

end RecordStore
