import Mathlib.Data.List.Basic
import RecordStore.Proofs.Container
import RecordStore.Request

/-!
# What answered requests make of the records

A request that is refused changes nothing, and one that is answered changes its own key at most. So
what has become of a record since some time is told by the requests that were answered since: which
values it was given, how often it was changed, and what was done to its metadata.

* `Request.key?`: the key that a request is about. Searches are about none.
* `Answered`: what a request that is answered does. `answered_of_ok`: there is nothing else.
* `Transcript.written`, `changes`, `entry`: what a key was given, and how often.
* `Grown`: that a record has become another by what was answered. `grown_answer` is the step.
-/

namespace RecordStore

/-- The requests that were answered, in order, each with its reply. -/
abbrev Transcript : Type := List (Request × Reply)

namespace Request

/-- The key that a request is about, if it is about one. -/
def key? : Request → Option String
  | get key _ => some key
  | set key _ _ => some key
  | delete key => some key
  | setMetadata key _ _ => some key
  | getMetadata key _ => some key
  | deleteMetadata key _ => some key
  | listMetadata key => some key
  | find _ => none
  | findByMetadata _ => none

/-- Whether a request asks for no change. -/
def reads : Request → Bool
  | set .. => false
  | delete .. => false
  | setMetadata .. => false
  | deleteMetadata .. => false
  | _ => true

/-- Whether a request changes the record of a key when it is answered and the record stays. -/
def changes (key : String) : Request → Bool
  | set k _ _ => k = key
  | setMetadata k _ _ => k = key
  | deleteMetadata k _ => k = key
  | _ => false

/-- The value that a request gives to a key. -/
def written? (key : String) : Request → Option Bytes
  | set k value _ => if k = key then some value else none
  | _ => none

/-- What becomes of a metadata entry of a key. -/
def entry (key name : String) (value : Option String) : Request → Option String
  | setMetadata k n new => if k = key ∧ n = name then some new else value
  | deleteMetadata k n => if k = key ∧ n = name then none else value
  | _ => value

end Request

namespace Transcript

/-- The values that a key was given. -/
def written (key : String) (log : Transcript) : List Bytes :=
  log.filterMap fun e => e.1.written? key

/-- How often the record of a key was changed. -/
def changes (key : String) (log : Transcript) : Nat := log.countP fun e => e.1.changes key

/-- What a metadata entry of a key was last set to, if it was not deleted since, from what it was at
first. -/
def entry (key name : String) (first : Option String) (log : Transcript) : Option String :=
  log.foldl (fun value e => e.1.entry key name value) first

/-- That no request has deleted a key. -/
def Keeps (key : String) (log : Transcript) : Prop := ∀ e ∈ log, e.1 ≠ .delete key

end Transcript

open Transcript (written changes entry Keeps)

namespace Container

/-! ## What an answered request does -/

/-- What is done to the container by a request that is answered. -/
inductive Answered (c : Container) : Request → Reply → Container → Prop
  | read (request : Request) (reply : Reply) (reads : request.reads = true)
    (answer_eq : c.answer request = (.ok reply, c)) : Answered c request reply c
  | create (key : String) (value : Bytes) (fresh : Id) (ne : key ≠ "")
    (absent : c.get? key = none) :
    Answered c (.set key value fresh) (.version 0) (c.insert key ⟨fresh, key, .single value, ∅⟩)
  | append (key : String) (value : Bytes) (fresh : Id) (r : Record) (held : c.get? key = some r) :
    Answered c (.set key value fresh) (.version r.history.length) (c.insert key (r.update value))
  | delete (key : String) (r : Record) (held : c.get? key = some r) :
    Answered c (.delete key) .done (c.erase key)
  | setMetadata (key name value : String) (r r' : Record) (held : c.get? key = some r)
    (set_eq : r.setMetadata name value = .ok r') :
    Answered c (.setMetadata key name value) (.counter r'.metadata.counter) (c.insert key r')
  | deleteMetadata (key name : String) (r r' : Record) (held : c.get? key = some r)
    (delete_eq : r.deleteMetadata name = .ok r') :
    Answered c (.deleteMetadata key name) (.counter r'.metadata.counter) (c.insert key r')

variable {c : Container} {key : String} {r : Record} {request : Request} {reply : Reply}

theorem require_of_get? (hk : key ≠ "") (h : c.get? key = some r) : c.require key = .ok r := by
  simp [require, Record.checkKey_of_ne hk, h, bind, Except.bind, pure, Except.pure]

theorem require_of_get?_none (hk : key ≠ "") (h : c.get? key = none) :
    c.require key = .error (.keyNotFound key) := by
  simp [require, Record.checkKey_of_ne hk, h, bind, Except.bind, throw, throwThe,
    MonadExceptOf.throw]

theorem checkKey_cases (key : String) :
    (key = "" ∧ checkKey key = .error .emptyKey) ∨ (key ≠ "" ∧ checkKey key = .ok ()) := by
  by_cases h : key = ""
  · exact .inl ⟨h, by simp [checkKey, h]⟩
  · exact .inr ⟨h, Record.checkKey_of_ne h⟩

theorem require_cases (c : Container) (key : String) :
    (∃ e, c.require key = .error e) ∨
      ∃ r, key ≠ "" ∧ c.get? key = some r ∧ c.require key = .ok r := by
  rcases checkKey_cases key with ⟨-, hk⟩ | ⟨hk, -⟩
  · exact .inl ⟨.emptyKey, by simp [require, hk, bind, Except.bind]⟩
  · cases h : c.get? key with
    | none => exact .inl ⟨_, require_of_get?_none hk h⟩
    | some r => exact .inr ⟨r, hk, rfl, require_of_get? hk h⟩

/-- A change that may be refused is made or changes nothing. -/
theorem update_counted_cases (c : Container) (key : String)
    (change : Record → Except StoreError Record) :
    (∃ e, c.update key (counted change) = (.error e, c)) ∨
    ∃ r r', c.get? key = some r ∧ change r = .ok r' ∧
      c.update key (counted change) = (.ok (.counter r'.metadata.counter), c.insert key r') := by
  rcases checkKey_cases key with ⟨-, hk⟩ | ⟨-, hk⟩
  · exact .inl ⟨.emptyKey, by rw [update, hk]⟩
  · cases h : c.get? key with
    | none => exact .inl ⟨.keyNotFound key, by simp only [update, hk, modify, h]⟩
    | some r =>
      cases hc : change r with
      | error e =>
        refine .inl ⟨e, ?_⟩
        simp only [update, hk, modify, h, counted, hc, insert_of_get? h]
      | ok r' =>
        refine .inr ⟨r, r', rfl, hc, ?_⟩
        simp only [update, hk, modify, h, counted, hc]

theorem create_eq {fresh : Id} {value : Bytes} (hk : key ≠ "") :
    Record.create fresh key value = .ok ⟨fresh, key, .single value, ∅⟩ := by
  simp [Record.create, Record.checkKey_of_ne hk, bind, Except.bind, pure, Except.pure]

/-- **A request is refused and changes nothing, or it is answered and does what it should.** -/
theorem answer_cases (c : Container) (request : Request) :
    (∃ e, c.answer request = (.error e, c)) ∨
    ∃ reply after, c.answer request = (.ok reply, after) ∧ Answered c request reply after := by
  have hread : ∀ {request : Request}, request.reads = true → ∀ result : Except StoreError Reply,
      c.answer request = (result, c) → (∃ e, c.answer request = (.error e, c)) ∨
        ∃ reply after, c.answer request = (.ok reply, after) ∧
          Answered c request reply after := by
    intro request hr result h
    cases result with
    | error e => exact .inl ⟨e, h⟩
    | ok reply => exact .inr ⟨reply, c, h, .read _ _ hr h⟩
  cases request with
  | get key version => exact hread rfl _ rfl
  | getMetadata key name => exact hread rfl _ rfl
  | listMetadata key => exact hread rfl _ rfl
  | find start => exact hread rfl _ rfl
  | findByMetadata query => exact hread rfl _ rfl
  | set key value fresh =>
    rcases checkKey_cases key with ⟨-, hk⟩ | ⟨hne, hk⟩
    · exact .inl ⟨.emptyKey, by rw [answer, upsert, hk]⟩
    · cases h : c.get? key with
      | none =>
        refine .inr ⟨_, _, ?_, .create key value fresh hne h⟩
        simp only [answer, upsert, hk, h, create_eq hne, Except.map, checkEntry, if_true]
      | some r =>
        refine .inr ⟨_, _, ?_, .append key value fresh r h⟩
        simp only [answer, upsert, hk, h, Record.update, History.current_append]
  | delete key =>
    rcases c.require_cases key with ⟨e, h⟩ | ⟨r, -, hr, h⟩
    · exact .inl ⟨e, by rw [answer, h]⟩
    · exact .inr ⟨.done, c.erase key, by rw [answer, h], .delete key r hr⟩
  | setMetadata key name value =>
    rcases c.update_counted_cases key fun r => r.setMetadata name value
      with h | ⟨r, r', hr, hs, h⟩
    · exact .inl h
    · exact .inr ⟨_, _, h, .setMetadata key name value r r' hr hs⟩
  | deleteMetadata key name =>
    rcases c.update_counted_cases key fun r => r.deleteMetadata name with h | ⟨r, r', hr, hs, h⟩
    · exact .inl h
    · exact .inr ⟨_, _, h, .deleteMetadata key name r r' hr hs⟩

theorem answered_of_ok (h : (c.answer request).1 = .ok reply) :
    Answered c request reply (c.answer request).2 := by
  rcases c.answer_cases request with ⟨e, he⟩ | ⟨reply', after, he, ha⟩
  · rw [he] at h
    cases h
  · rw [he] at h ⊢
    cases h
    exact ha

/-- A value that is taken is the first of its key, or comes behind those that the key has. -/
theorem answer_set_cases {value : Bytes} {fresh : Id}
    (h : (c.answer (.set key value fresh)).1 = .ok reply) :
    (c.get? key = none ∧ reply = .version 0 ∧
      (c.answer (.set key value fresh)).2 = c.insert key ⟨fresh, key, .single value, ∅⟩) ∨
    ∃ r, c.get? key = some r ∧ reply = .version r.history.length ∧
      (c.answer (.set key value fresh)).2 = c.insert key (r.update value) := by
  have ha := answered_of_ok h
  generalize (c.answer (.set key value fresh)).2 = after at ha ⊢
  cases ha with
  | read _ _ hq _ => cases hq
  | create _ _ _ _ hnone => exact .inl ⟨hnone, rfl, rfl⟩
  | append _ _ _ r hr => exact .inr ⟨r, hr, rfl, rfl⟩

/-- What is answered to a change of metadata is the counter that it has reached. -/
theorem exists_of_setMetadata {name value : String}
    (h : (c.answer (.setMetadata key name value)).1 = .ok reply) :
    ∃ r r', c.get? key = some r ∧ r.setMetadata name value = .ok r' ∧
      reply = .counter r'.metadata.counter := by
  have ha := answered_of_ok h
  generalize (c.answer (.setMetadata key name value)).2 = after at ha
  cases ha with
  | read _ _ hq _ => cases hq
  | setMetadata _ _ _ r r' hr hs => exact ⟨r, r', hr, hs, rfl⟩

theorem exists_of_deleteMetadata {name : String}
    (h : (c.answer (.deleteMetadata key name)).1 = .ok reply) :
    ∃ r r', c.get? key = some r ∧ r.deleteMetadata name = .ok r' ∧
      reply = .counter r'.metadata.counter := by
  have ha := answered_of_ok h
  generalize (c.answer (.deleteMetadata key name)).2 = after at ha
  cases ha with
  | read _ _ hq _ => cases hq
  | deleteMetadata _ _ r r' hr hs => exact ⟨r, r', hr, hs, rfl⟩

theorem answer_of_error {e : StoreError} (h : (c.answer request).1 = .error e) :
    (c.answer request).2 = c := by
  rcases c.answer_cases request with ⟨e, he⟩ | ⟨reply, after, he, -⟩
  · rw [he]
  · rw [he] at h
    cases h

/-- An answered request keeps every record under its own key. -/
theorem Coherent.answered {after : Container} (hc : c.Coherent)
    (h : Answered c request reply after) : after.Coherent := by
  cases h with
  | read => exact hc
  | create key value fresh hne => exact hc.insert rfl hne
  | append key value fresh r hr => exact hc.replace hr rfl
  | delete key => exact hc.erase key
  | setMetadata key name value r r' hr hs =>
    obtain ⟨m, -, rfl⟩ := Record.setMetadata_cases hs
    exact hc.replace hr rfl
  | deleteMetadata key name r r' hr hs =>
    obtain ⟨m, -, rfl⟩ := Record.deleteMetadata_cases hs
    exact hc.replace hr rfl

theorem Coherent.answer (hc : c.Coherent) (request : Request) : (c.answer request).2.Coherent := by
  rcases c.answer_cases request with ⟨e, he⟩ | ⟨reply, after, he, ha⟩
  · rw [he]
    exact hc
  · rw [he]
    exact hc.answered ha

end Container

/-- **That a record has become another** by what was answered. Its values are those that it had and
those that its key was given, its counter has counted every change, and each metadata entry is as it
was last left. -/
structure Grown (key : String) (log : Transcript) (r r' : Record) : Prop where
  id_eq : r'.id = r.id
  key_eq : r'.key = r.key
  values_eq : r'.history.values = r.history.values ++ written key log
  counter_eq : r'.metadata.counter =
    (r.metadata.counter + changes key log) % 0x10000000000000000
  entries_eq : ∀ name, name ≠ counterName →
    r'.metadata.entries[name]? = entry key name r.metadata.entries[name]? log

namespace Grown

variable {key : String} {log more : Transcript} {r r' r'' : Record}

theorem refl (key : String) (r : Record) : Grown key [] r r := by
  refine ⟨rfl, rfl, (List.append_nil _).symm, ?_, fun _ _ => rfl⟩
  exact (Nat.mod_eq_of_lt r.metadata.counter_lt).symm

theorem trans (h : Grown key log r r') (h' : Grown key more r' r'') :
    Grown key (log ++ more) r r'' := by
  refine ⟨h'.id_eq.trans h.id_eq, h'.key_eq.trans h.key_eq, ?_, ?_, fun name hn => ?_⟩
  · rw [h'.values_eq, h.values_eq, written, written, written, List.filterMap_append,
      List.append_assoc]
  · rw [h'.counter_eq, h.counter_eq, changes, changes, changes, List.countP_append,
      Nat.mod_add_mod, Nat.add_assoc]
  · rw [h'.entries_eq name hn, h.entries_eq name hn, entry, entry, entry, List.foldl_append]

/-- A request that is not about a key changes nothing of its record. -/
theorem of_other {request : Request} (hw : request.written? key = none)
    (hc : request.changes key = false) (he : ∀ name value, request.entry key name value = value)
    (reply : Reply) (r : Record) : Grown key [(request, reply)] r r := by
  refine ⟨rfl, rfl, ?_, ?_, fun name _ => (he name _).symm⟩
  · simp [written, hw]
  · simp [changes, hc, Nat.mod_eq_of_lt r.metadata.counter_lt]

theorem of_read {request : Request} (h : request.reads = true) (key : String) (reply : Reply)
    (r : Record) : Grown key [(request, reply)] r r := by
  cases request with
  | set => cases h
  | delete => cases h
  | setMetadata => cases h
  | deleteMetadata => cases h
  | _ => exact of_other rfl rfl (fun _ _ => rfl) reply r

theorem update (r : Record) (key : String) (value : Bytes) (fresh : Id) (reply : Reply) :
    Grown key [(.set key value fresh, reply)] r (r.update value) := by
  refine ⟨rfl, rfl, ?_, ?_, fun _ _ => rfl⟩
  · simp [written, Request.written?, Record.update, History.append]
  · simp [changes, Request.changes, Record.update, Metadata.bump, Metadata.next]

theorem setMetadata {name value : String} (h : r.setMetadata name value = .ok r')
    (reply : Reply) : Grown key [(.setMetadata key name value, reply)] r r' := by
  obtain ⟨m, hm, rfl⟩ := Record.setMetadata_cases h
  obtain ⟨-, he, hc⟩ := Metadata.set_cases hm
  refine ⟨rfl, rfl, (List.append_nil _).symm, ?_, fun other _ => ?_⟩
  · simp [changes, Request.changes, hc, Metadata.next]
  · simp [entry, Request.entry, he, Std.ExtTreeMap.getElem?_insert]

theorem deleteMetadata {name : String} (h : r.deleteMetadata name = .ok r')
    (reply : Reply) : Grown key [(.deleteMetadata key name, reply)] r r' := by
  obtain ⟨m, hm, rfl⟩ := Record.deleteMetadata_cases h
  obtain ⟨-, he, hc⟩ := Metadata.delete_cases hm
  refine ⟨rfl, rfl, (List.append_nil _).symm, ?_, fun other _ => ?_⟩
  · simp [changes, Request.changes, hc, Metadata.next]
  · simp [entry, Request.entry, he, Std.ExtTreeMap.getElem?_erase]

end Grown

namespace Container

variable {c after : Container} {key : String} {r r' : Record} {request : Request} {reply : Reply}

/-- **A record that is there grows by what is answered**, as long as it is not deleted. -/
theorem grown_answered (h : Answered c request reply after) (hr : c.get? key = some r)
    (hd : request ≠ .delete key) :
    ∃ r', after.get? key = some r' ∧ Grown key [(request, reply)] r r' := by
  cases h with
  | read _ _ hq _ => exact ⟨r, hr, .of_read hq key reply r⟩
  | create k value fresh _ ha =>
    have hk : k ≠ key := by
      rintro rfl
      rw [hr] at ha
      cases ha
    refine ⟨r, (get?_insert_of_ne hk c _).trans hr, .of_other ?_ ?_ (fun _ _ => rfl) _ r⟩
    · exact if_neg hk
    · exact decide_eq_false hk
  | append k value fresh r' hr' =>
    by_cases hk : k = key
    · subst hk
      rw [hr] at hr'
      cases hr'
      exact ⟨_, get?_insert_self c k _, .update r k value fresh _⟩
    · refine ⟨r, (get?_insert_of_ne hk c _).trans hr, .of_other ?_ ?_ (fun _ _ => rfl) _ r⟩
      · exact if_neg hk
      · exact decide_eq_false hk
  | delete k =>
    have hk : k ≠ key := fun hk => hd (congrArg Request.delete hk)
    refine ⟨r, ?_, .of_other rfl rfl (fun _ _ => rfl) _ r⟩
    rw [get?_erase, if_neg hk, hr]
  | setMetadata k name value s s' hs hset =>
    by_cases hk : k = key
    · subst hk
      rw [hr] at hs
      cases hs
      exact ⟨s', get?_insert_self c k s', .setMetadata hset _⟩
    · refine ⟨r, (get?_insert_of_ne hk c _).trans hr, .of_other rfl ?_ (fun _ _ => ?_) _ r⟩
      · exact decide_eq_false hk
      · exact if_neg fun h => hk h.1
  | deleteMetadata k name s s' hs hdel =>
    by_cases hk : k = key
    · subst hk
      rw [hr] at hs
      cases hs
      exact ⟨s', get?_insert_self c k s', .deleteMetadata hdel _⟩
    · refine ⟨r, (get?_insert_of_ne hk c _).trans hr, .of_other rfl ?_ (fun _ _ => ?_) _ r⟩
      · exact decide_eq_false hk
      · exact if_neg fun h => hk h.1

/-- **A record that is there was there before or has just been created.** -/
theorem answered_origin (h : Answered c request reply after) (hr : after.get? key = some r) :
    (∃ r', c.get? key = some r' ∧ request ≠ .delete key) ∨
    c.get? key = none ∧ ∃ value fresh, request = .set key value fresh ∧
      reply = .version 0 ∧ r = ⟨fresh, key, .single value, ∅⟩ := by
  cases hc : c.get? key with
  | some r' =>
    refine .inl ⟨r', rfl, ?_⟩
    rintro rfl
    cases h with
    | read _ _ hq _ => cases hq
    | delete =>
      rw [get?_erase, if_pos rfl] at hr
      cases hr
  | none =>
    have hother : ∀ {k : String} {s s' : Record}, c.get? k = some s →
        (c.insert k s').get? key ≠ some r := by
      intro k s s' hs h
      have hk : k ≠ key := by
        rintro rfl
        rw [hc] at hs
        cases hs
      rw [get?_insert_of_ne hk, hc] at h
      cases h
    cases h with
    | read =>
      rw [hc] at hr
      cases hr
    | create k value fresh _ _ =>
      by_cases hk : k = key
      · subst hk
        rw [get?_insert_self] at hr
        cases hr
        exact .inr ⟨rfl, value, fresh, rfl, rfl, rfl⟩
      · rw [get?_insert_of_ne hk, hc] at hr
        cases hr
    | append k value fresh s hs => exact absurd hr (hother hs)
    | delete k =>
      rw [get?_erase, hc] at hr
      split at hr <;> cases hr
    | setMetadata k name value s s' hs _ => exact absurd hr (hother hs)
    | deleteMetadata k name s s' hs _ => exact absurd hr (hother hs)

end Container

end RecordStore
