import RecordStore.Proofs.Request

/-!
# Ids are not seen

An id comes along with the request that creates a record and is stored with the record. It is never
asked for, and nothing depends on it. So records without their ids answer every request as the
records themselves do, and what becomes of them is what becomes of the records, without the ids.

* `Container.anonymous`, `Request.anonymous`, `Snapshot.anonymous`: what is left without ids.
* `answer_anonymous`: **to drop the ids and to answer a request is to answer it and to drop them.**
* `answers`, `answerAll`: the answers to some requests, and the records after them.
* `answers_congr`: requests that differ in their new ids only are answered alike.
* `exists_get?_answerAll`: a record keeps its id as long as its key is not deleted.
-/

namespace RecordStore

/-- The record without its id. -/
def Record.anonymous (r : Record) : Record := { r with id := default }

namespace Record

theorem setMetadata_anonymous (name value : String) (r : Record) :
    r.anonymous.setMetadata name value = (r.setMetadata name value).map anonymous := by
  have hm : r.anonymous.metadata = r.metadata := rfl
  rw [setMetadata, setMetadata, hm]
  cases r.metadata.set name value <;> rfl

theorem deleteMetadata_anonymous (name : String) (r : Record) :
    r.anonymous.deleteMetadata name = (r.deleteMetadata name).map anonymous := by
  have hm : r.anonymous.metadata = r.metadata := rfl
  rw [deleteMetadata, deleteMetadata, hm]
  cases r.metadata.delete name with
  | error e => rfl
  | ok m => cases m <;> rfl

end Record

/-- The stored record without its id. -/
def Snapshot.anonymous (s : Snapshot) : Snapshot := { s with id := default }

/-- The request without the id that it brings along. -/
def Request.anonymous : Request → Request
  | .set key value _ => .set key value default
  | request => request

namespace Container

/-- The records without their ids. -/
def anonymous (c : Container) : Container := ⟨c.records.map fun _ r => r.anonymous⟩

variable (c : Container) (key : String)

theorem get?_anonymous : c.anonymous.get? key = (c.get? key).map Record.anonymous :=
  Std.ExtTreeMap.getElem?_map

theorem insert_anonymous (r : Record) :
    (c.insert key r).anonymous = c.anonymous.insert key r.anonymous := by
  refine ext_get? fun other => ?_
  rw [get?_anonymous, get?_insert, get?_insert, get?_anonymous]
  split <;> rfl

theorem erase_anonymous : (c.erase key).anonymous = c.anonymous.erase key := by
  refine ext_get? fun other => ?_
  rw [get?_anonymous, get?_erase, get?_erase, get?_anonymous]
  split <;> rfl

theorem keys_anonymous : c.anonymous.keys = c.keys := Std.ExtTreeMap.keys_map

theorem toList_anonymous : c.anonymous.records.toList =
    c.records.toList.map fun entry => (entry.1, entry.2.anonymous) :=
  Std.ExtTreeMap.toList_map

theorem findByMetadata_anonymous (text : String) :
    c.anonymous.findByMetadata text = c.findByMetadata text := by
  unfold findByMetadata
  rw [toList_anonymous]
  simp only [List.filter_map, List.map_map]
  rfl

theorem values_stored_anonymous :
    c.anonymous.stored.values = c.stored.values.map Snapshot.anonymous := by
  rw [← snapshots_eq, ← snapshots_eq, snapshots, snapshots, toList_anonymous, List.map_map,
    List.map_map]
  rfl

theorem require_anonymous :
    c.anonymous.require key = (c.require key).map Record.anonymous := by
  rcases checkKey_cases key with ⟨-, hk⟩ | ⟨hk, -⟩
  · simp [require, hk, bind, Except.bind, Except.map]
  · cases h : c.get? key with
    | none =>
      have ha : c.anonymous.get? key = none := by rw [get?_anonymous, h, Option.map_none]
      rw [require_of_get?_none hk h, require_of_get?_none hk ha]
      rfl
    | some r =>
      have ha : c.anonymous.get? key = some r.anonymous := by
        rw [get?_anonymous, h, Option.map_some]
      rw [require_of_get? hk h, require_of_get? hk ha]
      rfl

/-! ## Changes -/

variable {c key}

/-- A change that does not look at the id of a record. -/
theorem update_anonymous {change : Record → Except StoreError Record}
    (h : ∀ r : Record, change r.anonymous = (change r).map Record.anonymous) :
    c.anonymous.update key (counted change) =
      ((c.update key (counted change)).1, (c.update key (counted change)).2.anonymous) := by
  rcases checkKey_cases key with ⟨-, hk⟩ | ⟨-, hk⟩
  · simp only [update, hk]
  · cases hr : c.get? key with
    | none => simp only [update, hk, modify, get?_anonymous, hr, Option.map_none]
    | some r =>
      simp only [update, hk, modify, get?_anonymous, hr, Option.map_some]
      cases hc : change r with
      | error e => simp only [counted, h, hc, Except.map, insert_anonymous]
      | ok r' =>
        simp only [counted, h, hc, Except.map, insert_anonymous]
        rfl

theorem set_anonymous (value : Bytes) (fresh : Id) :
    c.anonymous.answer (.set key value default) =
      ((c.answer (.set key value fresh)).1, (c.answer (.set key value fresh)).2.anonymous) := by
  rcases checkKey_cases key with ⟨-, hk⟩ | ⟨hne, hk⟩
  · simp only [answer, upsert, hk]
  · cases hr : c.get? key with
    | none =>
      simp only [answer, upsert, hk, get?_anonymous, hr, Option.map_none, create_eq hne, Except.map,
        checkEntry, if_true, insert_anonymous]
      rfl
    | some r =>
      simp only [answer, upsert, hk, get?_anonymous, hr, Option.map_some, insert_anonymous]
      rfl

/-- **To drop the ids and to answer a request is to answer it and to drop them.** -/
theorem answer_anonymous (c : Container) (request : Request) :
    c.anonymous.answer request.anonymous =
      ((c.answer request).1, (c.answer request).2.anonymous) := by
  cases request with
  | get key version =>
    simp only [Request.anonymous, answer, require_anonymous]
    cases c.require key <;> rfl
  | set key value fresh => exact set_anonymous value fresh
  | delete key =>
    simp only [Request.anonymous, answer, require_anonymous]
    cases c.require key with
    | error e => rfl
    | ok r =>
      simp only [Except.map, erase_anonymous]
  | setMetadata key name value => exact update_anonymous (Record.setMetadata_anonymous name value)
  | getMetadata key name =>
    simp only [Request.anonymous, answer, require_anonymous]
    cases c.require key <;> rfl
  | deleteMetadata key name => exact update_anonymous (Record.deleteMetadata_anonymous name)
  | listMetadata key =>
    simp only [Request.anonymous, answer, require_anonymous]
    cases c.require key <;> rfl
  | find start => simp only [Request.anonymous, answer, find, keys_anonymous]
  | findByMetadata query => simp only [Request.anonymous, answer, findByMetadata_anonymous]

/-! ## Runs of requests -/

/-- The records after some requests. -/
def answerAll (requests : List Request) (c : Container) : Container :=
  requests.foldl (fun c request => (c.answer request).2) c

/-- The answers to some requests. -/
def answers : List Request → Container → List (Except StoreError Reply)
  | [], _ => []
  | request :: requests, c => (c.answer request).1 :: answers requests (c.answer request).2

theorem answerAll_anonymous (requests : List Request) (c : Container) :
    answerAll (requests.map Request.anonymous) c.anonymous = (answerAll requests c).anonymous := by
  induction requests generalizing c with
  | nil => rfl
  | cons request requests ih =>
    rw [List.map_cons, answerAll, List.foldl_cons, answer_anonymous]
    exact ih _

theorem answers_anonymous (requests : List Request) (c : Container) :
    answers (requests.map Request.anonymous) c.anonymous = answers requests c := by
  induction requests generalizing c with
  | nil => rfl
  | cons request requests ih => rw [List.map_cons, answers, answers, answer_anonymous, ih]

/-- **Requests that differ in their new ids only are answered alike**, and so are the records that
they leave but for the ids. -/
theorem answers_congr {requests others : List Request}
    (h : others.map Request.anonymous = requests.map Request.anonymous) (c : Container) :
    answers others c = answers requests c ∧
      (answerAll others c).anonymous = (answerAll requests c).anonymous := by
  constructor
  · rw [← answers_anonymous, h, answers_anonymous]
  · rw [← answerAll_anonymous, h, answerAll_anonymous]

theorem Coherent.answerAll {c : Container} (hc : c.Coherent) (requests : List Request) :
    (Container.answerAll requests c).Coherent := by
  induction requests generalizing c with
  | nil => exact hc
  | cons request requests ih => exact ih (hc.answer request)

/-- Requests to delete have no id to drop. -/
theorem delete_mem_map_anonymous {key : String} {requests : List Request} :
    .delete key ∈ requests.map Request.anonymous ↔ .delete key ∈ requests := by
  rw [List.mem_map]
  constructor
  · rintro ⟨request, hm, h⟩
    cases request with
    | delete k =>
      obtain rfl : k = key := Request.delete.inj h
      exact hm
    | _ => cases h
  · intro hm
    exact ⟨_, hm, rfl⟩

/-- **A record keeps its id** as long as its key is not deleted. -/
theorem exists_get?_answerAll {c : Container} {key : String} {r : Record}
    (hr : c.get? key = some r) {requests : List Request} (hd : .delete key ∉ requests) :
    ∃ r', (answerAll requests c).get? key = some r' ∧ r'.id = r.id := by
  induction requests generalizing c r with
  | nil => exact ⟨r, hr, rfl⟩
  | cons request requests ih =>
    obtain ⟨hne, hds⟩ : .delete key ≠ request ∧ .delete key ∉ requests := by
      rwa [List.mem_cons, not_or] at hd
    have hstep : ∃ r₁, (c.answer request).2.get? key = some r₁ ∧ r₁.id = r.id := by
      rcases c.answer_cases request with ⟨e, he⟩ | ⟨reply, after, he, ha⟩
      · rw [he]
        exact ⟨r, hr, rfl⟩
      · rw [he]
        obtain ⟨r₁, hr₁, hg⟩ := grown_answered ha hr hne.symm
        exact ⟨r₁, hr₁, hg.id_eq⟩
    obtain ⟨r₁, hr₁, hid₁⟩ := hstep
    obtain ⟨r₂, hr₂, hid₂⟩ := ih hr₁ hds
    exact ⟨r₂, hr₂, hid₂.trans hid₁⟩

/-- So it is stored with the id that it had. -/
theorem Coherent.id_of_mem_stored {c : Container} (hc : c.Coherent) {key : String} {r : Record}
    (hr : c.get? key = some r) {requests : List Request} (hd : .delete key ∉ requests)
    {x : Snapshot} (hx : x ∈ (Container.answerAll requests c).stored.values) (hk : x.key = key) :
    x.id = r.id := by
  obtain ⟨r', hr', hid⟩ := exists_get?_answerAll hr hd
  obtain ⟨r'', hr'', rfl, -⟩ := (hc.answerAll requests).exists_of_mem hx
  rw [hk, hr'] at hr''
  cases hr''
  exact hid

end Container

end RecordStore
