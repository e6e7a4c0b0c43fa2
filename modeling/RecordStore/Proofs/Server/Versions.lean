import RecordStore.Proofs.Server.Restart

/-!
# Written versions are permanent and consecutive

A value that was set stays under its version until its key is deleted, whatever else is asked of the
server, whatever becomes of its passes, and however often it is stopped and started again. The
versions of a key are consecutive: the first is zero, or the number of values that were loaded.

* `Serves`: that a server answers for a key as one with a given history.
* `servesOn_of_get?`: **the history of a key is the one it had and the values that it was given
  since.**
* `versions_run`: what follows for each value that is set, and for each record that is loaded.
-/

namespace RecordStore

open Transcript (written Keeps)

namespace Server

/-- That a server answers for a key as one with these values, oldest first. -/
structure Serves (s : Server Backing) (key : String) (values : List Bytes) : Prop where
  /-- Every value is found under its version, -/
  get_eq : ∀ (n : UInt64) (h : n.toNat < values.length),
    (s.handle (.get key (.number n))).result = .ok (.value values[n.toNat])
  /-- and none beyond, where the version asked for and the number of values are told. -/
  beyond_eq : ∀ n : UInt64, values.length ≤ n.toNat →
    (s.handle (.get key (.number n))).result = .error (.outOfRange n.toNat values.length)
  /-- The value of the highest version is the current one. -/
  latest_eq : ∃ h : values ≠ [],
    (s.handle (.get key .latest)).result = .ok (.value (values.getLast h))
  /-- The next value gets the next version. -/
  set_eq : ∀ value fresh,
    (s.handle (.set key value fresh)).result = .ok (.version values.length)

/-- That a server answers for a key with these values and those that it is given after them, at any
later time at which it runs, as long as the key is not deleted. -/
def ServesOn (s : Server Backing) (key : String) (values : List Bytes) : Prop :=
  ∀ (after : List (Moment × ServerStep)) (m : Moment), Keeps key (s.answered after) →
    ((s.run after).during m).state = .running →
      Serves ((s.run after).during m) key (values ++ written key (s.answered after))

variable {s : Server Backing} {key : String} {r : Record}

/-- A value with others after it is found under the number of those before it. -/
theorem Serves.get_append {earlier later : List Bytes} {value : Bytes}
    (h : Serves s key (earlier ++ [value] ++ later)) {n : UInt64} (hn : n.toNat = earlier.length) :
    (s.handle (.get key (.number n))).result = .ok (.value value) := by
  have hlt : n.toNat < (earlier ++ [value] ++ later).length := by
    simp only [List.length_append, List.length_singleton]
    omega
  have hvalue : (earlier ++ [value] ++ later)[n.toNat] = value := by
    rw [List.getElem_append_left (by simp [hn])]
    simp [hn]
  rw [h.get_eq n hlt, hvalue]

theorem answer_get (hs : s.Orderly) (hr : s.container.get? key = some r) (version : Version) :
    (s.container.answer (.get key version)).1 = (r.get version).map .value := by
  have hk := hs.coherent.ne_empty hr
  rw [Container.answer, Container.require_of_get? hk hr]
  rfl

theorem answer_set (hs : s.Orderly) (hr : s.container.get? key = some r) (value : Bytes)
    (fresh : Id) :
    (s.container.answer (.set key value fresh)).1 = .ok (.version r.history.length) := by
  have hk : checkKey key = .ok () := Record.checkKey_of_ne (hs.coherent.ne_empty hr)
  simp only [Container.answer, Container.upsert, hk, hr, Record.update, History.current_append]

/-- **A running server answers for a record with its history.** -/
theorem serves_of_get? (hs : s.Orderly) (hrun : s.state = .running)
    (hr : s.container.get? key = some r) : Serves s key r.history.values := by
  constructor
  · intro n hn
    have hat : r.history.at? n.toNat = some r.history.values[n.toNat] := List.getElem?_eq_getElem hn
    rw [(handle_of_running hrun _).1, answer_get hs hr, Record.get, History.get, hat]
    rfl
  · intro n hn
    have hat : r.history.at? n.toNat = none := List.getElem?_eq_none hn
    rw [(handle_of_running hrun _).1, answer_get hs hr, Record.get, History.get, hat]
    rfl
  · refine ⟨r.history.ne_nil, ?_⟩
    rw [(handle_of_running hrun _).1, answer_get hs hr]
    rfl
  · intro value fresh
    rw [(handle_of_running hrun _).1, answer_set hs hr]
    rfl

/-- **The history of a key that is not deleted** is the one it had and the values that it was given
since. -/
theorem servesOn_of_get? (hs : s.Orderly) (hu : s.state ≠ .unknown)
    (hr : s.container.get? key = some r) : ServesOn s key r.history.values := by
  intro after m hk hrun
  obtain ⟨r', hr', hg⟩ := grown_run hs hu hr after hk
  rw [← hg.values_eq]
  exact serves_of_get? ((hs.run after).during m) hrun hr'

/-- A value that is set comes behind the values that the key had, or is the first. -/
theorem exists_earlier_of_set {value : Bytes} {fresh : Id} {reply : Reply}
    (h : (s.handle (.set key value fresh)).result = .ok reply) :
    ∃ (earlier : List Bytes) (r : Record), reply = .version earlier.length ∧
      (s.container.get? key = none → earlier = []) ∧
      (s.handle (.set key value fresh)).state.state = .running ∧
      (s.handle (.set key value fresh)).state.container.get? key = some r ∧
      r.history.values = earlier ++ [value] := by
  by_cases hs : s.state = .running
  · obtain ⟨hresult, hstate⟩ := handle_of_running hs (.set key value fresh)
    rw [hresult] at h
    rw [hstate]
    rcases Container.answer_set_cases h with ⟨-, rfl, hafter⟩ | ⟨r, hr, rfl, hafter⟩
    · rw [hafter]
      exact ⟨[], _, rfl, fun _ => rfl, hs, Container.get?_insert_self _ _ _, rfl⟩
    · rw [hafter]
      refine ⟨r.history.values, _, rfl, fun hn => ?_, hs, Container.get?_insert_self _ _ _, rfl⟩
      rw [hr] at hn
      cases hn
  · rw [handle_of_not_running hs] at h
    cases h

/-- A server that has started over a storage that retains anything runs, and has loaded all. -/
theorem exists_count_of_start (hok : s.start.result = .ok ())
    (hretains : Storage.retains s.storage = true) {stored : List Snapshot}
    (hload : (Storage.load s.storage).result = .ok stored) :
    ∃ n, ((∅ : Container).load stored).1 = .ok n ∧
      s.start.state.container = ((∅ : Container).load stored).2 ∧
      s.start.state.state = .running := by
  cases s.starts_start with
  | refused _ he =>
    rw [he] at hok
    cases hok
  | kept hn =>
    rw [hn] at hretains
    cases hretains
  | loaded stored' n _ hl hc _ ht =>
    rw [hload] at hl
    cases hl
    rw [ht]
    exact ⟨n, hc, rfl, rfl⟩
  | failed _ _ _ _ _ he =>
    rw [he] at hok
    cases hok

/-- Each record that is loaded is found under its key with the values that are stored. -/
theorem get?_start_of_load (hs : s.Orderly) (hok : s.start.result = .ok ())
    (hretains : Storage.retains s.storage = true) {stored : List Snapshot}
    (hload : (Storage.load s.storage).result = .ok stored) {r : Snapshot} (hr : r ∈ stored) :
    ∃ r', Record.ofSnapshot r = .ok r' ∧ s.start.state.container.get? r.key = some r' ∧
      s.start.state.state = .running := by
  obtain ⟨n, hc, hcontainer, hstate⟩ := exists_count_of_start hok hretains hload
  obtain ⟨r', hr', hget⟩ := Container.get?_load_of_mem (hs.inOrder.nodup_load hload) hc hr
  exact ⟨r', hr', hcontainer ▸ hget, hstate⟩

/-- **Written versions are permanent and consecutive**, over any steps before and after. -/
theorem versions_run {b : Backing} (hb : b.Given) (kind : Kind) (period : Nat)
    (steps : List (Moment × ServerStep)) (m : Moment) (key : String) :
    let s := ((create kind period b).run steps).during m
    -- A key that is not held gets the version zero.
    (s.state = .running → key ≠ "" → s.container.get? key = none → ∀ value fresh,
      (s.handle (.set key value fresh)).result = .ok (.version 0)) ∧
    -- A value that is set stays under its version, and the next values get the next versions.
    (∀ value fresh reply, (s.handle (.set key value fresh)).result = .ok reply →
      ∃ earlier : List Bytes, reply = .version earlier.length ∧
        (s.container.get? key = none → earlier = []) ∧
        (s.handle (.set key value fresh)).state.ServesOn key (earlier ++ [value]) ∧
        ∀ after m', Keeps key ((s.handle (.set key value fresh)).state.answered after) →
          let t := ((s.handle (.set key value fresh)).state.run after).during m'
          t.state = .running → ∀ n : UInt64, n.toNat = earlier.length →
            (t.handle (.get key (.number n))).result = .ok (.value value)) ∧
    -- The versions of a key that is loaded go on where the stored ones end.
    (s.start.result = .ok () → Storage.retains s.storage = true →
      ∀ stored, (Storage.load s.storage).result = .ok stored → ∀ r ∈ stored, r.key = key →
        s.start.state.ServesOn key r.values) := by
  intro s
  have hs : s.Orderly := ((orderly_create kind period hb.inOrder).run steps).during m
  refine ⟨fun hrun hkey hnone value fresh => ?_, fun value fresh reply h => ?_,
    fun hok hretains stored hload r hr hkey => ?_⟩
  · rw [(handle_of_running hrun _).1]
    simp only [Container.answer, Container.upsert, Record.checkKey_of_ne hkey, hnone,
      Container.create_eq hkey, Except.map, Container.checkEntry, if_true]
  · obtain ⟨earlier, r, hreply, hnone, hrunning, hr, hvalues⟩ := exists_earlier_of_set h
    have hon : (s.handle (.set key value fresh)).state.ServesOn key (earlier ++ [value]) := by
      rw [← hvalues]
      exact servesOn_of_get? (hs.handle _) (by simp [hrunning]) hr
    exact ⟨earlier, hreply, hnone, hon,
      fun after m' hk hrun n hn => (hon after m' hk hrun).get_append hn⟩
  · obtain ⟨r', hr', hget, hstate⟩ := get?_start_of_load hs hok hretains hload hr
    obtain ⟨-, -, -, hvalues, -⟩ := Record.ofSnapshot_cases hr'
    rw [← hvalues, ← hkey]
    exact servesOn_of_get? hs.start (by simp [hstate]) hget

/-- A server over a log, in which a key has one value. -/
def trialHolder : Server Backing :=
  ((create .log 0 (.log (((LogStore.recover .empty).1.run []).during {}))).run
    [({}, .start), ({}, .request (.set "a" [1] default))]).during {}

/-- A pass fails for want of room, the server is stopped and started again, and a value is set. -/
def trialAfter : List (Moment × ServerStep) :=
  [({ disk := { limit := some 0 } }, .syncNow), ({}, .stop), ({}, .start),
    ({}, .request (.set "a" [3] default))]

/-- A second value is found under its version after all that, and a fourth one gets the next. -/
theorem versions_run_trial :
    (trialHolder.handle (.set "a" [2] default)).result = .ok (.version 1) ∧
    let t := ((trialHolder.handle (.set "a" [2] default)).state.run trialAfter).during {}
    (t.handle (.get "a" (.number 1))).result = .ok (.value [2]) ∧
      (t.handle (.set "a" [4] default)).result = .ok (.version 3) := by
  have hset : (trialHolder.handle (.set "a" [2] default)).result = .ok (.version 1) := by
    decide +kernel
  have hlog : (trialHolder.handle (.set "a" [2] default)).state.answered trialAfter =
      [(.set "a" [3] default, .version 2)] := by decide +kernel
  have hkeeps : Keeps "a" ((trialHolder.handle (.set "a" [2] default)).state.answered
      trialAfter) := by
    rw [hlog]
    exact List.forall_mem_singleton.mpr nofun
  have hrun : (((trialHolder.handle (.set "a" [2] default)).state.run trialAfter).during
      {}).state = .running := by decide +kernel
  obtain ⟨-, hsets, -⟩ := versions_run (.log .empty [] {}) .log 0
    [({}, .start), ({}, .request (.set "a" [1] default))] {} "a"
  obtain ⟨earlier, hreply, -, hon, hvalue⟩ := hsets [2] default _ hset
  have hlength : earlier.length = 1 := (Reply.version.inj hreply).symm
  have hserves : Serves (((trialHolder.handle (.set "a" [2] default)).state.run
      trialAfter).during {}) "a" (earlier ++ [[2]] ++ written "a"
        ((trialHolder.handle (.set "a" [2] default)).state.answered trialAfter)) :=
    hon trialAfter {} hkeeps hrun
  rw [hlog] at hserves
  refine ⟨hset, hvalue trialAfter {} hkeeps hrun 1 (by rw [hlength]; rfl), ?_⟩
  refine (hserves.set_eq [4] default).trans ?_
  rw [List.length_append, List.length_append, hlength]
  rfl

end Server

end RecordStore
