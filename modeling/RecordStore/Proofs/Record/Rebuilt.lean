import RecordStore.Proofs.Container.Views
import RecordStore.Proofs.Text.Decimal

/-!
# Snapshots and the records that are rebuilt from them

A snapshot with a key and values belongs to a record. What is stored of this record again is the
snapshot, but for the counter: it is read leniently, and a record writes it in one way only. So the
way through a record changes a snapshot once at most, and a record that is rebuilt from its own
snapshot is the same record.

* `Metadata.CountsFrom`: the number that a listed counter stands for.
  `Metadata.readCounter_eq_iff`: it is the one that is read.
* `Record.snapshot_eq_iff`: **which snapshots are those of records.**
* `Record.Possible`: the records that there can be.
* `rebuilt_snapshot`: **what can be rebuilt, what is stored of it then, and that a record is its own
  snapshot rebuilt.**
-/

namespace RecordStore

namespace Metadata

/-- The number that a listed counter stands for: the number of 64 bits that its text denotes, and
one if there is none. -/
inductive CountsFrom : Option String → Nat → Prop
  | denoted {text : String} {n : Nat} (denotes : Text.Denotes text.toList n)
    (lt : n < 0x10000000000000000) : CountsFrom (some text) n
  | missing : CountsFrom none 1
  | strange {text : String}
    (le : ∀ n, Text.Denotes text.toList n → 0x10000000000000000 ≤ n) : CountsFrom (some text) 1

/-- **A counter is read as the number that it stands for.** -/
theorem readCounter_eq_iff {listed : Option String} {n : Nat} :
    readCounter listed = n ↔ CountsFrom listed n := by
  constructor
  · rintro rfl
    cases listed with
    | none => exact .missing
    | some text =>
      cases hw : Text.word? text.toList with
      | some n =>
        have hread : readCounter (some text) = n := by simp [readCounter, hw]
        obtain ⟨hd, hlt⟩ := Text.word?_eq_some_iff.mp hw
        exact hread ▸ .denoted hd hlt
      | none =>
        have hread : readCounter (some text) = 1 := by simp [readCounter, hw]
        rw [hread]
        refine .strange fun n hd => Nat.le_of_not_lt fun hlt => ?_
        have hsome : Text.word? text.toList = some n := Text.word?_eq_some_iff.mpr ⟨hd, hlt⟩
        rw [hw] at hsome
        cases hsome
  · intro h
    cases h with
    | denoted hd hlt => simp [readCounter, Text.word?_eq_some_iff.mpr ⟨hd, hlt⟩]
    | missing => rfl
    | @strange text hle =>
      cases hw : Text.word? text.toList with
      | none => simp [readCounter, hw]
      | some n =>
        obtain ⟨hd, hlt⟩ := Text.word?_eq_some_iff.mp hw
        exact absurd (hle n hd) (Nat.not_le.mpr hlt)

end Metadata

namespace Record

variable {s : Snapshot} {r : Record}

/-- **A snapshot is that of its record when it lists the counter as records do.** -/
theorem snapshot_eq_iff (h : ofSnapshot s = .ok r) :
    r.snapshot = s ↔ ∃ n < 0x10000000000000000, s.metadata[counterName]? = some n.repr := by
  constructor
  · intro hs
    refine ⟨r.metadata.counter, r.metadata.counter_lt, ?_⟩
    rw [← hs]
    exact Std.ExtTreeMap.getElem?_insert_self
  · rintro ⟨n, hn, hlisted⟩
    -- Listing once more what is listed changes nothing.
    have hsame : s.metadata.insert counterName n.repr = s.metadata := by
      refine Std.ExtTreeMap.ext_getElem? fun name => ?_
      rw [Std.ExtTreeMap.getElem?_insert]
      split
      · rename_i he
        rw [← Std.compare_eq_iff_eq.mp he, hlisted]
      · rfl
    rw [snapshot_eq_normalized h, Snapshot.normalized, hlisted, Metadata.readCounter_repr hn, hsame]

/-- The records that there can be: one is created or rebuilt, and then changed in any way. -/
inductive Possible : Record → Prop
  | created {id : Id} {key : String} {value : Bytes} {r r' : Record}
    (create_eq : create id key value = .ok r) (later : Revised r r') : Possible r'
  | rebuilt {s : Snapshot} {r r' : Record} (ofSnapshot_eq : ofSnapshot s = .ok r)
    (later : Revised r r') : Possible r'

theorem Possible.key_ne (h : Possible r) : r.key ≠ "" := by
  cases h with
  | @created id key value r₀ _ hc hl =>
    rw [hl.key_eq]
    rintro hk
    by_cases hkey : key = ""
    · subst hkey
      cases hc
    · rw [create, checkKey_of_ne hkey] at hc
      cases hc
      exact hkey hk
  | rebuilt hs hl =>
    obtain ⟨hk, -, hkey, -⟩ := ofSnapshot_cases hs
    rw [hl.key_eq, hkey]
    exact hk

end Record

open Record (ofSnapshot Possible)

/-- **Snapshots and the records rebuilt from them.** A snapshot with a key and values can be rebuilt
and no other. What is stored of the record then is the snapshot, with the number that its counter
stands for in plain decimal; so it is the same snapshot just when the counter was listed like this,
and the record is rebuilt from it once more. And a record that there can be is the one that is
rebuilt from what is stored of it, so that everything is answered alike. -/
theorem rebuilt_snapshot (s : Snapshot) :
    ((∃ r, ofSnapshot s = .ok r) ↔ s.key ≠ "" ∧ s.values ≠ []) ∧
    (∀ r, ofSnapshot s = .ok r →
      (∃ c, (∀ n, Metadata.CountsFrom s.metadata[counterName]? n ↔ n = c) ∧
        r.snapshot = { s with metadata := s.metadata.insert counterName c.repr }) ∧
      (r.snapshot = s ↔ ∃ n < 0x10000000000000000, s.metadata[counterName]? = some n.repr) ∧
      ofSnapshot r.snapshot = .ok r) ∧
    ∀ r, Possible r → ofSnapshot r.snapshot = .ok r := by
  refine ⟨Record.exists_ofSnapshot_iff, fun r hr => ⟨?_, Record.snapshot_eq_iff hr, ?_⟩,
    fun r hr => Record.ofSnapshot_snapshot hr.key_ne⟩
  · refine ⟨Metadata.readCounter _, fun n => ?_, Record.snapshot_eq_normalized hr⟩
    rw [← Metadata.readCounter_eq_iff, eq_comm]
  · exact Record.ofSnapshot_snapshot (Possible.rebuilt hr .same).key_ne

/-- A counter with a sign and zeros is stored as the number that it stands for. -/
theorem rebuilt_snapshot_padded :
    let s : Snapshot := ⟨default, "a", [[0]], (∅ : Dict String).insert counterName "+007"⟩
    ∃ r, ofSnapshot s = .ok r ∧ ofSnapshot r.snapshot = .ok r ∧ r.snapshot ≠ s ∧
      r.snapshot.metadata[counterName]? = some "7" := by
  intro s
  have hlisted : s.metadata[counterName]? = some "+007" := Std.ExtTreeMap.getElem?_insert_self
  have hseven : Metadata.CountsFrom (some "+007") 7 := .denoted (.signed 2 7) (by decide)
  obtain ⟨hiff, hall, -⟩ := rebuilt_snapshot s
  obtain ⟨r, hr⟩ := hiff.mpr ⟨by decide, by decide⟩
  obtain ⟨⟨c, hc, hs⟩, -, hagain⟩ := hall r hr
  rw [hlisted] at hc
  obtain rfl : 7 = c := (hc 7).mp hseven
  have hstored : r.snapshot.metadata[counterName]? = some "7" := by
    rw [hs]
    exact Std.ExtTreeMap.getElem?_insert_self
  refine ⟨r, hr, hagain, fun hsame => ?_, hstored⟩
  rw [hsame, hlisted] at hstored
  exact absurd hstored (by decide)

end RecordStore
