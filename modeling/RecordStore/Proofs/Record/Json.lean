import RecordStore.Proofs.Base64
import RecordStore.Proofs.Dict
import RecordStore.Proofs.Id
import RecordStore.Proofs.Json.RoundTrip
import RecordStore.Record.Json

/-!
# Stored records are read back

The object that a record is written as has each of its four fields once, and each part of a record
is read back from its field.

* `standard_toJson`: the spelling of the object is kept.
* `ofJson?_toJson`: **the record written is the record read**, whatever its key, its values and its
  metadata are.
* `decode?_encode`: so it is with the text.
* `encode_canonical`: **a record has one text that it is written as**, whichever of the texts that
  are read as it was there before.
-/

namespace RecordStore.Snapshot

theorem standard_toJson (s : Snapshot) : s.toJson.Standard := by
  refine .ofFields fun f hf => ?_
  simp only [List.mem_cons, List.not_mem_nil, or_false] at hf
  obtain rfl | rfl | rfl | rfl := hf
  · exact .ofText _
  · exact .ofText _
  · refine .array fun v hv => ?_
    obtain ⟨bytes, -, rfl⟩ := List.mem_map.mp hv
    exact .ofText _
  · refine .ofFields fun f hf => ?_
    obtain ⟨entry, -, rfl⟩ := List.mem_map.mp hf
    exact .ofText _

/-- The values, each a text in base 64. -/
theorem mapM_values (values : List Bytes) :
    (values.map fun v => Json.ofText (Base64.encode v)).mapM
      (fun v => v.text?.bind Base64.decode?) = some values :=
  Lists.mapM_map fun v _ => by rw [Json.text?_ofText, Option.bind_some, Base64.decode?_encode]

/-- The metadata, each a text under its name. -/
theorem mapM_metadata (entries : List (String × String)) :
    (entries.map fun entry => (entry.1, Json.ofText entry.2)).mapM
      (fun field => field.2.text?.map (field.1, ·)) = some entries :=
  Lists.mapM_map fun entry _ => by rw [Json.text?_ofText]; rfl

/-- The record with the parts that are among some fields. -/
def ofFields? (fields : List (String × Json)) : Option Snapshot := do
  ofParts? (← Json.only? "id" fields) (← Json.only? "key" fields)
    (← Json.only? "values" fields) (← Json.only? "metadata" fields)

theorem ofJson?_object (object : List (List Piece × Json)) :
    ofJson? (.object object) = (Json.object object).fields?.bind ofFields? := rfl

theorem ofJson?_ofFields (fields : List (String × Json)) :
    ofJson? (.ofFields fields) = ofFields? fields := by
  rw [Json.ofFields, ofJson?_object, ← Json.ofFields, Json.fields?_ofFields, Option.bind_some]

/-- **A record is read back from the object it is written as.** -/
theorem ofJson?_toJson (s : Snapshot) : ofJson? s.toJson = some s := by
  rw [toJson, ofJson?_ofFields, ofFields?]
  simp only [Json.only?, String.reduceEq, List.filter_cons, List.filter_nil, decide_true,
    decide_false, if_true, Bool.false_eq_true, if_false, Option.bind_eq_bind, Option.bind_some]
  simp only [ofParts?, Json.text?_ofText, Json.items?, Json.fields?_ofFields, Id.read?_toText,
    mapM_values, mapM_metadata, Dict.ofList_toList, Option.bind_eq_bind, Option.bind_some]
  rfl

/-! ## Texts -/

/-- **A record is read back from its text.** -/
theorem decode?_encode (s : Snapshot) : decode? s.encode = some s := by
  rw [decode?, encode, Json.read?_write s.standard_toJson, Option.bind_some, ofJson?_toJson]

theorem encode_injective : Function.Injective encode := by
  intro s t h
  have hs : decode? t.encode = some s := by
    rw [← h]
    exact decode?_encode s
  exact Option.some.inj (hs.symm.trans (decode?_encode t))

/-- **Every record is read back from its text, and its text tells it from all others.** Many texts
are read as one record: with its fields in any order and among others, or without their names, with
blanks, escapes and ids of any form. What any of them is read as is written as the same text, and
read again from that. -/
theorem encode_canonical :
    (∀ s : Snapshot, decode? s.encode = some s) ∧
    (∀ (text : List UInt8) (s : Snapshot), decode? text = some s →
      ∃ t, decode? s.encode = some t ∧ t = s ∧ t.encode = s.encode) ∧
    (∀ s t : Snapshot, s.encode = t.encode ↔ s = t) := by
  refine ⟨decode?_encode, fun text s _ => ⟨s, decode?_encode s, rfl, rfl⟩, fun s t => ?_⟩
  constructor
  · intro h
    exact encode_injective h
  · rintro rfl
    rfl

/-- The parts of a record in an array, with a metadata name that is there twice. -/
theorem encode_canonical_array :
    let text := Json.ascii ("[\"0123456789ABCDEF0123456789abcdef\", \"\\u0000\", [\"AAE=\"], " ++
      "\x7b\"n\": \"a\", \"n\": \"b\"\x7d]")
    ∃ s, decode? text = some s ∧ s.encode ≠ text ∧
      ∃ t, decode? s.encode = some t ∧ t = s ∧ t.encode = s.encode := by
  intro text
  let s : Snapshot :=
    ⟨(Id.read? "01234567-89ab-cdef-0123-456789abcdef").getD default, "\x00", [[0, 1]],
      .ofList [("n", "b")]⟩
  have hd : decode? text = some s := by decide +kernel
  have hn : s.encode ≠ text := by decide +kernel
  exact ⟨s, hd, hn, encode_canonical.2.1 text s hd⟩

end RecordStore.Snapshot
