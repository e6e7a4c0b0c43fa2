import Mathlib.Tactic.SplitIfs
import RecordStore.Log.Entry
import RecordStore.Proofs.Record.Json
import RecordStore.Proofs.Text.Order

/-!
# Log entries are read back

An entry is written as an object of its time and its operation. Its operation holds Unicode strings
only, no numbers, and is nested three levels deep, so that it passes the check that is made before
it is understood.

* `plain_toJson`: any depth from three on is enough for an operation.
* `decode?_encode`: **the entry written is the entry read**, at any time of 64 bits.
* `length_key_le_encode`: nothing is compressed, so that there are entries of any length.
* `length_delete_le_write`: a deletion takes no longer entry than writing did.
* `length_encode_value`: what a value adds to an entry.
-/

namespace RecordStore

namespace Json

@[simp]
theorem plain_ofText (depth : Nat) (s : String) : plain depth (ofText s) = true := by
  cases depth <;> rw [ofText, plain, Piece.text?_ofText] <;> rfl

theorem plain_ofFields (depth : Nat) (fields : List (String × Json)) :
    plain (depth + 1) (ofFields fields) = fields.all fun f => plain depth f.2 := by
  simp [ofFields, plain, List.all_map, Function.comp_def, Piece.text?_ofText]

end Json

namespace Numeral

theorem ofDigits_toDigits (n : Nat) :
    ofDigits ((Nat.toDigits 10 n).map fun c => c.toNat - 48) = n := by
  rw [ofDigits, List.foldl_map]
  exact Nat.ofDigitChars_eq_foldl.symm.trans Nat.ofDigitChars_ten_toDigits

/-- Zero is not negative, so the sign never makes a number unreadable. -/
theorem integer?_ofInt (n : Int) : (ofInt n).integer? = some n := by
  have hz : ¬(([] : List Nat) ≠ [] ∨ (none : Option Int) ≠ none ∨
      (decide (n < 0) = true ∧ n.natAbs = 0)) := by
    rintro (h | h | ⟨h, h0⟩)
    · exact h rfl
    · exact h rfl
    · have := of_decide_eq_true h
      omega
  simp only [integer?, ofInt, ofDigits_toDigits]
  rw [if_neg hz]
  by_cases hn : n < 0
  · rw [if_pos (decide_eq_true hn)]
    congr 1
    omega
  · rw [if_neg fun h => hn (of_decide_eq_true h)]
    congr 1
    omega

end Numeral

namespace Operation

theorem standard_toJson (operation : Operation) : operation.toJson.Standard := by
  cases operation with
  | write r =>
    exact .ofFields (List.forall_mem_cons.mpr
      ⟨.ofText _, List.forall_mem_singleton.mpr r.standard_toJson⟩)
  | delete key =>
    exact .ofFields (List.forall_mem_cons.mpr
      ⟨.ofText _, List.forall_mem_singleton.mpr (.ofText _)⟩)

theorem plain_toJson (operation : Operation) (depth : Nat) :
    operation.toJson.plain (depth + 3) = true := by
  cases operation with
  | write r =>
    simp [toJson, Snapshot.toJson, Json.plain_ofFields, Json.plain, List.all_map,
      Function.comp_def]
  | delete key => simp [toJson, Json.plain_ofFields]

theorem ofJson?_ofFields {fields : List (String × Json)}
    (h : (Json.ofFields fields).plain depth = true) :
    ofJson? (.ofFields fields) = ofFields? fields := by
  have hf : ofJson? (.ofFields fields) = if (Json.ofFields fields).plain depth then
      (Json.ofFields fields).fields?.bind ofFields? else none := rfl
  rw [hf, if_pos h, Json.fields?_ofFields, Option.bind_some]

theorem ofJson?_toJson (operation : Operation) : ofJson? operation.toJson = some operation := by
  have hp := operation.plain_toJson 123
  cases operation with
  | write r =>
    rw [toJson, ofJson?_ofFields hp]
    simp [ofFields?, Json.only?, Json.text?_ofText, Snapshot.ofJson?_toJson]
  | delete key =>
    rw [toJson, ofJson?_ofFields hp]
    simp [ofFields?, Json.only?, Json.text?_ofText]

end Operation

namespace Entry

theorem time?_ofInt (time : Int64) : time? (.number (.ofInt time.toInt)) = some time := by
  have hl := time.le_toInt
  have hu := time.toInt_lt
  have hw : Text.isSignedWord time.toInt = true := by
    simp only [Text.isSignedWord, Bool.and_eq_true, decide_eq_true_eq]
    omega
  rw [time?, Json.integer?, Numeral.integer?_ofInt, Option.bind_some, if_pos hw,
    Int64.ofInt_toInt]

theorem ofJson?_toJson (e : Entry) : ofJson? e.toJson = some e := by
  have hf : ofJson? e.toJson = e.toJson.fields?.bind fun fields => (Json.only? "ts" fields).bind
      fun time => (time? time).bind fun time => (Json.only? "op" fields).bind fun operation =>
        (Operation.ofJson? operation).bind fun operation => some ⟨time, operation⟩ := rfl
  rw [hf, toJson, Json.fields?_ofFields]
  simp [Json.only?, time?_ofInt, Operation.ofJson?_toJson]

theorem standard_toJson (e : Entry) : e.toJson.Standard :=
  .ofFields (List.forall_mem_cons.mpr
    ⟨.number _, List.forall_mem_singleton.mpr e.operation.standard_toJson⟩)

/-- **An entry is read back from its text.** -/
theorem decode?_encode (e : Entry) : decode? e.encode = some e := by
  rw [decode?, encode, Json.read?_write e.standard_toJson, Option.bind_some, ofJson?_toJson]

end Entry

/-! ## How long an entry is -/

namespace Json

theorem length_escape_pos (p : Piece) : 0 < (escape p).length := by
  cases p with
  | byte b =>
    show 0 < (escapeByte b).length
    unfold escapeByte
    split_ifs
    all_goals exact Nat.succ_pos _
  | unit u => exact Nat.succ_pos _

theorem length_le_writeString (pieces : List Piece) :
    pieces.length ≤ (writeString pieces).length := by
  have h : pieces.length ≤ (pieces.flatMap escape).length := by
    induction pieces with
    | nil => exact Nat.le_refl _
    | cons p pieces ih =>
      have hp := length_escape_pos p
      rw [List.flatMap_cons, List.length_append, List.length_cons]
      omega
  rw [writeString, List.length_append, List.length_append]
  omega

theorem length_write_le_writeFields {fields : List (List Piece × Json)} {name : List Piece}
    {v : Json} (h : (name, v) ∈ fields) : (write v).length ≤ (writeFields fields).length := by
  induction fields with
  | nil => cases h
  | cons f fields ih =>
    cases fields with
    | nil =>
      obtain rfl := List.mem_singleton.mp h
      rw [writeFields, List.length_append, List.length_append]
      omega
    | cons g fields =>
      simp only [writeFields, List.length_append]
      rcases List.mem_cons.mp h with rfl | h
      · dsimp only
        omega
      · have := ih h
        omega

/-- An object is longer than each of its fields. -/
theorem length_write_le_ofFields {fields : List (String × Json)} {name : String} {v : Json}
    (h : (name, v) ∈ fields) : (write v).length ≤ (write (ofFields fields)).length := by
  have hm : (Piece.ofText name, v) ∈ fields.map fun f => (Piece.ofText f.1, f.2) :=
    List.mem_map.mpr ⟨_, h, rfl⟩
  have hl := length_write_le_writeFields hm
  rw [ofFields, write, List.length_append, List.length_append]
  omega

/-- The length of an object with two fields. -/
theorem length_write_pair (a b : String) (u v : Json) :
    (write (ofFields [(a, u), (b, v)])).length =
      (write (ofText a)).length + (write (ofText b)).length + (write u).length +
        (write v).length + 5 := by
  have hone : ∀ text, text ∈ [":", ",", "\x7b", "\x7d"] → (ascii text).length = 1 := by decide
  rw [ofText, ofText, write, write, ofFields, write, List.map_cons, List.map_cons, List.map_nil,
    writeFields, writeFields]
  simp only [List.length_append, hone ":" (by decide), hone "," (by decide),
    hone "\x7b" (by decide), hone "\x7d" (by decide)]
  omega

/-- A text of which every character is written as one byte takes two bytes more. -/
theorem length_write_ofText {cs : List Char}
    (h : ∀ c ∈ cs, ((String.utf8EncodeChar c).flatMap escapeByte).length = 1) :
    (write (ofText (.ofList cs))).length = cs.length + 2 := by
  have hbytes : ((cs.flatMap String.utf8EncodeChar).flatMap escapeByte).length = cs.length := by
    induction cs with
    | nil => rfl
    | cons c cs ih =>
      obtain ⟨hc, hcs⟩ := List.forall_mem_cons.mp h
      rw [List.flatMap_cons, List.flatMap_append, List.length_append, hc, ih hcs, List.length_cons,
        Nat.add_comm]
  have hescape : (Piece.ofText (.ofList cs)).flatMap escape =
      (cs.flatMap String.utf8EncodeChar).flatMap escapeByte := by
    have hpieces : Piece.ofText (.ofList cs) = (Text.bytes (.ofList cs)).map .byte := rfl
    rw [hpieces, Text.bytes_eq, String.toList_ofList, List.flatMap_map]
    rfl
  have hquote : (ascii "\"").length = 1 := by decide
  rw [ofText, write, writeString, List.length_append, List.length_append, hescape, hbytes, hquote]
  omega

/-- The length of a value in base 64. -/
theorem length_write_encode (value : List UInt8) :
    (write (ofText (Base64.encode value))).length = 4 * ((value.length + 2) / 3) + 2 := by
  have hletters : ∀ c ∈ '=' :: Base64.alphabet,
      ((String.utf8EncodeChar c).flatMap escapeByte).length = 1 :=
    Lists.forall_mem_of_all (by decide +kernel)
  rw [Base64.encode, length_write_ofText fun c hc => hletters c (Base64.mem_of_mem_encodeChars hc),
    Base64.length_encodeChars]

end Json

/-- **The entry of a deletion is no longer than one that writes a record of the key.** -/
theorem Entry.length_delete_le_write (time : Int64) (r : Snapshot) :
    (encode ⟨time, .delete r.key⟩).length ≤ (encode ⟨time, .write r⟩).length := by
  have hrecord : (Json.ofText r.key).write.length ≤ r.toJson.write.length :=
    @Json.length_write_le_ofFields _ "key" _ (.tail _ (.head _))
  have hdelete : (Json.ofText "delete").write.length = 8 := by decide +kernel
  have hwrite : (Json.ofText "write").write.length = 7 := by decide +kernel
  have hkey : (Json.ofText "key").write.length = 5 := by decide +kernel
  have hname : (Json.ofText "record").write.length = 8 := by decide +kernel
  rw [encode, encode, toJson, toJson, Json.length_write_pair, Json.length_write_pair,
    Operation.toJson, Operation.toJson, Json.length_write_pair, Json.length_write_pair]
  dsimp only
  omega

/-- **An entry is as long as the key of its record**, or longer. -/
theorem Entry.length_key_le_encode (time : Int64) (r : Snapshot) :
    r.key.utf8ByteSize ≤ (encode ⟨time, .write r⟩).length := by
  have hkey : r.key.utf8ByteSize ≤ (Json.ofText r.key).write.length := by
    have h := Json.length_le_writeString (Piece.ofText r.key)
    rwa [Piece.ofText, List.length_map] at h
  have hrecord : (Json.ofText r.key).write.length ≤ r.toJson.write.length :=
    @Json.length_write_le_ofFields _ "key" _ (.tail _ (.head _))
  have hoperation : r.toJson.write.length ≤ (Operation.write r).toJson.write.length :=
    @Json.length_write_le_ofFields _ "record" _ (.tail _ (.head _))
  have hentry : (Operation.write r).toJson.write.length ≤ (encode ⟨time, .write r⟩).length :=
    @Json.length_write_le_ofFields _ "op" _ (.tail _ (.head _))
  omega

/-- **A value takes four bytes of an entry for every three of its own.** -/
theorem Entry.length_encode_value (time : Int64) (id : Id) (key : String) (value : Bytes)
    (metadata : Dict String) :
    (encode ⟨time, .write ⟨id, key, [value], metadata⟩⟩).length =
      (encode ⟨time, .write ⟨id, key, [[]], metadata⟩⟩).length + 4 * ((value.length + 2) / 3) := by
  have hvalue := Json.length_write_encode value
  have hnone := Json.length_write_encode []
  rw [encode, encode, toJson, toJson, Json.length_write_pair, Json.length_write_pair,
    Operation.toJson, Operation.toJson, Json.length_write_pair, Json.length_write_pair]
  simp only [Snapshot.toJson, Json.ofFields, Json.write, Json.writeFields, Json.writeItems,
    List.map_cons, List.map_nil, List.length_append]
  rw [hvalue, hnone, List.length_nil]
  omega

end RecordStore
