import RecordStore.Log.Crc32
import RecordStore.Log.Entry
import RecordStore.Log.Flaw

/-!
# Log frames

The log is a row of frames. A frame is a checksum and a length of four bytes each, least byte first,
the payload of that length, and a line feed. The payload is an entry.

Model of `write_frame` and of a step of `replay`, section 13 of the specification.

* `Frame.wrap` puts a payload into a frame; `Frame.ofEntry?` does so with an entry, unless it is too
  long for its length to be written.
* `Frame.next` takes the first frame off some bytes and opens it, or says what is wrong with it. The
  checks are made in the order of `Flaw`: `Frame.shape` makes the first, `Shape.read` the others.
* `length_next_lt`: a frame takes at least one byte.
-/

namespace RecordStore

namespace Frame

/-- A 32-bit number as four bytes, least first. -/
def word (n : UInt32) : List UInt8 :=
  [n.toUInt8, (n >>> 8).toUInt8, (n >>> 16).toUInt8, (n >>> 24).toUInt8]

/-- The 32-bit number of four bytes, least first. -/
def ofWord (a b c d : UInt8) : UInt32 :=
  a.toUInt32 ||| (b.toUInt32 <<< 8) ||| (c.toUInt32 <<< 16) ||| (d.toUInt32 <<< 24)

/-- The byte that ends a frame. -/
def terminator : UInt8 := 0x0A

/-- The largest payload whose length can be written. -/
def maxPayload : Nat := 0xFFFFFFFF

/-- A payload in a frame. -/
def wrap (payload : List UInt8) : List UInt8 :=
  word (crc32 payload) ++ (word (UInt32.ofNat payload.length) ++ (payload ++ [terminator]))

/-- The frame of an entry. -/
def ofEntry? (e : Entry) : Except StoreError (List UInt8) :=
  let payload := e.encode
  if payload.length ≤ maxPayload then .ok (wrap payload)
  else .error (.backend (.entrySize payload.length))

/-- The parts of a frame, whatever they hold. -/
structure Shape where
  checksum : UInt32
  payload : List UInt8
  last : UInt8

/-- A checksum, a length and what follows them. -/
def header? : List UInt8 → Option (UInt32 × UInt32 × List UInt8)
  | a :: b :: c :: d :: e :: f :: g :: h :: rest =>
    some (ofWord a b c d, ofWord e f g h, rest)
  | _ => none

/-- The parts of the first frame, and the bytes behind it. -/
def shape (bytes : List UInt8) : Except Flaw (Shape × List UInt8) :=
  match header? bytes with
  | none => .error .header
  | some (checksum, size, rest) =>
    let payload := rest.take size.toNat
    if payload.length < size.toNat then .error .payload
    else match rest.drop size.toNat with
      | [] => .error .terminator
      | last :: rest => .ok (⟨checksum, payload, last⟩, rest)

/-- The entry in a frame. -/
def Shape.read (s : Shape) : Except Flaw Entry :=
  if s.last ≠ terminator then .error .terminator
  else if crc32 s.payload ≠ s.checksum then .error .checksum
  else match Entry.decode? s.payload with
    | none => .error .entry
    | some e => .ok e

/-- The entry of the first frame, and the bytes behind it. -/
def next (bytes : List UInt8) : Except Flaw (Entry × List UInt8) := do
  let (s, rest) ← shape bytes
  return (← s.read, rest)

theorem length_of_header? {bytes rest : List UInt8} {c n : UInt32}
    (h : header? bytes = some (c, n, rest)) : bytes.length = 8 + rest.length := by
  unfold header? at h
  split at h
  · simp only [Option.some.injEq, Prod.mk.injEq] at h
    simp [← h.2.2]; omega
  · simp at h

theorem length_shape_lt {bytes rest : List UInt8} {s : Shape} (h : shape bytes = .ok (s, rest)) :
    rest.length < bytes.length := by
  unfold shape at h
  split at h
  · simp at h
  · rename_i c n tail ht
    have hb := length_of_header? ht
    simp only at h
    split at h
    · simp at h
    · split at h
      · simp at h
      · rename_i last more hd
        have := congrArg List.length hd
        simp only [Except.ok.injEq, Prod.mk.injEq] at h
        simp only [List.length_drop, List.length_cons] at this
        rw [← h.2]; omega

theorem length_next_lt {bytes rest : List UInt8} {e : Entry} (h : next bytes = .ok (e, rest)) :
    rest.length < bytes.length := by
  unfold next at h
  cases hs : shape bytes with
  | error f => simp [hs, bind, Except.bind] at h
  | ok r =>
    cases ho : r.1.read with
    | error f => simp [hs, ho, bind, Except.bind] at h
    | ok x =>
      simp only [hs, ho, bind, Except.bind, pure, Except.pure, Except.ok.injEq,
        Prod.mk.injEq] at h
      exact h.2 ▸ length_shape_lt hs

/-- The frames in shape from the first on, and the bytes behind them. -/
def shapes (bytes : List UInt8) : List Shape × List UInt8 :=
  match h : shape bytes with
  | .error _ => ([], bytes)
  | .ok (s, rest) =>
    have := length_shape_lt h
    let (more, rest) := shapes rest
    (s :: more, rest)
termination_by bytes.length

end Frame

end RecordStore
