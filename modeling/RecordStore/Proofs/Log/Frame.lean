import RecordStore.Log.Frame
import RecordStore.Proofs.Log.Entry

/-!
# Frames are read back

Taking the first frame off some bytes looks at the bytes of that frame and at nothing behind it. So
a frame is found again wherever it stands first, and one that is cut short is flawed.

* `ofWord_word`, `word_ofWord`: a 32-bit number is read back from its four bytes, and any four bytes
  are those of a number.
* `next_wrap`: **an entry is read back from its frame**, unless it is too long for one.
* `next_append`: what is behind a frame makes no difference to it.
* `exists_of_next`: a frame that was read is a frame by itself.
* `next_eq_ok_iff`: **a frame is read just when it is the wrapping of a payload that is an entry.**
* `Framed`: bytes that are one frame, with the entry in it. `Framed.flawed_of_append`: less than
  that is no frame.
-/

namespace RecordStore

namespace Frame

variable {bytes rest : List UInt8}

/-! ## Numbers and their bytes -/

/-- A bit of a number is one of the byte that it falls into. -/
theorem getLsbD_ofWord (a b c d : UInt8) {i : Nat} (hi : i < 32) :
    (ofWord a b c d).toBitVec.getLsbD i =
      if i < 8 then a.toBitVec.getLsbD i else if i < 16 then b.toBitVec.getLsbD (i - 8)
      else if i < 24 then c.toBitVec.getLsbD (i - 16) else d.toBitVec.getLsbD (i - 24) := by
  have h8 : (UInt32.toBitVec 8 % 32).toNat = 8 := rfl
  have h16 : (UInt32.toBitVec 16 % 32).toNat = 16 := rfl
  have h24 : (UInt32.toBitVec 24 % 32).toNat = 24 := rfl
  -- The bits of one byte do not reach those of another.
  have hout : ∀ (b : UInt8) (i : Nat), 8 ≤ i → b.toBitVec.getLsbD i = false :=
    fun b i hi => BitVec.getLsbD_of_ge _ _ hi
  simp only [ofWord, UInt32.toBitVec_or, UInt32.toBitVec_shiftLeft, UInt8.toBitVec_toUInt32,
    BitVec.getLsbD_or, BitVec.shiftLeft_eq', BitVec.getLsbD_shiftLeft, BitVec.getLsbD_setWidth,
    h8, h16, h24]
  grind

/-- A bit of a byte that is cut from a number is one of the number. -/
theorem getLsbD_toUInt8 (n : UInt32) {k : UInt32} {j : Nat} (hk : (k.toBitVec % 32).toNat = j)
    {i : Nat} (hi : i < 8) :
    (n >>> k).toUInt8.toBitVec.getLsbD i = n.toBitVec.getLsbD (j + i) := by
  simp only [UInt32.toBitVec_toUInt8, UInt32.toBitVec_shiftRight, BitVec.getLsbD_setWidth,
    BitVec.ushiftRight_eq', BitVec.getLsbD_ushiftRight, hi, decide_true, Bool.true_and, hk]

theorem ofWord_word (n : UInt32) :
    ofWord n.toUInt8 (n >>> 8).toUInt8 (n >>> 16).toUInt8 (n >>> 24).toUInt8 = n := by
  refine UInt32.toBitVec_inj.mp (BitVec.eq_of_getLsbD_eq fun i hi => ?_)
  have h0 : i < 8 → n.toUInt8.toBitVec.getLsbD i = n.toBitVec.getLsbD i := fun h => by
    simp [h]
  have h8 := getLsbD_toUInt8 (k := 8) (j := 8) (i := i - 8) n rfl
  have h16 := getLsbD_toUInt8 (k := 16) (j := 16) (i := i - 16) n rfl
  have h24 := getLsbD_toUInt8 (k := 24) (j := 24) (i := i - 24) n rfl
  rw [getLsbD_ofWord _ _ _ _ hi]
  grind

theorem word_ofWord (a b c d : UInt8) : word (ofWord a b c d) = [a, b, c, d] := by
  have hbits : ∀ {x y : UInt8}, (∀ i < 8, x.toBitVec.getLsbD i = y.toBitVec.getLsbD i) → x = y :=
    fun h => UInt8.toBitVec_inj.mp (BitVec.eq_of_getLsbD_eq h)
  have h0 : (ofWord a b c d).toUInt8 = a := hbits fun i hi => by
    rw [UInt32.toBitVec_toUInt8, BitVec.getLsbD_setWidth, getLsbD_ofWord _ _ _ _ (by omega)]
    grind
  have h8 : (ofWord a b c d >>> 8).toUInt8 = b := hbits fun i hi => by
    rw [getLsbD_toUInt8 (k := 8) (j := 8) _ rfl hi, getLsbD_ofWord _ _ _ _ (by omega)]
    grind
  have h16 : (ofWord a b c d >>> 16).toUInt8 = c := hbits fun i hi => by
    rw [getLsbD_toUInt8 (k := 16) (j := 16) _ rfl hi, getLsbD_ofWord _ _ _ _ (by omega)]
    grind
  have h24 : (ofWord a b c d >>> 24).toUInt8 = d := hbits fun i hi => by
    rw [getLsbD_toUInt8 (k := 24) (j := 24) _ rfl hi, getLsbD_ofWord _ _ _ _ (by omega)]
    grind
  rw [word, h0, h8, h16, h24]

/-- Any four bytes are a number. -/
theorem exists_word (h : bytes.length = 4) : ∃ n, bytes = word n := by
  match bytes, h with
  | [a, b, c, d], _ => exact ⟨ofWord a b c d, (word_ofWord a b c d).symm⟩

/-! ## What is written is read -/

theorem length_wrap (payload : List UInt8) : (wrap payload).length = payload.length + 9 := by
  simp only [wrap, word, List.length_append, List.length_cons, List.length_nil]
  omega

theorem header?_word (c n : UInt32) (rest : List UInt8) :
    header? (word c ++ (word n ++ rest)) = some (c, n, rest) := by
  have h : header? (word c ++ (word n ++ rest)) =
      some (ofWord c.toUInt8 (c >>> 8).toUInt8 (c >>> 16).toUInt8 (c >>> 24).toUInt8,
        ofWord n.toUInt8 (n >>> 8).toUInt8 (n >>> 16).toUInt8 (n >>> 24).toUInt8, rest) := rfl
  rw [h, ofWord_word, ofWord_word]

theorem shape_of_header {c n : UInt32} {payload : List UInt8} {last : UInt8}
    (h : header? bytes = some (c, n, payload ++ last :: rest)) (hn : n.toNat = payload.length) :
    shape bytes = .ok (⟨c, payload, last⟩, rest) := by
  simp only [shape, h, hn, List.take_left, List.drop_left, Nat.lt_irrefl, if_false]

theorem shape_wrap {payload : List UInt8} (h : payload.length ≤ maxPayload) :
    shape (wrap payload) = .ok (⟨crc32 payload, payload, terminator⟩, []) := by
  refine shape_of_header (header?_word _ _ _) (UInt32.toNat_ofNat_of_lt' ?_)
  exact Nat.lt_of_le_of_lt h (by decide)

/-- **An entry is read back from its frame.** -/
theorem next_wrap {e : Entry} (h : e.encode.length ≤ maxPayload) :
    next (wrap e.encode) = .ok (e, []) := by
  have hr : Shape.read ⟨crc32 e.encode, e.encode, terminator⟩ = .ok e := by
    simp [Shape.read, Entry.decode?_encode]
  simp [next, shape_wrap h, hr, bind, Except.bind, pure, Except.pure]

theorem ofEntry?_eq_ok {e : Entry} {frame : List UInt8} :
    ofEntry? e = .ok frame ↔ e.encode.length ≤ maxPayload ∧ frame = wrap e.encode := by
  unfold ofEntry?
  dsimp only
  split
  · rename_i hl
    simp [hl, eq_comm]
  · rename_i hl
    simp [hl]

/-! ## What is read was written so -/

theorem eq_of_header? {c n : UInt32} (h : header? bytes = some (c, n, rest)) :
    bytes = word c ++ (word n ++ rest) := by
  unfold header? at h
  split at h
  · cases h
    rw [word_ofWord, word_ofWord]
    rfl
  · cases h

/-! ## Only its own bytes matter to a frame -/

theorem header?_append {c n : UInt32} (h : header? bytes = some (c, n, rest))
    (more : List UInt8) : header? (bytes ++ more) = some (c, n, rest ++ more) := by
  unfold header? at h
  split at h
  · cases h
    rfl
  · cases h

/-- The payload and the terminator that a length asks for are there. -/
theorem exists_of_shape_eq_ok {s : Shape} (h : shape bytes = .ok (s, rest)) :
    ∃ n : UInt32, n.toNat = s.payload.length ∧
      header? bytes = some (s.checksum, n, s.payload ++ s.last :: rest) := by
  unfold shape at h
  split at h
  · cases h
  · rename_i c n tail ht
    simp only at h
    split at h
    · cases h
    · rename_i hl
      split at h
      · cases h
      · rename_i last more hd
        cases h
        have hn : n.toNat = (tail.take n.toNat).length := by
          have := List.length_take_le n.toNat tail
          omega
        refine ⟨n, hn, ?_⟩
        rw [ht, ← hd, List.take_append_drop]

theorem shape_append {s : Shape} (h : shape bytes = .ok (s, rest)) (more : List UInt8) :
    shape (bytes ++ more) = .ok (s, rest ++ more) := by
  obtain ⟨n, hn, hh⟩ := exists_of_shape_eq_ok h
  have hm := header?_append hh more
  rw [List.append_assoc, List.cons_append] at hm
  exact shape_of_header hm hn

theorem exists_of_shape {s : Shape} (h : shape bytes = .ok (s, rest)) :
    ∃ chunk, bytes = chunk ++ rest ∧ shape chunk = .ok (s, []) := by
  obtain ⟨n, hn, hh⟩ := exists_of_shape_eq_ok h
  unfold header? at hh
  split at hh
  · rename_i a b c d e f g i tail
    obtain ⟨hc, hs, rfl⟩ : ofWord a b c d = s.checksum ∧ ofWord e f g i = n ∧
        tail = s.payload ++ s.last :: rest := by simpa using hh
    refine ⟨a :: b :: c :: d :: e :: f :: g :: i :: (s.payload ++ [s.last]), by simp, ?_⟩
    refine shape_of_header (n := n) ?_ hn
    rw [header?, hc, hs]
  · cases hh

theorem next_eq_ok {e : Entry} :
    next bytes = .ok (e, rest) ↔ ∃ s, shape bytes = .ok (s, rest) ∧ s.read = .ok e := by
  unfold next
  cases hs : shape bytes with
  | error f => simp [bind, Except.bind]
  | ok r =>
    obtain ⟨s, tail⟩ := r
    cases hr : s.read with
    | error f => simp [bind, Except.bind, hr]
    | ok x =>
      simp only [bind, Except.bind, pure, Except.pure, hr, Except.ok.injEq, Prod.mk.injEq]
      grind

theorem next_append {e : Entry} (h : next bytes = .ok (e, rest)) (more : List UInt8) :
    next (bytes ++ more) = .ok (e, rest ++ more) := by
  obtain ⟨s, hs, hr⟩ := next_eq_ok.mp h
  exact next_eq_ok.mpr ⟨s, shape_append hs more, hr⟩

theorem exists_of_next {e : Entry} (h : next bytes = .ok (e, rest)) :
    ∃ chunk, bytes = chunk ++ rest ∧ next chunk = .ok (e, []) := by
  obtain ⟨s, hs, hr⟩ := next_eq_ok.mp h
  obtain ⟨chunk, hb, hc⟩ := exists_of_shape hs
  exact ⟨chunk, hb, next_eq_ok.mpr ⟨s, hc, hr⟩⟩

/-- A frame holds an entry when all its parts are as they should be. -/
theorem Shape.read_eq_ok {s : Shape} {e : Entry} :
    s.read = .ok e ↔ s.last = terminator ∧ crc32 s.payload = s.checksum ∧
      Entry.decode? s.payload = some e := by
  unfold Shape.read
  split
  · rename_i hl
    simp [hl]
  · split
    · rename_i hc
      simp [hc]
    · rename_i hl hc
      rw [not_ne_iff] at hl hc
      cases Entry.decode? s.payload <;> simp [hl, hc]

/-- **A frame is read just when it is a payload in its wrapping, and the payload is an entry.** -/
theorem next_eq_ok_iff {e : Entry} :
    next bytes = .ok (e, rest) ↔ ∃ payload, payload.length ≤ maxPayload ∧
      Entry.decode? payload = some e ∧ bytes = wrap payload ++ rest := by
  constructor
  · intro h
    obtain ⟨s, hs, hr⟩ := next_eq_ok.mp h
    obtain ⟨n, hn, hh⟩ := exists_of_shape_eq_ok hs
    obtain ⟨hl, hc, hd⟩ := Shape.read_eq_ok.mp hr
    have hsize : UInt32.ofNat s.payload.length = n := by rw [← hn, UInt32.ofNat_toNat]
    refine ⟨s.payload, ?_, hd, ?_⟩
    · rw [← hn]
      exact Nat.le_of_lt_succ n.toNat_lt
    · rw [eq_of_header? hh, wrap, hc, hsize, hl]
      simp
  · rintro ⟨payload, hl, hd, rfl⟩
    have hr : Shape.read ⟨crc32 payload, payload, terminator⟩ = .ok e :=
      Shape.read_eq_ok.mpr ⟨rfl, rfl, hd⟩
    exact next_eq_ok.mpr ⟨_, shape_append (shape_wrap hl) rest, hr⟩

/-- Bytes that do not begin with a good frame. -/
def Flawed (bytes : List UInt8) : Prop := ∃ flaw, next bytes = .error flaw

/-- Fewer bytes do not make a flaw good. -/
theorem Flawed.of_append {more : List UInt8} (h : Flawed (bytes ++ more)) : Flawed bytes := by
  obtain ⟨flaw, hf⟩ := h
  cases hn : next bytes with
  | error flaw => exact ⟨flaw, hn⟩
  | ok r =>
    rw [next_append hn more] at hf
    cases hf

end Frame

/-- Bytes that are one frame, with the entry in it. -/
structure Framed where
  bytes : List UInt8
  entry : Entry
  next_bytes : Frame.next bytes = .ok (entry, [])

namespace Framed

/-- The frame that is written of an entry. -/
def ofEntry (e : Entry) (h : e.encode.length ≤ Frame.maxPayload) : Framed :=
  ⟨Frame.wrap e.encode, e, Frame.next_wrap h⟩

theorem next_append (f : Framed) (more : List UInt8) :
    Frame.next (f.bytes ++ more) = .ok (f.entry, more) :=
  Frame.next_append f.next_bytes more

theorem bytes_ne_nil (f : Framed) : f.bytes ≠ [] := by
  have := Frame.length_next_lt f.next_bytes
  exact List.length_pos_iff.mp this

/-- The first bytes of a frame, but not all of them, are no frame. -/
theorem flawed_of_append {bytes more : List UInt8} (f : Framed) (h : f.bytes = bytes ++ more)
    (hm : more ≠ []) : Frame.Flawed bytes := by
  cases hn : Frame.next bytes with
  | error flaw => exact ⟨flaw, hn⟩
  | ok r =>
    have hf := f.next_bytes
    rw [h, Frame.next_append hn more] at hf
    have hr : r.2 ++ more = [] := (Prod.mk.inj (Except.ok.inj hf)).2
    exact absurd (List.append_eq_nil_iff.mp hr).2 hm

end Framed

end RecordStore
