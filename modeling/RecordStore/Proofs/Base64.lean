import RecordStore.Base64

/-!
# Base 64 writes bytes in one way

What `encode` writes is what `decode?` reads: three bytes at a time, and one or two at the end. It
reads nothing else. What is written can be told from the bits alone: the digits have those of the
bytes and then zeros, and a `=` stands for each digit that the last four lack.

* `decode?_encode`: the bytes written are the bytes read.
* `eq_encodeChars_of_decodeChars`: a text that is read is the one that is written of the bytes.
* `bits_append`: the bits of a number in two parts. `bits_triple`: in three bytes or four digits.
* `Writes`: that the digits of a text have the bits of some bytes. `writes_iff`: **just one text
  writes them**, and it is the one that is written.
* `length_encodeChars`: how long the text of some bytes is.
* `Regular`: that a text writes some bytes, whatever they are (`regular_iff`).
* `decode?_canonical`: **which texts are read, and as which bytes.**
-/

namespace RecordStore.Base64

theorem digit_ne_pad {n : Nat} (h : n < 64) : digit n ≠ '=' := by
  have : ∀ i : Fin 64, digit i ≠ '=' := by decide +kernel
  exact this ⟨n, h⟩

theorem ofNat_eq {n : Nat} {b : UInt8} (h : n % 256 = b.toNat) : UInt8.ofNat n = b := by
  apply UInt8.toNat_inj.mp
  rw [UInt8.toNat_ofNat']
  exact h

/-! ## What is written is read -/

/-- Four digits that do not end in padding are a group of their own. -/
theorem decodeChars_group {p q r s : Nat} (hp : p < 64) (hq : q < 64) (hr : r < 64) (hs : s < 64)
    (rest : List Char) :
    decodeChars (digit p :: digit q :: digit r :: digit s :: rest) =
      (decodeChars rest).map fun more =>
        let n := ((p * 64 + q) * 64 + r) * 64 + s
        .ofNat (n / 65536) :: .ofNat (n / 256) :: .ofNat n :: more := by
  rw [decodeChars]
  · simp only [digitValue?_digit, hp, hq, hr, hs, Option.bind_eq_bind, Option.bind_some]
    cases decodeChars rest <;> rfl
  · intro _ h
    exact absurd h (digit_ne_pad hs)
  · intro h
    exact absurd h (digit_ne_pad hs)

theorem decodeChars_encodeChars (bytes : List UInt8) :
    decodeChars (encodeChars bytes) = some bytes := by
  fun_induction encodeChars bytes with
  | case1 => rfl
  | case2 a n =>
    have ha := a.toNat_lt
    rw [decodeChars, digitValue?_digit (by omega), digitValue?_digit (by omega)]
    have h : n / 64 * 64 + n % 64 = n := by omega
    simp only [Option.bind_eq_bind, Option.bind_some, h]
    rw [if_pos (by omega), ofNat_eq (b := a) (by omega)]
  | case3 a b n =>
    have ha := a.toNat_lt
    have hb := b.toNat_lt
    rw [decodeChars, digitValue?_digit (by omega), digitValue?_digit (by omega),
      digitValue?_digit (by omega)]
    · have h : (n / 4096 * 64 + n / 64 % 64) * 64 + n % 64 = n := by omega
      simp only [Option.bind_eq_bind, Option.bind_some, h]
      rw [if_pos (by omega), ofNat_eq (b := a) (by omega), ofNat_eq (b := b) (by omega)]
    · exact digit_ne_pad (by omega)
  | case4 a b c rest n ih =>
    have ha := a.toNat_lt
    have hb := b.toNat_lt
    have hc := c.toNat_lt
    rw [decodeChars_group (by omega) (by omega) (by omega) (by omega), ih]
    have h : ((n / 262144 * 64 + n / 4096 % 64) * 64 + n / 64 % 64) * 64 + n % 64 = n := by omega
    simp only [Option.map_some, h]
    rw [ofNat_eq (b := a) (by omega), ofNat_eq (b := b) (by omega), ofNat_eq (b := c) (by omega)]

/-- **Bytes written in base 64 are read back.** -/
theorem decode?_encode (bytes : List UInt8) : decode? (encode bytes) = some bytes := by
  rw [decode?, encode, String.toList_ofList, decodeChars_encodeChars]

/-! ## What is read is written -/

/-- A digit that has a value is the digit of this value. -/
theorem digit_of_digitValue? {c : Char} {n : Nat} (h : digitValue? c = some n) :
    n < 64 ∧ digit n = c := by
  have hle (a b : Char) : a ≤ b ↔ a.toNat ≤ b.toNat := UInt32.le_iff_toNat_le
  have hof {k : Nat} (hk : k = c.toNat) : Char.ofNat k = c := hk ▸ Char.ofNat_toNat c
  simp only [digitValue?, hle, Char.reduceToNat] at h
  unfold digit
  split at h
  · cases h
    rw [if_pos (by omega), hof (by omega)]
    exact ⟨by omega, rfl⟩
  · split at h
    · cases h
      rw [if_neg (by omega), if_pos (by omega), hof (by omega)]
      exact ⟨by omega, rfl⟩
    · split at h
      · cases h
        rw [if_neg (by omega), if_neg (by omega), if_pos (by omega), hof (by omega)]
        exact ⟨by omega, rfl⟩
      · split at h
        · rename_i hc
          cases h
          exact ⟨by decide, hc.symm⟩
        · split at h
          · rename_i hc
            cases h
            exact ⟨by decide, hc.symm⟩
          · cases h

theorem eq_encodeChars_of_decodeChars {cs : List Char} {bytes : List UInt8}
    (h : decodeChars cs = some bytes) : cs = encodeChars bytes := by
  fun_induction decodeChars cs generalizing bytes with
  | case1 =>
    cases h
    rfl
  | case2 w x =>
    simp only [Option.bind_eq_bind, Option.bind_eq_some_iff, Option.ite_none_right_eq_some,
      Option.some.injEq] at h
    obtain ⟨p, hp, q, hq, hzero, rfl⟩ := h
    obtain ⟨hp, rfl⟩ := digit_of_digitValue? hp
    obtain ⟨hq, rfl⟩ := digit_of_digitValue? hq
    have hn : (UInt8.ofNat ((p * 64 + q) / 16)).toNat * 16 = p * 64 + q := by
      rw [UInt8.toNat_ofNat']
      omega
    have hfirst : (p * 64 + q) / 64 = p := by omega
    have hlast : (p * 64 + q) % 64 = q := by omega
    simp only [encodeChars, hn, hfirst, hlast]
  | case3 w x y _ =>
    simp only [Option.bind_eq_bind, Option.bind_eq_some_iff, Option.ite_none_right_eq_some,
      Option.some.injEq] at h
    obtain ⟨p, hp, q, hq, r, hr, hzero, rfl⟩ := h
    obtain ⟨hp, rfl⟩ := digit_of_digitValue? hp
    obtain ⟨hq, rfl⟩ := digit_of_digitValue? hq
    obtain ⟨hr, rfl⟩ := digit_of_digitValue? hr
    generalize hv : (p * 64 + q) * 64 + r = v at hzero
    have hn : ((UInt8.ofNat (v / 1024)).toNat * 256 + (UInt8.ofNat (v / 4)).toNat) * 4 = v := by
      rw [UInt8.toNat_ofNat', UInt8.toNat_ofNat']
      omega
    have hfirst : v / 4096 = p := by omega
    have hsecond : v / 64 % 64 = q := by omega
    have hlast : v % 64 = r := by omega
    simp only [encodeChars, hn, hfirst, hsecond, hlast]
  | case4 w x y z rest _ _ ih =>
    simp only [Option.bind_eq_bind, Option.bind_eq_some_iff] at h
    obtain ⟨p, hp, q, hq, r, hr, s, hs, more, hmore, heq⟩ := h
    cases heq
    obtain ⟨hp, rfl⟩ := digit_of_digitValue? hp
    obtain ⟨hq, rfl⟩ := digit_of_digitValue? hq
    obtain ⟨hr, rfl⟩ := digit_of_digitValue? hr
    obtain ⟨hs, rfl⟩ := digit_of_digitValue? hs
    generalize hv : ((p * 64 + q) * 64 + r) * 64 + s = v
    have hn : ((UInt8.ofNat (v / 65536)).toNat * 256 + (UInt8.ofNat (v / 256)).toNat) * 256 +
        (UInt8.ofNat v).toNat = v := by
      rw [UInt8.toNat_ofNat', UInt8.toNat_ofNat', UInt8.toNat_ofNat']
      omega
    have hfirst : v / 262144 = p := by omega
    have hsecond : v / 4096 % 64 = q := by omega
    have hthird : v / 64 % 64 = r := by omega
    have hlast : v % 64 = s := by omega
    simp only [encodeChars, hn, hfirst, hsecond, hthird, hlast, ih hmore]
  | case5 => cases h

/-! ## Digits, bits and padding -/

/-- The digits in the order of their values. -/
def alphabet : List Char :=
  "ABCDEFGHIJKLMNOPQRSTUVWXYZabcdefghijklmnopqrstuvwxyz0123456789+/".toList

/-- The digit of a value. -/
def letter (d : Fin 64) : Char := alphabet.get (d.cast rfl)

theorem letter_eq : ∀ d : Fin 64, letter d = digit d := by decide +kernel

/-- So many of the last bits of a number, the highest first. -/
def bits : Nat → Nat → List Bool
  | 0, _ => []
  | width + 1, n => n.testBit width :: bits width n

theorem length_bits (width n : Nat) : (bits width n).length = width := by
  induction width with
  | zero => rfl
  | succ width ih => rw [bits, List.length_cons, ih]

theorem bits_mod (width n : Nat) : bits width (n % Nat.pow 2 width) = bits width n := by
  have h : ∀ k ≤ width, bits k (n % Nat.pow 2 width) = bits k n := by
    intro k hk
    induction k with
    | zero => rfl
    | succ k ih =>
      have hlt : k < width := hk
      have hbit : (n % Nat.pow 2 width).testBit k = n.testBit k := by
        refine (Nat.testBit_mod_two_pow n width k).trans ?_
        rw [decide_eq_true hlt, Bool.true_and]
      rw [bits, bits, hbit, ih (Nat.le_of_lt hlt)]
  exact h width (Nat.le_refl width)

theorem bits_append (width more n : Nat) :
    bits (width + more) n = bits width (n / Nat.pow 2 more) ++ bits more n := by
  induction width with
  | zero =>
    rw [Nat.zero_add]
    rfl
  | succ width ih =>
    have hbit : (n / Nat.pow 2 more).testBit width = n.testBit (width + more) :=
      Nat.testBit_div_two_pow ..
    rw [Nat.succ_add, bits, bits, ih, hbit, List.cons_append]

theorem testBit_of_bits {width n m : Nat} (h : bits width n = bits width m) :
    ∀ i < width, n.testBit i = m.testBit i := by
  induction width with
  | zero => exact fun i hi => absurd hi (Nat.not_lt_zero i)
  | succ width ih =>
    obtain ⟨hbit, hrest⟩ := List.cons.inj h
    intro i hi
    rcases Nat.lt_succ_iff_lt_or_eq.mp hi with hi | rfl
    · exact ih hrest i hi
    · exact hbit

theorem bits_inj {p q : Fin 64} (h : bits 6 p = bits 6 q) : p = q := by
  refine Fin.ext (Nat.eq_of_testBit_eq fun i => ?_)
  by_cases hi : i < 6
  · exact testBit_of_bits h i hi
  · have hsize : Nat.pow 2 6 ≤ Nat.pow 2 i :=
      Nat.pow_le_pow_right Nat.two_pos (Nat.le_of_not_lt hi)
    have hnone (r : Fin 64) : r.val.testBit i = false :=
      Nat.testBit_lt_two_pow (Nat.lt_of_lt_of_le r.isLt hsize)
    rw [hnone p, hnone q]

theorem bits_zero (width : Nat) : bits width 0 = List.replicate width false := by
  induction width with
  | zero => rfl
  | succ width ih => rw [bits, Nat.zero_testBit, ih, List.replicate_succ]

theorem bits_eq_zeros {width n : Nat} (h : n % Nat.pow 2 width = 0) :
    bits width n = List.replicate width false := by
  rw [← bits_mod, h, bits_zero]

/-- Two digits have the bits of a byte, and four more. -/
theorem bits_byte (n : Nat) : bits 6 (n / 64) ++ bits 6 n = bits 8 (n / 16) ++ bits 4 n := by
  have hdigits : bits 12 n = bits 6 (n / 64) ++ bits 6 n := bits_append 6 6 n
  have hbytes : bits 12 n = bits 8 (n / 16) ++ bits 4 n := bits_append 8 4 n
  rw [← hdigits, ← hbytes]

/-- Three digits have the bits of two bytes, and two more. -/
theorem bits_pair (n : Nat) :
    bits 6 (n / 4096) ++ (bits 6 (n / 64) ++ bits 6 n) =
      bits 8 (n / 1024) ++ (bits 8 (n / 4) ++ bits 2 n) := by
  have hdigits : bits 18 n = bits 6 (n / 4096) ++ bits 12 n := bits_append 6 12 n
  have hlast : bits 12 n = bits 6 (n / 64) ++ bits 6 n := bits_append 6 6 n
  have hbytes : bits 18 n = bits 8 (n / 1024) ++ bits 10 n := bits_append 8 10 n
  have hrest : bits 10 n = bits 8 (n / 4) ++ bits 2 n := bits_append 8 2 n
  rw [← hlast, ← hdigits, ← hrest, ← hbytes]

/-- Four digits have the bits of three bytes. -/
theorem bits_triple (n : Nat) :
    bits 6 (n / 262144) ++ (bits 6 (n / 4096) ++ (bits 6 (n / 64) ++ bits 6 n)) =
      bits 8 (n / 65536) ++ (bits 8 (n / 256) ++ bits 8 n) := by
  have hdigits : bits 24 n = bits 6 (n / 262144) ++ bits 18 n := bits_append 6 18 n
  have hmiddle : bits 18 n = bits 6 (n / 4096) ++ bits 12 n := bits_append 6 12 n
  have hlast : bits 12 n = bits 6 (n / 64) ++ bits 6 n := bits_append 6 6 n
  have hbytes : bits 24 n = bits 8 (n / 65536) ++ bits 16 n := bits_append 8 16 n
  have hrest : bits 16 n = bits 8 (n / 256) ++ bits 8 n := bits_append 8 8 n
  rw [← hlast, ← hmiddle, ← hdigits, ← hrest, ← hbytes]

/-- Any eight bits are those of a byte. -/
theorem exists_byte {l : List Bool} (h : l.length = 8) : ∃ b : UInt8, bits 8 b.toNat = l := by
  have hvalue : ∀ a b c d e f g i : Bool,
      bits 8 (UInt8.ofNat ([a, b, c, d, e, f, g, i].foldl (fun n bit => 2 * n + bit.toNat) 0)).toNat
        = [a, b, c, d, e, f, g, i] := by
    decide +kernel
  match l, h with
  | [a, b, c, d, e, f, g, i], _ => exact ⟨_, hvalue a b c d e f g i⟩

/-- The bits of some digits. -/
def digitBits (digits : List (Fin 64)) : List Bool := digits.flatMap fun d => bits 6 d.val

/-- The bits of some bytes. -/
def byteBits (bytes : List UInt8) : List Bool := bytes.flatMap fun b => bits 8 b.toNat

@[simp]
theorem digitBits_nil : digitBits [] = [] := rfl

@[simp]
theorem byteBits_nil : byteBits [] = [] := rfl

theorem length_digitBits (digits : List (Fin 64)) :
    (digitBits digits).length = 6 * digits.length := by
  induction digits with
  | nil => rfl
  | cons d digits ih =>
    rw [digitBits, List.flatMap_cons, ← digitBits, List.length_append, length_bits, ih,
      List.length_cons]
    omega

theorem length_byteBits (bytes : List UInt8) : (byteBits bytes).length = 8 * bytes.length := by
  induction bytes with
  | nil => rfl
  | cons b bytes ih =>
    rw [byteBits, List.flatMap_cons, ← byteBits, List.length_append, length_bits, ih,
      List.length_cons]
    omega

theorem digitBits_inj {digits digits' : List (Fin 64)} (h : digitBits digits = digitBits digits') :
    digits = digits' := by
  induction digits generalizing digits' with
  | nil =>
    have hlen := congrArg List.length h
    rw [length_digitBits, length_digitBits, List.length_nil] at hlen
    exact (List.length_eq_zero_iff.mp (by omega)).symm
  | cons d digits ih =>
    cases digits' with
    | nil => cases h
    | cons d' digits' =>
      obtain ⟨hfirst, hrest⟩ := List.append_inj h (by rw [length_bits, length_bits])
      rw [bits_inj hfirst, ih hrest]

theorem exists_bytes {data : List Bool} (h : 8 ∣ data.length) : ∃ bytes, byteBits bytes = data := by
  obtain ⟨k, hk⟩ := h
  induction k generalizing data with
  | zero => exact ⟨[], (List.length_eq_zero_iff.mp hk).symm⟩
  | succ k ih =>
    obtain ⟨b, hb⟩ := exists_byte (l := data.take 8) (by rw [List.length_take]; omega)
    have hdrop : (data.drop 8).length = 8 * k := by
      rw [List.length_drop]
      omega
    obtain ⟨bytes, hbytes⟩ := ih hdrop
    refine ⟨b :: bytes, ?_⟩
    rw [byteBits, List.flatMap_cons, hb, ← byteBits, hbytes, List.take_append_drop]

/-! ## Which texts write bytes -/

/-- That a text is some digits, and behind them as many `=` as fill the last four up. -/
structure Fills (digits : List (Fin 64)) (pad : Nat) (cs : List Char) : Prop where
  pad_le : pad ≤ 2
  full : 4 ∣ digits.length + pad
  eq_append : cs = digits.map letter ++ List.replicate pad '='

/-- That a text has digits and `=` only where they may stand, and no unused bit that is set. -/
def Regular (cs : List Char) : Prop :=
  ∃ digits pad data, Fills digits pad cs ∧
    digitBits digits = data ++ List.replicate (2 * pad) false

/-- That a text writes some bytes: its digits have their bits, and zeros behind them. -/
def Writes (cs : List Char) (bytes : List UInt8) : Prop :=
  ∃ digits pad, Fills digits pad cs ∧
    digitBits digits = byteBits bytes ++ List.replicate (2 * pad) false

/-- The value of the last six bits of a number. -/
def sextet (n : Nat) : Fin 64 := ⟨n % 64, Nat.mod_lt n (by decide)⟩

theorem letter_sextet (n : Nat) : letter (sextet n) = digit (n % 64) := letter_eq _

theorem digitBits_cons (n : Nat) (digits : List (Fin 64)) :
    digitBits (sextet n :: digits) = bits 6 n ++ digitBits digits :=
  congrArg (· ++ digitBits digits) (bits_mod 6 n)

theorem byteBits_cons {n : Nat} {b : UInt8} (h : n % 256 = b.toNat) (bytes : List UInt8) :
    byteBits (b :: bytes) = bits 8 n ++ byteBits bytes := by
  rw [byteBits, List.flatMap_cons, ← byteBits, ← h]
  exact congrArg (· ++ byteBits bytes) (bits_mod 8 n)

/-- What is written writes the bytes. -/
theorem writes_encodeChars (bytes : List UInt8) : Writes (encodeChars bytes) bytes := by
  fun_induction encodeChars bytes with
  | case1 => exact ⟨[], 0, ⟨by decide, by decide, rfl⟩, rfl⟩
  | case2 a n =>
    have ha := a.toNat_lt
    have hfirst : n / 64 % 64 = n / 64 := by omega
    have hunused : bits 4 n = List.replicate 4 false := bits_eq_zeros (show n % 16 = 0 by omega)
    refine ⟨[sextet (n / 64), sextet n], 2, ⟨by decide, ⟨1, rfl⟩, ?_⟩, ?_⟩
    · rw [List.map_cons, List.map_cons, letter_sextet, letter_sextet, hfirst]
      rfl
    · rw [digitBits_cons, digitBits_cons, byteBits_cons (n := n / 16) (by omega), digitBits_nil,
        byteBits_nil, List.append_nil, List.append_nil, bits_byte, hunused]
  | case3 a b n =>
    have ha := a.toNat_lt
    have hb := b.toNat_lt
    have hfirst : n / 4096 % 64 = n / 4096 := by omega
    have hunused : bits 2 n = List.replicate 2 false := bits_eq_zeros (show n % 4 = 0 by omega)
    refine ⟨[sextet (n / 4096), sextet (n / 64), sextet n], 1, ⟨by decide, ⟨1, rfl⟩, ?_⟩, ?_⟩
    · rw [List.map_cons, List.map_cons, List.map_cons, letter_sextet, letter_sextet, letter_sextet,
        hfirst]
      rfl
    · rw [digitBits_cons, digitBits_cons, digitBits_cons, byteBits_cons (n := n / 1024) (by omega),
        byteBits_cons (n := n / 4) (by omega), digitBits_nil, byteBits_nil, List.append_nil,
        List.append_nil, bits_pair, hunused, List.append_assoc]
  | case4 a b c rest n ih =>
    have ha := a.toNat_lt
    have hb := b.toNat_lt
    have hc := c.toNat_lt
    have hfirst : n / 262144 % 64 = n / 262144 := by omega
    obtain ⟨digits, pad, ⟨hpad, hfull, heq⟩, hbits⟩ := ih
    refine ⟨sextet (n / 262144) :: sextet (n / 4096) :: sextet (n / 64) :: sextet n :: digits, pad,
      ⟨hpad, ?_, ?_⟩, ?_⟩
    · simp only [List.length_cons]
      omega
    · rw [heq, List.map_cons, List.map_cons, List.map_cons, List.map_cons, letter_sextet,
        letter_sextet, letter_sextet, letter_sextet, hfirst]
      rfl
    · rw [digitBits_cons, digitBits_cons, digitBits_cons, digitBits_cons,
        byteBits_cons (n := n / 65536) (by omega), byteBits_cons (n := n / 256) (by omega),
        byteBits_cons (n := n) (by omega), hbits]
      simpa only [List.append_assoc] using congrArg
        (· ++ (byteBits rest ++ List.replicate (2 * pad) false)) (bits_triple n)

/-- Every three bytes take four characters, and so do one or two at the end. -/
theorem length_encodeChars (bytes : List UInt8) :
    (encodeChars bytes).length = 4 * ((bytes.length + 2) / 3) := by
  obtain ⟨digits, pad, ⟨hpad, ⟨k, hk⟩, heq⟩, hbits⟩ := writes_encodeChars bytes
  have hlen := congrArg List.length hbits
  rw [length_digitBits, List.length_append, length_byteBits, List.length_replicate] at hlen
  rw [heq, List.length_append, List.length_map, List.length_replicate]
  omega

theorem mem_of_mem_encodeChars {bytes : List UInt8} {c : Char} (h : c ∈ encodeChars bytes) :
    c ∈ '=' :: alphabet := by
  obtain ⟨digits, pad, ⟨-, -, heq⟩, -⟩ := writes_encodeChars bytes
  rw [heq, List.mem_append] at h
  rcases h with h | h
  · obtain ⟨d, -, rfl⟩ := List.mem_map.mp h
    exact List.mem_cons_of_mem _ (List.get_mem alphabet _)
  · rw [List.eq_of_mem_replicate h]
    exact List.mem_cons_self

/-- One text at most writes some bytes. -/
theorem Writes.unique {cs cs' : List Char} {bytes : List UInt8} (h : Writes cs bytes)
    (h' : Writes cs' bytes) : cs = cs' := by
  obtain ⟨digits, pad, ⟨hpad, ⟨k, hk⟩, rfl⟩, hbits⟩ := h
  obtain ⟨digits', pad', ⟨hpad', ⟨k', hk'⟩, rfl⟩, hbits'⟩ := h'
  -- The number of bytes tells how many digits there are, and so how many are lacking.
  have hlen := congrArg List.length hbits
  have hlen' := congrArg List.length hbits'
  rw [length_digitBits, List.length_append, length_byteBits, List.length_replicate] at hlen hlen'
  obtain rfl : pad = pad' := by omega
  rw [digitBits_inj (hbits.trans hbits'.symm)]

/-- **There is one text that writes some bytes.** -/
theorem writes_iff {cs : List Char} {bytes : List UInt8} :
    Writes cs bytes ↔ cs = encodeChars bytes := by
  constructor
  · exact fun h => h.unique (writes_encodeChars bytes)
  · rintro rfl
    exact writes_encodeChars bytes

/-- A text writes some bytes as soon as it is regular. -/
theorem regular_iff {cs : List Char} : Regular cs ↔ ∃ bytes, Writes cs bytes := by
  constructor
  · rintro ⟨digits, pad, data, hfills, hbits⟩
    have hlen := congrArg List.length hbits
    rw [length_digitBits, List.length_append, List.length_replicate] at hlen
    have hpad := hfills.pad_le
    obtain ⟨k, hk⟩ := hfills.full
    have hdata : 8 ∣ data.length := by omega
    obtain ⟨bytes, rfl⟩ := exists_bytes hdata
    exact ⟨bytes, digits, pad, hfills, hbits⟩
  · rintro ⟨bytes, digits, pad, hfills, hbits⟩
    exact ⟨digits, pad, _, hfills, hbits⟩

theorem decode?_eq_some_iff {text : String} {bytes : List UInt8} :
    decode? text = some bytes ↔ text = encode bytes := by
  constructor
  · intro h
    rw [encode, ← eq_encodeChars_of_decodeChars h, String.ofList_toList]
  · rintro rfl
    exact decode?_encode bytes

/-- **Which texts are read, and as which bytes.** Bytes that are written are read back. A text is
read as some bytes just when it is what is written of them, and just when its digits have the bits
of the bytes, with zeros and padding up to a group of four. So a text is read just when it is made
of digits, with as much padding as is lacking behind them and no unused bit that is set. -/
theorem decode?_canonical :
    (∀ bytes, decode? (encode bytes) = some bytes) ∧
    (∀ text bytes, decode? text = some bytes ↔ text = encode bytes) ∧
    (∀ text bytes, decode? text = some bytes ↔ Writes text.toList bytes) ∧
    ∀ text, (∃ bytes, decode? text = some bytes) ↔ Regular text.toList := by
  have hwrites (text : String) (bytes : List UInt8) :
      decode? text = some bytes ↔ Writes text.toList bytes := by
    rw [decode?_eq_some_iff, writes_iff, ← String.toList_inj, encode, String.toList_ofList]
  refine ⟨decode?_encode, fun text bytes => decode?_eq_some_iff, hwrites, fun text => ?_⟩
  rw [regular_iff]
  exact exists_congr (hwrites text)

/-- Padding may not lack, no unused bit may be set, and no blank may stand behind the text. -/
example : decode? "QQ==" = some [0x41] ∧ decode? "QQ=" = none ∧ decode? "QR==" = none ∧
    decode? "QQ== " = none := by
  decide +kernel

end RecordStore.Base64
