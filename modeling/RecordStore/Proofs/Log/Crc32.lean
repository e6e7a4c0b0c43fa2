import Mathlib.Logic.Function.Iterate
import RecordStore.Log.Crc32

/-!
# Checksums tell bytes apart

A shift of the register loses nothing: its highest bit is set just when the lowest bit was, because
the highest bit of the polynomial is. So whatever comes behind two different registers, they stay
different, and a text with one byte changed has another checksum.

* `getLsbD_shift`: the bits after a shift. `shift_injective` is what follows.
* `update_injective`: the register before some bytes is known from the one behind them.
* `crc32_set_ne`: **a text with one byte changed has another checksum**, however long it is and
  wherever the byte stands.
-/

namespace RecordStore

namespace Crc32

/-! ## Bits -/

theorem and_one_eq_one_iff (r : UInt32) : r &&& 1 = 1 ↔ r.toBitVec.getLsbD 0 = true := by
  have hbit : r.toBitVec.getLsbD 0 = decide (r.toNat % 2 = 1) := by
    rw [← BitVec.testBit_toNat, Nat.testBit_zero, UInt32.toNat_toBitVec]
  have hand : (r &&& 1).toNat = r.toNat % 2 := by
    rw [UInt32.toNat_and]
    exact Nat.and_one_is_mod _
  rw [hbit, decide_eq_true_eq, ← UInt32.toNat_inj, hand]
  rfl

/-- A bit comes from the one above it, and is changed where the polynomial has one if the lowest
bit was set. -/
theorem getLsbD_shift (r : UInt32) (i : Nat) :
    (shift r).toBitVec.getLsbD i = (r.toBitVec.getLsbD (1 + i) ^^
      (r.toBitVec.getLsbD 0 && (0xEDB88320 : UInt32).toBitVec.getLsbD i)) := by
  have hone : (UInt32.toBitVec 1 % 32).toNat = 1 := rfl
  have hright : (r >>> 1).toBitVec.getLsbD i = r.toBitVec.getLsbD (1 + i) := by
    rw [UInt32.toBitVec_shiftRight, BitVec.ushiftRight_eq', hone, BitVec.getLsbD_ushiftRight]
  unfold shift
  split
  · rename_i h
    rw [UInt32.toBitVec_xor, BitVec.getLsbD_xor, hright, (and_one_eq_one_iff r).mp h, Bool.true_and]
  · rename_i h
    rw [hright, Bool.eq_false_iff.mpr (mt (and_one_eq_one_iff r).mpr h), Bool.false_and,
      Bool.xor_false]

/-- **No bit is lost in a shift.** -/
theorem shift_injective : Function.Injective shift := by
  intro r s h
  have hbits : ∀ i, (shift r).toBitVec.getLsbD i = (shift s).toBitVec.getLsbD i := fun i => by
    rw [h]
  -- Nothing comes from above into the highest bit, so that it shows the lowest bit of before.
  have hlow : r.toBitVec.getLsbD 0 = s.toBitVec.getLsbD 0 := by
    have htop : (0xEDB88320 : UInt32).toBitVec.getLsbD 31 = true := rfl
    have h31 := hbits 31
    rwa [getLsbD_shift, getLsbD_shift, BitVec.getLsbD_of_ge r.toBitVec _ (by decide),
      BitVec.getLsbD_of_ge s.toBitVec _ (by decide), htop, Bool.and_true, Bool.and_true,
      Bool.false_xor, Bool.false_xor] at h31
  refine UInt32.toBitVec_inj.mp (BitVec.eq_of_getLsbD_eq fun i _ => ?_)
  cases i with
  | zero => exact hlow
  | succ i =>
    have hi := hbits i
    rw [getLsbD_shift, getLsbD_shift, hlow, Bool.xor_left_inj] at hi
    rwa [Nat.add_comm]

/-! ## Bytes -/

theorem step_eq_iterate (r : UInt32) (b : UInt8) : step r b = shift^[8] (r ^^^ b.toUInt32) := rfl

theorem step_injective_left (b : UInt8) : Function.Injective (step · b) := by
  intro r s h
  simp only [step_eq_iterate] at h
  have hx : r ^^^ b.toUInt32 = s ^^^ b.toUInt32 := shift_injective.iterate 8 h
  exact (UInt32.xor_left_inj _).mp hx

theorem step_injective_right (r : UInt32) : Function.Injective (step r) := by
  intro a b h
  rw [step_eq_iterate, step_eq_iterate] at h
  have hx : r ^^^ a.toUInt32 = r ^^^ b.toUInt32 := shift_injective.iterate 8 h
  exact UInt8.toUInt32_inj.mp ((UInt32.xor_right_inj _).mp hx)

/-- **Registers that differ before some bytes differ behind them.** -/
theorem update_injective (bytes : List UInt8) : Function.Injective (update · bytes) := by
  induction bytes with
  | nil => exact fun _ _ h => h
  | cons b bytes ih => exact fun _ _ h => step_injective_left b (ih h)

end Crc32

/-- **A text with one byte changed has another checksum.** -/
theorem crc32_set_ne {bytes : List UInt8} {i : Nat} {b : UInt8} (hi : i < bytes.length)
    (hb : b ≠ bytes[i]) : crc32 (bytes.set i b) ≠ crc32 bytes := by
  intro h
  have hold : bytes.take i ++ bytes[i] :: bytes.drop (i + 1) = bytes := by simp
  have hnew : bytes.set i b = bytes.take i ++ b :: bytes.drop (i + 1) :=
    List.set_eq_take_append_cons_drop.trans (if_pos hi)
  have hr : Crc32.update 0xFFFFFFFF (bytes.take i ++ b :: bytes.drop (i + 1)) =
      Crc32.update 0xFFFFFFFF (bytes.take i ++ bytes[i] :: bytes.drop (i + 1)) := by
    rw [← hnew, hold]
    exact (UInt32.xor_left_inj _).mp h
  rw [Crc32.update_append, Crc32.update_append] at hr
  exact hb (Crc32.step_injective_right _ (Crc32.update_injective _ hr))

end RecordStore
