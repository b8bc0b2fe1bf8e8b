import Mathlib.Algebra.Group.Nat.Defs
import Mathlib.Logic.Function.Iterate

/-!
# Cyclic redundancy checks

A reflected CRC of any width is a shift register: `feedBit` takes one bit of the message, the lowest
bit of each byte first, and subtracts the polynomial when the bit that leaves the register and the
bit of the message differ.

Two facts make it fast.  The register is linear (`shift_xor`), so that the bits of a byte may be
added to it all at once and eight shifts made afterwards (`feed_eq`); and the shifts of the low bits
can be looked up, while the others only move down (`iterate_shift_eq`).
-/

set_option autoImplicit false

namespace Crc

variable {w : ℕ} (poly : BitVec w)

/-- The register takes one bit of the message. -/
def feedBit (crc : BitVec w) (b : Bool) : BitVec w :=
  (crc >>> 1) ^^^ if crc.getLsbD 0 ^^ b then poly else 0#w

/-- The register takes the `k` lowest bits of a number, the lowest one first. -/
def feed : ℕ → ℕ → BitVec w → BitVec w
  | 0, _, crc => crc
  | k + 1, v, crc => feed k (v / 2) (feedBit poly crc (v.testBit 0))

/-- The checksum of a message, bit by bit. -/
def checksum (init final : BitVec w) (data : List UInt8) : BitVec w :=
  data.foldl (fun crc b ↦ feed poly 8 b.toNat crc) init ^^^ final

/-- The register without a message. -/
def shift (crc : BitVec w) : BitVec w := feedBit poly crc false

/-! ## Linearity -/

/-- The register is linear in what it holds and the bit it takes. -/
theorem feedBit_xor (x y : BitVec w) (b c : Bool) :
    feedBit poly (x ^^^ y) (b ^^ c) = feedBit poly x b ^^^ feedBit poly y c := by
  have hbit : ((x ^^^ y).getLsbD 0 ^^ (b ^^ c)) =
      ((x.getLsbD 0 ^^ b) ^^ (y.getLsbD 0 ^^ c)) := by
    rw [BitVec.getLsbD_xor, Bool.xor_assoc, Bool.xor_assoc, Bool.xor_left_comm b]
  rw [feedBit, feedBit, feedBit, hbit, BitVec.ushiftRight_xor_distrib]
  cases x.getLsbD 0 ^^ b <;> cases y.getLsbD 0 ^^ c
  · simp
  · simp [BitVec.xor_assoc]
  · simp only [Bool.xor_false, if_true, Bool.false_eq_true, if_false, BitVec.xor_zero]
    ac_rfl
  · have hcancel : poly ^^^ poly = 0#w := BitVec.xor_self
    simp only [Bool.xor_true, Bool.not_true, Bool.false_eq_true, if_true, if_false,
      BitVec.xor_zero]
    calc x >>> 1 ^^^ y >>> 1 = x >>> 1 ^^^ y >>> 1 ^^^ (poly ^^^ poly) := by
          rw [hcancel, BitVec.xor_zero]
      _ = x >>> 1 ^^^ poly ^^^ (y >>> 1 ^^^ poly) := by ac_rfl

theorem shift_xor (x y : BitVec w) : shift poly (x ^^^ y) = shift poly x ^^^ shift poly y :=
  feedBit_xor poly x y false false

theorem iterate_shift_xor (k : ℕ) (x y : BitVec w) :
    (shift poly)^[k] (x ^^^ y) = (shift poly)^[k] x ^^^ (shift poly)^[k] y := by
  induction k generalizing x y with
  | zero => rfl
  | succ k ih => rw [Function.iterate_succ_apply, shift_xor, ih]; rfl

/-! ## Several bits at once -/

/-- A bit of the message may be added to the register before the shift. -/
theorem feedBit_eq_shift (hw : 0 < w) (crc : BitVec w) (v : ℕ) :
    feedBit poly crc (v.testBit 0) = shift poly (crc ^^^ BitVec.ofNat w (v % 2)) := by
  have hbit : (BitVec.ofNat w (v % 2)).getLsbD 0 = v.testBit 0 := by
    rw [BitVec.getLsbD_ofNat, decide_eq_true hw, Bool.true_and, Nat.testBit_zero, Nat.testBit_zero,
      Nat.mod_mod]
  have hout : (BitVec.ofNat w (v % 2)) >>> 1 = 0#w := by
    apply BitVec.eq_of_toNat_eq
    rw [BitVec.toNat_ushiftRight, BitVec.toNat_ofNat, Nat.shiftRight_eq_div_pow,
      BitVec.toNat_ofNat]
    have hle := Nat.mod_le (v % 2) (2 ^ w)
    have hmod := Nat.mod_lt v (show 0 < 2 by decide)
    rw [Nat.zero_mod]
    omega
  have hsum := feedBit_xor poly crc (BitVec.ofNat w (v % 2)) (v.testBit 0) (v.testBit 0)
  have hzero : feedBit poly (BitVec.ofNat w (v % 2)) (v.testBit 0) = 0#w := by
    rw [feedBit, hbit, hout, Bool.xor_self]
    simp
  rw [hzero, BitVec.xor_zero, Bool.xor_self] at hsum
  exact hsum.symm

/-- A number that the register has room for moves down by a shift, if it is even. -/
theorem shift_double {v : ℕ} (hv : 2 * v < 2 ^ w) :
    shift poly (BitVec.ofNat w (2 * v)) = BitVec.ofNat w v := by
  have hbit : (BitVec.ofNat w (2 * v)).getLsbD 0 = false := by
    simp [BitVec.getLsbD_ofNat, Nat.testBit_zero]
  rw [shift, feedBit, hbit]
  apply BitVec.eq_of_toNat_eq
  simp [Nat.shiftRight_eq_div_pow, Nat.mod_eq_of_lt hv,
    Nat.mod_eq_of_lt (show v < 2 ^ w by omega)]

/-- **Several bits at once**: they may all be added to the register, and then come the shifts. -/
theorem feed_eq {k : ℕ} (hk : k ≤ w) {v : ℕ} (hv : v < 2 ^ k) (crc : BitVec w) :
    feed poly k v crc = (shift poly)^[k] (crc ^^^ BitVec.ofNat w v) := by
  induction k generalizing v crc with
  | zero =>
    obtain rfl : v = 0 := by omega
    rw [feed, Function.iterate_zero_apply]
    simp
  | succ k ih =>
    have hpow : 2 ^ (k + 1) ≤ 2 ^ w := Nat.pow_le_pow_right (by decide) hk
    rw [Nat.pow_succ] at hv
    have hdouble : BitVec.ofNat w (v / 2) = shift poly (BitVec.ofNat w (2 * (v / 2))) :=
      (shift_double poly (by rw [Nat.pow_succ] at hpow; omega)).symm
    have hsplit : BitVec.ofNat w (v % 2) ^^^ BitVec.ofNat w (2 * (v / 2)) = BitVec.ofNat w v := by
      apply BitVec.eq_of_getLsbD_eq
      intro i hi
      simp only [BitVec.getLsbD_xor, BitVec.getLsbD_ofNat, hi, decide_true, Bool.true_and]
      cases i with
      | zero => simp [Nat.testBit_zero]
      | succ i =>
        have hlow : v % 2 / 2 = 0 := by omega
        have hhigh : 2 * (v / 2) / 2 = v / 2 := by omega
        rw [Nat.testBit_succ, Nat.testBit_succ, Nat.testBit_succ, hlow, hhigh, Nat.zero_testBit,
          Bool.false_xor]
    rw [feed, ih (by omega) (by omega), feedBit_eq_shift poly (by omega), hdouble, ← shift_xor,
      BitVec.xor_assoc, hsplit, Function.iterate_succ_apply]

/-! ## A table -/

/-- Where the low bits are not set, they only move down. -/
theorem iterate_shift_of_low {k : ℕ} {x : BitVec w} (h : ∀ i < k, x.getLsbD i = false) :
    (shift poly)^[k] x = x >>> k := by
  induction k generalizing x with
  | zero => simp
  | succ k ih =>
    have hone : shift poly x = x >>> 1 := by
      rw [shift, feedBit, h 0 (Nat.succ_pos k)]
      simp
    rw [Function.iterate_succ_apply, hone, ih fun i hi ↦ ?_, Nat.add_comm, BitVec.shiftRight_add]
    rw [BitVec.getLsbD_ushiftRight, Nat.add_comm]
    exact h (i + 1) (Nat.succ_lt_succ hi)

/-- **A table step**: the shifts of the `k` low bits are looked up, and the rest moves down. -/
theorem iterate_shift_eq (k : ℕ) (x : BitVec w) :
    (shift poly)^[k] x = (x >>> k) ^^^ (shift poly)^[k] (BitVec.ofNat w (x.toNat % 2 ^ k)) := by
  have hlow (i : ℕ) : (BitVec.ofNat w (x.toNat % 2 ^ k)).getLsbD i =
      (decide (i < k) && x.getLsbD i) := by
    rw [BitVec.getLsbD_ofNat, Nat.testBit_mod_two_pow]
    by_cases hi : i < w
    · rw [decide_eq_true hi, Bool.true_and]
      rfl
    · rw [decide_eq_false hi, Bool.false_and, BitVec.getLsbD_of_ge x i (Nat.le_of_not_lt hi),
        Bool.and_false]
  -- the low bits and the others add up to the register
  have hsplit : x = (x ^^^ BitVec.ofNat w (x.toNat % 2 ^ k)) ^^^
      BitVec.ofNat w (x.toNat % 2 ^ k) := by
    rw [BitVec.xor_assoc, BitVec.xor_self, BitVec.xor_zero]
  have hhigh : ∀ i < k, (x ^^^ BitVec.ofNat w (x.toNat % 2 ^ k)).getLsbD i = false := by
    intro i hi
    rw [BitVec.getLsbD_xor, hlow, decide_eq_true hi, Bool.true_and, Bool.xor_self]
  have hout : BitVec.ofNat w (x.toNat % 2 ^ k) >>> k = 0#w := by
    apply BitVec.eq_of_getLsbD_eq
    intro i hi
    rw [BitVec.getLsbD_ushiftRight, hlow, decide_eq_false (by omega), Bool.false_and,
      BitVec.getLsbD_zero]
  calc (shift poly)^[k] x
      = (shift poly)^[k] (x ^^^ BitVec.ofNat w (x.toNat % 2 ^ k)) ^^^
          (shift poly)^[k] (BitVec.ofNat w (x.toNat % 2 ^ k)) := by
        rw [← iterate_shift_xor, ← hsplit]
    _ = (x >>> k) ^^^ (shift poly)^[k] (BitVec.ofNat w (x.toNat % 2 ^ k)) := by
        rw [iterate_shift_of_low poly hhigh, BitVec.ushiftRight_xor_distrib, hout, BitVec.xor_zero]

end Crc
