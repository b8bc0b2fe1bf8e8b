import Mathlib.Data.Nat.Bitwise
import DmmrOrbit.Lib.ByteMemory

/-!
# Words with a zero byte

`word m a n` is the number that `n` bytes make in the memory of a little-endian host.  Whether one
of them is zero can be told from the word without taking it apart: subtract one from every byte, and
look for a byte whose highest bit is set afterwards and was not before.

The subtraction borrows from byte to byte, and `borrow_iff` says why that does no harm: up to the
lowest zero byte nothing is borrowed, and that byte itself shows.
-/

set_option autoImplicit false

namespace ByteMemory

/-- The word of `n` bytes at an address. -/
def word (m : Memory) : ℕ → ℕ → ℕ
  | _, 0 => 0
  | a, n + 1 => (m a).toNat + 256 * word m (a + 1) n

/-- The word whose bytes are all 1. -/
def ones : ℕ → ℕ
  | 0 => 0
  | n + 1 => 1 + 256 * ones n

theorem word_lt (m : Memory) (a n : ℕ) : word m a n < 256 ^ n := by
  induction n generalizing a with
  | zero => exact Nat.one_pos
  | succ n ih =>
    have hrest := ih (a + 1)
    have hbyte := (m a).toNat_lt
    rw [word, Nat.pow_succ]
    omega

theorem ones_lt (n : ℕ) : ones n < 256 ^ n := by
  induction n with
  | zero => exact Nat.one_pos
  | succ n ih =>
    rw [ones, Nat.pow_succ]
    omega

/-! ## The highest bits of the bytes -/

/-- The highest bit of the byte `i`. -/
def highBit (x i : ℕ) : Bool := x.testBit (8 * i + 7)

theorem highBit_zero {c z : ℕ} (hc : c < 256) : highBit (c + 256 * z) 0 = decide (128 ≤ c) := by
  rw [highBit, Nat.testBit_eq_decide_div_mod_eq, decide_eq_decide]
  omega

theorem highBit_succ {c z : ℕ} (hc : c < 256) (i : ℕ) :
    highBit (c + 256 * z) (i + 1) = highBit z i := by
  have hbit := Nat.testBit_two_pow_mul_add z (b := c) (i := 8) hc (8 * (i + 1) + 7)
  rw [if_neg (by omega), show 8 * (i + 1) + 7 - 8 = 8 * i + 7 by omega] at hbit
  rw [highBit, Nat.add_comm]
  exact hbit

/-- The subtraction, byte by byte: if the lowest byte is not zero, nothing is borrowed. -/
theorem sub_ones_succ {b x n : ℕ} (hb : 0 < b) (hb' : b < 256) :
    (b + 256 * x + (256 ^ (n + 1) - ones (n + 1))) % 256 ^ (n + 1) =
      (b - 1) + 256 * ((x + (256 ^ n - ones n)) % 256 ^ n) := by
  have hones := ones_lt n
  rw [ones, Nat.pow_succ, Nat.mul_comm (256 ^ n), Nat.mod_mul]
  congr 1
  · omega
  · congr 2
    omega

/-- A zero byte borrows, and becomes 255. -/
theorem sub_ones_zero {x n : ℕ} : ∃ z, (256 * x + (256 ^ (n + 1) - ones (n + 1))) % 256 ^ (n + 1) =
    255 + 256 * z := by
  have hones := ones_lt n
  refine ⟨(256 * x + (256 ^ (n + 1) - ones (n + 1))) / 256 % 256 ^ n, ?_⟩
  rw [ones, Nat.pow_succ, Nat.mul_comm (256 ^ n), Nat.mod_mul]
  congr 1
  omega

/-- The byte `i` gets its highest bit by the subtraction. -/
def Borrows (m : Memory) (a n i : ℕ) : Prop :=
  highBit ((word m a n + (256 ^ n - ones n)) % 256 ^ n) i = true ∧ highBit (word m a n) i = false

theorem borrows_of_zero {m : Memory} {a n : ℕ} (h : m a = 0) : Borrows m a (n + 1) 0 := by
  have hword : word m a (n + 1) = 256 * word m (a + 1) n := by
    rw [word, h, UInt8.toNat_zero, Nat.zero_add]
  obtain ⟨z, hz⟩ := sub_ones_zero (x := word m (a + 1) n) (n := n)
  have hlow := highBit_zero (c := 0) (z := word m (a + 1) n) (by decide)
  rw [Nat.zero_add] at hlow
  rw [Borrows, hword, hz, hlow, highBit_zero (by decide)]
  exact ⟨rfl, rfl⟩

section

variable {m : Memory} {a n : ℕ}

theorem not_borrows_low (h : m a ≠ 0) : ¬ Borrows m a (n + 1) 0 := by
  have hpos : 0 < (m a).toNat := Nat.pos_of_ne_zero fun hzero ↦ h (UInt8.toNat_inj.1 hzero)
  have hbyte := (m a).toNat_lt
  rw [Borrows, word, sub_ones_succ hpos hbyte, highBit_zero (by omega), highBit_zero hbyte,
    decide_eq_true_iff, decide_eq_false_iff_not]
  omega

theorem borrows_succ_iff (h : m a ≠ 0) (i : ℕ) :
    Borrows m a (n + 1) (i + 1) ↔ Borrows m (a + 1) n i := by
  have hpos : 0 < (m a).toNat := Nat.pos_of_ne_zero fun hzero ↦ h (UInt8.toNat_inj.1 hzero)
  have hbyte := (m a).toNat_lt
  rw [Borrows, word, sub_ones_succ hpos hbyte, highBit_succ (by omega), highBit_succ hbyte, Borrows]

end

/-- **Where a bit appears**: after the subtraction some byte has its highest bit set that did not
have it before, if and only if there is a zero byte. -/
theorem borrow_iff (m : Memory) (a n : ℕ) :
    (∃ i < n, Borrows m a n i) ↔ ∃ i < n, m (a + i) = 0 := by
  induction n generalizing a with
  | zero => simp
  | succ n ih =>
    by_cases hzero : m a = 0
    · exact iff_of_true ⟨0, Nat.succ_pos n, borrows_of_zero hzero⟩ ⟨0, Nat.succ_pos n, hzero⟩
    · have hlow : ¬ m (a + 0) = 0 := hzero
      rw [Nat.exists_lt_succ_left, Nat.exists_lt_succ_left,
        or_iff_right (not_borrows_low hzero), or_iff_right hlow]
      have hrest : (∃ i < n, Borrows m a (n + 1) (i + 1)) ↔ ∃ i < n, Borrows m (a + 1) n i :=
        exists_congr fun i ↦ and_congr_right fun _ ↦ borrows_succ_iff hzero i
      refine hrest.trans ((ih (a + 1)).trans (exists_congr fun i ↦ and_congr_right fun _ ↦ ?_))
      rw [Nat.add_assoc, Nat.add_comm 1]

end ByteMemory
