import DmmrOrbit.CString
import DmmrOrbit.Lib.ZeroByte

/-!
# `__vlen`

`strlen` by words, for `LONG_BIT` 64: the aligned word that the string starts in, then one word
after the other, and of a word that has a zero byte the bytes.  The first word may have a zero byte
in front of the string; the loop over the bytes then finds none and the search goes on.

`vlen_eq` says that `__vlen` returns the index of the first zero byte, and after how many words.
-/

set_option autoImplicit false

namespace DmmrOrbit.Funcs

open ByteMemory

def mask01 : UInt64 := 0x0101010101010101

def mask80 : UInt64 := 0x8080808080808080

/-- `*lp`. -/
def loadWord (m : Memory) (lp : ℕ) : UInt64 := .ofNat (word m lp 8)

/-- `va & vb` for a word. -/
def zeroTest (x : UInt64) : UInt64 :=
  let va := x - mask01
  let vb := ~~~x &&& mask80
  va &&& vb

/-- `k` bytes from `p` on: the index in the string of the first one that is zero.  The loop over the
first word and the eight `testbyte`s of a word do the same. -/
def testBytes (m : Memory) (str : ℕ) : ℕ → ℕ → Option ℕ
  | 0, _ => none
  | k + 1, p => if m p = 0 then some (p - str) else testBytes m str k (p + 1)

/-- The `for (; ; lp++)`, for at most `fuel` words. -/
def vlenWords (m : Memory) (str : ℕ) : ℕ → ℕ → Option ℕ
  | 0, _ => none
  | fuel + 1, lp =>
    (if zeroTest (loadWord m lp) ≠ 0 then testBytes m str 8 lp else none).or
      (vlenWords m str fuel (lp + 8))

/-- `__vlen`. -/
def vlen (fuel : ℕ) (m : Memory) (str : ℕ) : Option ℕ :=
  let lp := str / 8 * 8 -- `str & ~LONGPTR_MASK`
  (if zeroTest (loadWord m lp) ≠ 0 then testBytes m str (lp + 8 - str) str else none).or
    (vlenWords m str fuel (lp + 8))

/-! ## The test of a word -/

theorem toNat_loadWord (m : Memory) (lp : ℕ) : (loadWord m lp).toNat = word m lp 8 :=
  Nat.mod_eq_of_lt (word_lt m lp 8)

theorem testBit_mask80 {k : ℕ} : mask80.toNat.testBit k = true ↔ ∃ i < 8, k = 8 * i + 7 := by
  by_cases hk : k < 64
  · have hall : ∀ k < 64, mask80.toNat.testBit k = true ↔ ∃ i < 8, k = 8 * i + 7 := by decide
    exact hall k hk
  · have hlt : mask80.toNat < 2 ^ k :=
      mask80.toNat_lt.trans_le (Nat.pow_le_pow_right (by decide) (by omega))
    have hbig : mask80.toNat.testBit k = false := Nat.testBit_lt_two_pow hlt
    rw [hbig]
    refine iff_of_false (by simp) ?_
    rintro ⟨i, hi, rfl⟩
    omega

/-- **The test of a word** is not zero exactly if the word has a zero byte. -/
theorem zeroTest_ne_zero_iff (m : Memory) (lp : ℕ) :
    zeroTest (loadWord m lp) ≠ 0 ↔ ∃ i < 8, m (lp + i) = 0 := by
  have hsub : (loadWord m lp - mask01).toNat =
      (word m lp 8 + (256 ^ 8 - ones 8)) % 256 ^ 8 := by
    rw [UInt64.toNat_sub, toNat_loadWord, Nat.add_comm]
    rfl
  have hbit (i : ℕ) (hi : i < 8) : (zeroTest (loadWord m lp)).toNat.testBit (8 * i + 7) = true ↔
      Borrows m lp 8 i := by
    have hmask : mask80.toNat.testBit (8 * i + 7) = true := testBit_mask80.2 ⟨i, hi, rfl⟩
    have hnot : (~~~loadWord m lp).toNat.testBit (8 * i + 7) =
        !(word m lp 8).testBit (8 * i + 7) := by
      rw [← toNat_loadWord]
      refine BitVec.getLsbD_not.trans ?_
      rw [decide_eq_true (by omega), Bool.true_and]
      rfl
    rw [zeroTest, UInt64.toNat_and, UInt64.toNat_and, Nat.testBit_and, Nat.testBit_and, hmask,
      hnot, hsub, Bool.and_true, Bool.and_eq_true, Bool.not_eq_true']
    rfl
  rw [← borrow_iff]
  constructor
  · intro h
    obtain ⟨k, hk⟩ := Nat.exists_testBit_of_ne_zero fun hzero ↦ h (UInt64.toNat_inj.1 hzero)
    have hmask : mask80.toNat.testBit k = true := by
      rw [zeroTest, UInt64.toNat_and, UInt64.toNat_and, Nat.testBit_and, Nat.testBit_and] at hk
      simp only [Bool.and_eq_true] at hk
      exact hk.2.2
    obtain ⟨i, hi, rfl⟩ := testBit_mask80.1 hmask
    exact ⟨i, hi, (hbit i hi).1 hk⟩
  · rintro ⟨i, hi, h⟩ hzero
    have hset := (hbit i hi).2 h
    rw [hzero] at hset
    exact absurd hset (by simp)

/-! ## The bytes of a word -/

section

variable {m : Memory} {str p n k : ℕ}

theorem testBytes_eq_none (h : ∀ i < k, m (p + i) ≠ 0) : testBytes m str k p = none := by
  induction k generalizing p with
  | zero => rfl
  | succ k ih =>
    have hp : m p ≠ 0 := h 0 (Nat.succ_pos k)
    rw [testBytes, if_neg hp]
    refine ih fun i hi ↦ ?_
    rw [Nat.add_assoc, Nat.add_comm 1]
    exact h (i + 1) (Nat.succ_lt_succ hi)

/-- The first zero byte of the string is found where it is. -/
theorem testBytes_eq_some (hzero : m (str + n) = 0) (hfirst : ∀ i < n, m (str + i) ≠ 0)
    (hp : str ≤ p) (hn : p ≤ str + n) (hk : str + n < p + k) : testBytes m str k p = some n := by
  induction k generalizing p with
  | zero => omega
  | succ k ih =>
    rw [testBytes]
    by_cases hend : p = str + n
    · rw [hend, if_pos hzero, Nat.add_sub_cancel_left]
    · have hne := hfirst (p - str) (by omega)
      rw [Nat.add_sub_cancel' hp] at hne
      rw [if_neg hne]
      exact ih (by omega) (by omega) (by omega)

/-! ## The words of a string -/

/-- The search for the end of the string from a word on that it has not ended before. -/
theorem vlenWords_eq (hzero : m (str + n) = 0) (hfirst : ∀ i < n, m (str + i) ≠ 0) {fuel lp : ℕ}
    (hlp : str ≤ lp) (hn : lp ≤ str + n) (hfuel : str + n < lp + 8 * fuel) :
    vlenWords m str fuel lp = some n := by
  induction fuel generalizing lp with
  | zero => omega
  | succ fuel ih =>
    rw [vlenWords]
    by_cases hword : str + n < lp + 8
    · have htest : zeroTest (loadWord m lp) ≠ 0 :=
        (zeroTest_ne_zero_iff m lp).2 ⟨str + n - lp, by omega, by rwa [Nat.add_sub_cancel' hn]⟩
      rw [if_pos htest, testBytes_eq_some hzero hfirst hlp hn hword, Option.some_or]
    · have htest : ¬ zeroTest (loadWord m lp) ≠ 0 := by
        rw [zeroTest_ne_zero_iff]
        rintro ⟨i, hi, hbyte⟩
        refine hfirst (lp + i - str) (by omega) ?_
        rwa [Nat.add_sub_cancel' (by omega)]
      rw [if_neg htest, Option.none_or]
      exact ih (by omega) (by omega) (by omega)

/-- The first word, whatever stands in it before the string. -/
theorem vlen_eq_of_first (hzero : m (str + n) = 0) (hfirst : ∀ i < n, m (str + i) ≠ 0) {fuel : ℕ}
    (hfuel : n < 8 * fuel) : vlen fuel m str = some n := by
  rw [vlen]
  by_cases hword : str + n < str / 8 * 8 + 8
  · have htest : zeroTest (loadWord m (str / 8 * 8)) ≠ 0 :=
      (zeroTest_ne_zero_iff m _).2 ⟨str + n - str / 8 * 8, by omega, by
        rwa [Nat.add_sub_cancel' (by omega)]⟩
    rw [if_pos htest, testBytes_eq_some hzero hfirst (le_refl str) (Nat.le_add_right _ _)
      (by omega), Option.some_or]
  · have hrest : vlenWords m str fuel (str / 8 * 8 + 8) = some n :=
      vlenWords_eq hzero hfirst (by omega) (by omega) (by omega)
    have hnone : (if zeroTest (loadWord m (str / 8 * 8)) ≠ 0 then
        testBytes m str (str / 8 * 8 + 8 - str) str else none) = none := by
      split
      · refine testBytes_eq_none fun i hi ↦ hfirst i (by omega)
      · rfl
    rw [hnone, Option.none_or, hrest]

end

/-- **`__vlen` is `strlen`**: for any memory and any address of a string that has an end, it returns
the index of the first zero byte at or behind the address. -/
theorem vlen_eq (m : Memory) (str : ℕ) (h : ∃ n, m (str + n) = 0) :
    ∃ words, ∀ fuel ≥ words, vlen fuel m str = some (Nat.find h) := by
  refine ⟨Nat.find h / 8 + 1, fun fuel hfuel ↦ ?_⟩
  exact vlen_eq_of_first (Nat.find_spec h) (fun i hi ↦ Nat.find_min h hi) (by omega)

/-- Two zero bytes, of which the first one is in front of the string at 11. -/
def twoZeros : Memory := fun a ↦ if a = 8 ∨ a = 20 then 0 else 7

theorem vlen_twoZeros : ∃ words, ∀ fuel ≥ words, vlen fuel twoZeros 11 = some 9 := by
  have hend : ∃ n, twoZeros (11 + n) = 0 := ⟨9, rfl⟩
  have hfind : Nat.find hend = 9 := (Nat.find_eq_iff hend).2 ⟨rfl, by decide⟩
  have hlen := vlen_eq twoZeros 11 hend
  rwa [hfind] at hlen

/-- The length of a string that lies somewhere in memory. -/
theorem vlen_of_string {m : Memory} {str : ℕ} {s : List UInt8} (hs : ∀ b ∈ s, b ≠ 0)
    (h : load m str (s.length + 1) = s ++ [0]) {fuel : ℕ} (hfuel : s.length < 8 * fuel) :
    vlen fuel m str = some s.length := by
  have hbyte (i : ℕ) (hi : i < s.length + 1) : some (m (str + i)) = (s ++ [0])[i]? := by
    rw [← h, getElem?_load hi]
  refine vlen_eq_of_first ?_ (fun i hi ↦ ?_) hfuel
  · have hend := hbyte s.length (Nat.lt_succ_self _)
    rw [List.getElem?_concat_length] at hend
    exact Option.some.inj hend
  · have hmem := hbyte i (Nat.lt_succ_of_lt hi)
    rw [List.getElem?_append_left hi] at hmem
    exact hs _ (List.mem_of_getElem? hmem.symm)

end DmmrOrbit.Funcs
