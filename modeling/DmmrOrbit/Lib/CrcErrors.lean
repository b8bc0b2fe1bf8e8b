import Mathlib.Algebra.Group.Nat.Defs
import Mathlib.Data.List.Basic
import Mathlib.Data.UInt
import Mathlib.Dynamics.PeriodicPts.Lemmas
import DmmrOrbit.Lib.Crc

/-!
# The errors that a cyclic redundancy check detects

The register is linear, so that the checksums of two messages of one length differ exactly when the
register, started at zero, does not end at zero on their difference (`checksum_eq_iff`).  If the
polynomial has its highest bit, the shift is injective (`shift_injective`), and the zeros in front
of the first and behind the last difference do not matter.  What lies between them is found

* if it is at most as long as the register (`checksum_ne_of_burst`), and
* if it is two bits at a distance smaller than the period of the shift (`checksum_ne_of_two_bits`).

The period is found without running through it: `power` computes a power of the shift by squaring,
and `iterate_ne_of_maximal` looks at one exponent for each prime factor.
-/

set_option autoImplicit false

namespace Crc

variable {w : ℕ} (poly : BitVec w)

/-- The bits of a message, in the order in which the register takes them. -/
def bits (data : List UInt8) : List Bool :=
  data.flatMap fun b ↦ (List.range 8).map b.toNat.testBit

/-- The register takes bit after bit. -/
def feedBits (crc : BitVec w) (bs : List Bool) : BitVec w := bs.foldl (feedBit poly) crc

/-- Where two messages differ. -/
def difference (a b : List UInt8) : List Bool := List.zipWith (· ^^ ·) (bits a) (bits b)

/-! ## The bits of a message -/

theorem bits_cons (b : UInt8) (data : List UInt8) :
    bits (b :: data) = (List.range 8).map b.toNat.testBit ++ bits data :=
  List.flatMap_cons

theorem length_bits (data : List UInt8) : (bits data).length = 8 * data.length := by
  induction data with
  | nil => rfl
  | cons b data ih =>
    rw [bits_cons, List.length_append, List.length_map, List.length_range, ih, List.length_cons]
    omega

theorem bits_injective : Function.Injective bits := by
  intro a b h
  induction a generalizing b with
  | nil =>
    have hlen := congrArg List.length h
    rw [length_bits, length_bits, List.length_nil] at hlen
    exact (List.length_eq_zero_iff.1 (by omega)).symm
  | cons x a ih =>
    cases b with
    | nil =>
      have hlen := congrArg List.length h
      rw [length_bits, length_bits, List.length_cons, List.length_nil] at hlen
      omega
    | cons y b =>
      obtain ⟨hhead, htail⟩ := List.append_inj h (by simp)
      have hbits (i : ℕ) (hi : i < 8) : x.toNat.testBit i = y.toNat.testBit i :=
        List.map_inj_left.1 hhead i (List.mem_range.2 hi)
      have hxy : x.toNat = y.toNat := by
        apply Nat.eq_of_testBit_eq
        intro i
        by_cases hi : i < 8
        · exact hbits i hi
        · have hpow : 2 ^ 8 ≤ 2 ^ i := Nat.pow_le_pow_right (by decide) (Nat.le_of_not_lt hi)
          rw [Nat.testBit_lt_two_pow (x.toNat_lt.trans_le hpow),
            Nat.testBit_lt_two_pow (y.toNat_lt.trans_le hpow)]
      rw [UInt8.toNat_inj.1 hxy, ih htail]

theorem feed_eq_feedBits (k v : ℕ) (crc : BitVec w) :
    feed poly k v crc = feedBits poly crc ((List.range k).map v.testBit) := by
  induction k generalizing v crc with
  | zero => rfl
  | succ k ih =>
    rw [feed, ih, List.range_succ_eq_map, List.map_cons, List.map_map, feedBits, feedBits,
      List.foldl_cons]
    congr 2
    funext i
    exact (Nat.testBit_succ v i).symm

theorem checksum_eq (init final : BitVec w) (data : List UInt8) :
    checksum poly init final data = feedBits poly init (bits data) ^^^ final := by
  rw [checksum]
  congr 1
  induction data generalizing init with
  | nil => rfl
  | cons b data ih =>
    rw [List.foldl_cons, ih, bits_cons, feedBits, feedBits, List.foldl_append, feed_eq_feedBits]
    rfl

/-! ## The difference of two messages -/

theorem feedBits_xor {bs cs : List Bool} (h : bs.length = cs.length) (x y : BitVec w) :
    feedBits poly (x ^^^ y) (List.zipWith (· ^^ ·) bs cs) =
      feedBits poly x bs ^^^ feedBits poly y cs := by
  induction bs generalizing cs x y with
  | nil =>
    obtain rfl := List.length_eq_zero_iff.1 h.symm
    rfl
  | cons b bs ih =>
    cases cs with
    | nil => exact absurd h (by simp)
    | cons c cs =>
      rw [List.zipWith_cons_cons, feedBits, List.foldl_cons, feedBit_xor]
      exact ih (Nat.succ.inj h) _ _

/-- **The checksums agree** when the register does not see the difference. -/
theorem checksum_eq_iff {a b : List UInt8} (h : a.length = b.length) (init final : BitVec w) :
    checksum poly init final a = checksum poly init final b ↔
      feedBits poly 0#w (difference a b) = 0#w := by
  have hlen : (bits a).length = (bits b).length := by rw [length_bits, length_bits, h]
  have hxor := feedBits_xor poly hlen init init
  rw [BitVec.xor_self] at hxor
  rw [checksum_eq, checksum_eq, BitVec.xor_left_inj, difference, hxor, BitVec.xor_eq_zero_iff]

theorem feedBits_append (crc : BitVec w) (bs cs : List Bool) :
    feedBits poly crc (bs ++ cs) = feedBits poly (feedBits poly crc bs) cs :=
  List.foldl_append

theorem feedBits_replicate (crc : BitVec w) (n : ℕ) :
    feedBits poly crc (List.replicate n false) = (shift poly)^[n] crc := by
  induction n generalizing crc with
  | zero => rfl
  | succ n ih =>
    rw [List.replicate_succ, feedBits, List.foldl_cons, Function.iterate_succ_apply]
    exact ih _

theorem iterate_shift_zero (n : ℕ) : (shift poly)^[n] 0#w = 0#w := by
  have h := iterate_shift_xor poly n 0#w 0#w
  rwa [BitVec.xor_self, BitVec.xor_self] at h

/-! ## The shift is injective -/

section

variable {poly}

theorem pos_of_msb (hpoly : poly.msb = true) : 0 < w := by
  by_contra hw
  obtain rfl : w = 0 := by omega
  simp [BitVec.msb_eq_getLsbD_last, BitVec.getLsbD_of_ge] at hpoly

/-- If the polynomial has its highest bit, only zero is shifted to zero. -/
theorem eq_zero_of_shift (hpoly : poly.msb = true) {x : BitVec w} (h : shift poly x = 0#w) :
    x = 0#w := by
  have hw : 0 < w := pos_of_msb hpoly
  have hlow : x.getLsbD 0 = false := by
    have hmsb : (shift poly x).msb = (x.getLsbD 0 && poly.msb) := by
      rw [shift, feedBit, Bool.xor_false, BitVec.msb_xor]
      have hdown : (x >>> 1).msb = false := by
        rw [BitVec.msb_eq_getLsbD_last, BitVec.getLsbD_ushiftRight]
        exact BitVec.getLsbD_of_ge _ _ (by omega)
      cases x.getLsbD 0 <;> simp [hdown]
    rw [h, hpoly, BitVec.msb_zero, Bool.and_true] at hmsb
    exact hmsb.symm
  rw [shift, feedBit, hlow] at h
  apply BitVec.eq_of_getLsbD_eq
  intro i hi
  cases i with
  | zero => rw [hlow, BitVec.getLsbD_zero]
  | succ i =>
    have hbit := congrArg (BitVec.getLsbD · i) h
    simpa [Nat.add_comm] using hbit

theorem shift_injective (hpoly : poly.msb = true) : Function.Injective (shift poly) := by
  intro x y h
  apply BitVec.xor_eq_zero_iff.1
  apply eq_zero_of_shift hpoly
  rw [shift_xor, h, BitVec.xor_self]

/-! ## Bursts -/

/-- What a short message leaves in the register is zero only if all of it is. -/
theorem eq_replicate_of_feedBits (hpoly : poly.msb = true) {bs : List Bool} (hlen : bs.length ≤ w)
    (h : feedBits poly 0#w bs = 0#w) : bs = List.replicate bs.length false := by
  -- the number with these bits
  let v := Nat.ofBits fun i : Fin bs.length ↦ bs[i]
  have hbs : (List.range bs.length).map v.testBit = bs := by
    apply List.ext_getElem (by simp)
    intro i h1 h2
    rw [List.getElem_map, List.getElem_range]
    exact Nat.testBit_ofBits_lt _ i h2
  have hv : v < 2 ^ bs.length := Nat.ofBits_lt_two_pow _
  have hzero : BitVec.ofNat w v = 0#w := by
    rw [← hbs, ← feed_eq_feedBits, feed_eq poly (by simpa using hlen) (by simpa using hv),
      BitVec.zero_xor] at h
    rw [← iterate_shift_zero poly _] at h
    exact (shift_injective hpoly).iterate _ h
  have hv0 : v = 0 := by
    have hnat := congrArg BitVec.toNat hzero
    rwa [BitVec.toNat_ofNat, BitVec.toNat_ofNat, Nat.zero_mod, Nat.mod_eq_of_lt
      (hv.trans_le (Nat.pow_le_pow_right (by decide) hlen))] at hnat
  rw [List.eq_replicate_iff]
  refine ⟨rfl, fun b hb ↦ ?_⟩
  rw [← hbs, hv0, List.mem_map] at hb
  obtain ⟨i, -, rfl⟩ := hb
  exact Nat.zero_testBit i

/-- The zeros in front of a difference and behind it are not seen. -/
theorem feedBits_padded (hpoly : poly.msb = true) (n m : ℕ) (bs : List Bool) :
    feedBits poly 0#w (List.replicate n false ++ bs ++ List.replicate m false) = 0#w ↔
      feedBits poly 0#w bs = 0#w := by
  rw [feedBits_append, feedBits_append, feedBits_replicate, feedBits_replicate, iterate_shift_zero]
  refine ⟨fun h ↦ ?_, fun h ↦ ?_⟩
  · exact (shift_injective hpoly).iterate m (h.trans (iterate_shift_zero poly m).symm)
  · rw [h, iterate_shift_zero]

/-- A list that is only set in a window. -/
theorem eq_padded {d : List Bool} {i k : ℕ}
    (h : ∀ j, d[j]? = some true → i ≤ j ∧ j < i + k) :
    ∃ n m, d = List.replicate n false ++ (d.drop i).take k ++ List.replicate m false := by
  have hfront : d.take i = List.replicate (d.take i).length false := by
    rw [List.eq_replicate_iff]
    refine ⟨rfl, fun b hb ↦ ?_⟩
    obtain ⟨j, hj, rfl⟩ := List.mem_iff_getElem.1 hb
    rw [List.getElem_take]
    rw [List.length_take] at hj
    by_contra hset
    have := h j (List.getElem?_eq_some_iff.2 ⟨by omega, by simpa using hset⟩)
    omega
  have hback : (d.drop i).drop k = List.replicate ((d.drop i).drop k).length false := by
    rw [List.eq_replicate_iff]
    refine ⟨rfl, fun b hb ↦ ?_⟩
    obtain ⟨j, hj, rfl⟩ := List.mem_iff_getElem.1 hb
    rw [List.getElem_drop, List.getElem_drop]
    rw [List.length_drop, List.length_drop] at hj
    by_contra hset
    have := h (i + (k + j)) (List.getElem?_eq_some_iff.2 ⟨by omega, by simpa using hset⟩)
    omega
  refine ⟨(d.take i).length, ((d.drop i).drop k).length, ?_⟩
  rw [← hfront, ← hback, List.append_assoc, List.take_append_drop, List.take_append_drop]

variable {a b : List UInt8}

theorem getElem?_difference (h : a.length = b.length) (j : ℕ) :
    (difference a b)[j]? = some true ↔ (bits a)[j]? ≠ (bits b)[j]? := by
  have hlen : (bits a).length = (bits b).length := by rw [length_bits, length_bits, h]
  rw [difference, List.getElem?_zipWith]
  by_cases hj : j < (bits a).length
  · rw [List.getElem?_eq_getElem hj, List.getElem?_eq_getElem (hlen ▸ hj)]
    cases (bits a)[j] <;> cases (bits b)[j] <;> simp
  · rw [List.getElem?_eq_none (by omega), List.getElem?_eq_none (by omega)]
    simp

theorem eq_of_difference (h : a.length = b.length)
    (hd : ∀ j : ℕ, (difference a b)[j]? ≠ some true) : a = b := by
  apply bits_injective
  apply List.ext_getElem?
  intro j
  by_contra hne
  exact hd j ((getElem?_difference h j).2 hne)

/-- **Bursts are detected**: two messages of one length that differ, and only in bits within a
window as long as the register. -/
theorem checksum_ne_of_burst (hpoly : poly.msb = true) (h : a.length = b.length) (hne : a ≠ b)
    {i : ℕ} (hwin : ∀ j : ℕ, (bits a)[j]? ≠ (bits b)[j]? → i ≤ j ∧ j < i + w)
    (init final : BitVec w) : checksum poly init final a ≠ checksum poly init final b := by
  intro heq
  obtain ⟨n, m, hd⟩ := eq_padded fun j hj ↦ hwin j ((getElem?_difference h j).1 hj)
  have hzero := (checksum_eq_iff poly h init final).1 heq
  rw [hd, feedBits_padded hpoly] at hzero
  rw [eq_replicate_of_feedBits hpoly (List.length_take_le _ _) hzero,
    List.replicate_append_replicate, List.replicate_append_replicate] at hd
  refine hne (eq_of_difference h fun j hj ↦ ?_)
  have hmem := List.mem_of_getElem? hj
  rw [hd, List.mem_replicate] at hmem
  exact absurd hmem.2 (by decide)

/-! ## Two bits -/

theorem feedBit_true (hw : 0 < w) (x : BitVec w) :
    feedBit poly x true = shift poly (x ^^^ 1#w) :=
  feedBit_eq_shift poly hw x 1

/-- Two bits leave zero in the register only if their distance is a period of the shift. -/
theorem feedBits_two (hpoly : poly.msb = true) (hw : 0 < w) (n : ℕ) :
    feedBits poly 0#w ([true] ++ List.replicate n false ++ [true]) = 0#w ↔
      (shift poly)^[n + 1] 1#w = 1#w := by
  have hfirst : feedBits poly 0#w [true] = shift poly 1#w := by
    rw [feedBits, List.foldl_cons, List.foldl_nil, feedBit_true hw, BitVec.zero_xor]
  rw [feedBits_append, feedBits_append, hfirst, feedBits_replicate, feedBits, List.foldl_cons,
    List.foldl_nil, feedBit_true hw, ← Function.iterate_succ_apply]
  refine ⟨fun h ↦ BitVec.xor_eq_zero_iff.1 (eq_zero_of_shift hpoly h), fun h ↦ ?_⟩
  rw [h, BitVec.xor_self]
  exact iterate_shift_zero poly 1

/-- A list that is only set at two places, and at both. -/
theorem eq_two {d : List Bool} {i j : ℕ} (hij : i < j)
    (h : ∀ l, d[l]? = some true ↔ l = i ∨ l = j) :
    (d.drop i).take (j - i + 1) = [true] ++ List.replicate (j - i - 1) false ++ [true] := by
  have hi : i < d.length := (List.getElem?_eq_some_iff.1 ((h i).2 (Or.inl rfl))).1
  have hj : j < d.length := (List.getElem?_eq_some_iff.1 ((h j).2 (Or.inr rfl))).1
  apply List.ext_getElem (by simp; omega)
  intro l h1 h2
  have hl : l < j - i + 1 := by simp at h1; omega
  have hget (b : Bool) (hb : b = true ↔ l = 0 ∨ l = j - i) : d[i + l] = b := by
    have := h (i + l)
    rw [List.getElem?_eq_getElem (by omega), Option.some_inj] at this
    rw [Bool.eq_iff_iff, this, hb]
    omega
  rw [List.getElem_take, List.getElem_drop]
  apply hget
  by_cases hl0 : l = 0
  · simp [hl0]
  · by_cases hlj : l < j - i
    · rw [List.getElem_append_left (by simp; omega), List.getElem_append_right (by simp; omega),
        List.getElem_replicate]
      simp only [Bool.false_eq_true, false_iff]
      omega
    · rw [List.getElem_append_right (by simp; omega)]
      simp only [List.getElem_singleton, true_iff]
      omega

/-- **Two bits are detected** at any distance smaller than the period of the shift. -/
theorem checksum_ne_of_two_bits (hpoly : poly.msb = true) (h : a.length = b.length) (hne : a ≠ b)
    {i j : ℕ} (hij : i ≤ j) (hbits : ∀ l : ℕ, (bits a)[l]? ≠ (bits b)[l]? → l = i ∨ l = j)
    (hperiod : ∀ n, 0 < n → n ≤ j - i → (shift poly)^[n] 1#w ≠ 1#w)
    (init final : BitVec w) : checksum poly init final a ≠ checksum poly init final b := by
  have hw : 0 < w := pos_of_msb hpoly
  have hset (l : ℕ) := getElem?_difference h l
  by_cases hi : (difference a b)[i]? = some true
  · by_cases hj : i < j ∧ (difference a b)[j]? = some true
    · -- both bits differ
      have htwo : ∀ l, (difference a b)[l]? = some true ↔ l = i ∨ l = j := by
        refine fun l ↦ ⟨fun hl ↦ hbits l ((hset l).1 hl), ?_⟩
        rintro (rfl | rfl)
        exacts [hi, hj.2]
      intro heq
      have hzero := (checksum_eq_iff poly h init final).1 heq
      obtain ⟨n, m, hd⟩ := eq_padded (d := difference a b) (i := i) (k := j - i + 1) fun l hl ↦ by
        have := (htwo l).1 hl
        omega
      rw [hd, feedBits_padded hpoly, eq_two hj.1 htwo, feedBits_two hpoly hw] at hzero
      exact hperiod _ (by omega) (by omega) hzero
    · refine checksum_ne_of_burst hpoly h hne (i := i) (fun l hl ↦ ?_) init final
      have hli : l = i := by
        by_contra hli
        obtain rfl := (hbits l hl).resolve_left hli
        exact hj ⟨by omega, (hset l).2 hl⟩
      omega
  · refine checksum_ne_of_burst hpoly h hne (i := j) (fun l hl ↦ ?_) init final
    rcases hbits l hl with rfl | rfl
    · exact absurd ((hset l).2 hl) hi
    · omega

end

/-! ## Powers of the shift

With `w` rounds for a product, and one product for a bit of the exponent, a power of the shift can
be evaluated however large the exponent is. -/

/-- A multiple of a power of the shift, with the bits of `a` below `k` as its coefficients. -/
def mulFrom (a : BitVec w) : ℕ → BitVec w → BitVec w
  | 0, _ => 0#w
  | k + 1, y => (if a.getLsbD k then y else 0#w) ^^^ mulFrom a k (shift poly y)

/-- The `n`th power of the shift at the highest bit, for an `n` of at most `f` bits. -/
def power : ℕ → ℕ → BitVec w
  | 0, _ => BitVec.twoPow w (w - 1)
  | f + 1, n =>
    let z := power f (n / 2)
    let s := mulFrom poly z w z
    if n % 2 = 1 then shift poly s else s

theorem shift_twoPow {k : ℕ} (hk : k + 1 < w) :
    shift poly (BitVec.twoPow w (k + 1)) = BitVec.twoPow w k := by
  have hlow : ∀ i < 1, (BitVec.twoPow w (k + 1)).getLsbD i = false := by
    intro i hi
    rw [BitVec.getLsbD_twoPow, decide_eq_false (by omega : k + 1 ≠ i), Bool.and_false]
  have hshift : shift poly (BitVec.twoPow w (k + 1)) = BitVec.twoPow w (k + 1) >>> 1 :=
    iterate_shift_of_low poly hlow
  rw [hshift]
  apply BitVec.eq_of_getLsbD_eq
  intro i hi
  rw [BitVec.getLsbD_ushiftRight, BitVec.getLsbD_twoPow, BitVec.getLsbD_twoPow]
  simp only [show (k + 1 = 1 + i) = (k = i) by simp [Nat.add_comm], show k + 1 < w from hk,
    show k < w by omega]

/-- The low bits, the highest of them first. -/
theorem ofNat_mod_two_pow_succ (a : BitVec w) (k : ℕ) :
    BitVec.ofNat w (a.toNat % 2 ^ (k + 1)) =
      (if a.getLsbD k then BitVec.twoPow w k else 0#w) ^^^ BitVec.ofNat w (a.toNat % 2 ^ k) := by
  apply BitVec.eq_of_getLsbD_eq
  intro i hi
  rw [BitVec.getLsbD_xor, BitVec.getLsbD_ofNat, BitVec.getLsbD_ofNat, Nat.testBit_mod_two_pow,
    Nat.testBit_mod_two_pow]
  show (decide (i < w) && (decide (i < k + 1) && a.getLsbD i)) =
    (_ ^^ (decide (i < w) && (decide (i < k) && a.getLsbD i)))
  rcases lt_trichotomy i k with hik | rfl | hik
  · have hne : i ≠ k := by omega
    cases a.getLsbD k <;> simp [hi, hik, hne, show i < k + 1 by omega]
  · cases a.getLsbD i <;> simp [hi]
  · have hne : k ≠ i := by omega
    cases a.getLsbD k <;> simp [hne, show ¬ i < k by omega, show ¬ i < k + 1 by omega]

/-- The coefficients of a register are its bits. -/
theorem mulFrom_eq (a : BitVec w) (n : ℕ) {k : ℕ} (hk : k < w) :
    mulFrom poly a (k + 1) ((shift poly)^[n] (BitVec.twoPow w k)) =
      (shift poly)^[n] (BitVec.ofNat w (a.toNat % 2 ^ (k + 1))) := by
  have hhead (k : ℕ) : (if a.getLsbD k then (shift poly)^[n] (BitVec.twoPow w k) else 0#w) =
      (shift poly)^[n] (if a.getLsbD k then BitVec.twoPow w k else 0#w) := by
    split
    · rfl
    · exact (iterate_shift_zero poly n).symm
  induction k with
  | zero =>
    rw [mulFrom, mulFrom, hhead, ofNat_mod_two_pow_succ, Nat.pow_zero, Nat.mod_one,
      BitVec.xor_zero]
    simp
  | succ k ih =>
    have hdown : shift poly ((shift poly)^[n] (BitVec.twoPow w (k + 1))) =
        (shift poly)^[n] (BitVec.twoPow w k) := by
      rw [← Function.iterate_succ_apply' (shift poly), Function.iterate_succ_apply,
        shift_twoPow poly hk]
    rw [mulFrom, hdown, ih (by omega), hhead, ← iterate_shift_xor, ← ofNat_mod_two_pow_succ]

theorem mulFrom_iterate (hw : 0 < w) (a : BitVec w) (n : ℕ) :
    mulFrom poly a w ((shift poly)^[n] (BitVec.twoPow w (w - 1))) = (shift poly)^[n] a := by
  have h := mulFrom_eq poly a n (show w - 1 < w by omega)
  rwa [Nat.sub_add_cancel hw, Nat.mod_eq_of_lt a.isLt, BitVec.ofNat_toNat, BitVec.setWidth_eq] at h

theorem power_eq (hw : 0 < w) {f n : ℕ} (hn : n < 2 ^ f) :
    power poly f n = (shift poly)^[n] (BitVec.twoPow w (w - 1)) := by
  induction f generalizing n with
  | zero =>
    obtain rfl : n = 0 := by omega
    rfl
  | succ f ih =>
    rw [Nat.pow_succ] at hn
    rw [power, ih (by omega), mulFrom_iterate poly hw, ← Function.iterate_add_apply]
    split
    · rw [← Function.iterate_succ_apply' (shift poly)]
      congr 1
      omega
    · congr 1
      omega

/-! ## The period -/

/-- A return time whose quotients by primes are none is the smallest one. -/
theorem iterate_ne_of_maximal {α : Type*} {f : α → α} {x : α} {N : ℕ}
    (h : f^[N] x = x) (hprime : ∀ p, p.Prime → p ∣ N → f^[N / p] x ≠ x) {n : ℕ} (hn : 0 < n)
    (hlt : n < N) : f^[n] x ≠ x := by
  intro hper
  have hdvd : Function.minimalPeriod f x ∣ N := Function.IsPeriodicPt.minimalPeriod_dvd h
  have hle : Function.minimalPeriod f x ≤ n := Function.IsPeriodicPt.minimalPeriod_le hn hper
  obtain ⟨m, hm⟩ := hdvd
  have hm1 : m ≠ 1 := by
    rintro rfl
    omega
  obtain ⟨p, hp, q, rfl⟩ := Nat.exists_prime_and_dvd hm1
  have hquot : N / p = Function.minimalPeriod f x * q := by
    rw [hm, Nat.mul_left_comm, Nat.mul_div_cancel_left _ hp.pos]
  refine hprime p hp ⟨Function.minimalPeriod f x * q, by rw [hm, Nat.mul_left_comm]⟩ ?_
  rw [hquot]
  exact (Function.isPeriodicPt_minimalPeriod f x).mul_const q

/-- A power of the shift that moves the highest bit moves the lowest one. -/
theorem iterate_shift_one_ne {poly : BitVec w} (hpoly : poly.msb = true) {n : ℕ}
    (h : (shift poly)^[n] (BitVec.twoPow w (w - 1)) ≠ BitVec.twoPow w (w - 1)) :
    (shift poly)^[n] 1#w ≠ 1#w := by
  have hdown : ∀ k, k < w → (shift poly)^[k] (BitVec.twoPow w k) = 1#w := by
    intro k
    induction k with
    | zero => exact fun _ ↦ BitVec.twoPow_zero
    | succ k ih =>
      intro hk
      rw [Function.iterate_succ_apply, shift_twoPow poly hk, ih (by omega)]
  rw [← hdown (w - 1) (Nat.sub_lt (pos_of_msb hpoly) Nat.one_pos), ← Function.iterate_add_apply,
    Nat.add_comm, Function.iterate_add_apply]
  exact fun heq ↦ h ((shift_injective hpoly).iterate _ heq)

end Crc
