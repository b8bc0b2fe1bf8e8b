import Mathlib.Data.List.TakeWhile
import DmmrOrbit.Structs

/-!
# Strings and character arrays

A string of C is what comes before the first NUL of a text, `cstr`.  A `char` array of a fixed size
is the type `Bytes`; nothing can be written past its end, and `Bytes.cstr_write` says that a string
that fits, written with its NUL, is the string that is then read.
-/

set_option autoImplicit false

namespace DmmrOrbit

/-- The C string that starts a text: what comes before the first NUL. -/
def cstr (s : List UInt8) : List UInt8 := s.takeWhile (· ≠ 0)

theorem cstr_append_nul {s : List UInt8} (h : ∀ b ∈ s, b ≠ 0) (t : List UInt8) :
    cstr (s ++ 0 :: t) = s := by
  have hs : ∀ b ∈ s, (decide (b ≠ 0)) = true := fun b hb ↦ decide_eq_true (h b hb)
  rw [cstr, List.takeWhile_append_of_pos hs, List.takeWhile_cons_of_neg (by simp),
    List.append_nil]

theorem cstr_of_ne_nul {s : List UInt8} (h : ∀ b ∈ s, b ≠ 0) : cstr s = s :=
  List.takeWhile_eq_self_iff.2 fun b hb ↦ decide_eq_true (h b hb)

/-- A `char` array of `n` bytes. -/
structure Bytes (n : ℕ) where
  toList : List UInt8
  length_eq : toList.length = n
  deriving DecidableEq, Repr

/-- The array in zeroed memory. -/
def Bytes.zero (n : ℕ) : Bytes n := ⟨List.replicate n 0, List.length_replicate⟩

theorem Bytes.length_take_overlay {n : ℕ} (b : Bytes n) (new : List UInt8) :
    ((overlay new b.toList).take n).length = n := by
  rw [List.length_take, overlay, List.length_append, List.length_drop, b.length_eq]; omega

/-- Copy to the start of the array. -/
def Bytes.write {n : ℕ} (b : Bytes n) (new : List UInt8) : Bytes n :=
  ⟨(overlay new b.toList).take n, b.length_take_overlay new⟩

theorem Bytes.take_write {n : ℕ} (b : Bytes n) {new : List UInt8} (h : new.length ≤ n) :
    (b.write new).toList.take new.length = new := by
  show ((overlay new b.toList).take n).take new.length = new
  rw [List.take_take, Nat.min_eq_left h, take_overlay]

theorem Bytes.cstr_write {n : ℕ} (b : Bytes n) {s : List UInt8} (h : ∀ c ∈ s, c ≠ 0)
    (hn : s.length < n) : cstr (b.write (s ++ [0])).toList = s := by
  have htake : (overlay (s ++ [0]) b.toList).take n =
      s ++ 0 :: (b.toList.drop (s.length + 1)).take (n - (s.length + 1)) := by
    rw [overlay, List.length_append, List.length_singleton, List.append_assoc,
      List.singleton_append, List.take_append, List.take_of_length_le hn.le]
    congr 1
    obtain ⟨k, hk⟩ := Nat.exists_eq_add_of_lt hn
    have hk' : n - s.length = n - (s.length + 1) + 1 := by omega
    rw [hk', List.take_succ_cons]
  show cstr ((overlay (s ++ [0]) b.toList).take n) = s
  rw [htake, cstr_append_nul h]

end DmmrOrbit
