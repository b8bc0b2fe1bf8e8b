import Mathlib.Data.Fin.Basic
import Mathlib.Data.List.Nodup
import Mathlib.Data.Nat.ModEq
import Mathlib.Order.Fin.Basic

/-!
# Cyclic positions

An index that wraps — `i = (i + 1) % n` — is a position of `Fin n`, and `Cyclic.shift b k` is the
position `k` steps after `b`.  A queue kept between two wrapping indices occupies
`Cyclic.window b len`, the `len` positions from `b` on, and everything such a queue needs is here:
a window grows at its far end (`window_succ`) and shrinks at its near end (`window_cons`), it has
no repeated position as long as it is not longer than the cycle (`nodup_window`), and a window of
full length is the whole cycle (`mem_window_full`).

`shift_mem_window_iff` is the one statement about windows that are *too* long: the last position
of a window already occurs earlier in it exactly when the window has more than `n` positions.
-/

set_option autoImplicit false

namespace Cyclic

variable {n : ℕ} [NeZero n]

/-- The position `k` steps after `b`. -/
def shift (b : Fin n) (k : ℕ) : Fin n := Fin.ofNat n (b + k)

@[simp] theorem val_shift (b : Fin n) (k : ℕ) : (shift b k : ℕ) = (b + k) % n := rfl

@[simp] theorem shift_zero (b : Fin n) : shift b 0 = b :=
  Fin.ext (by simp [Nat.mod_eq_of_lt b.isLt])

theorem shift_shift (b : Fin n) (j k : ℕ) : shift (shift b j) k = shift b (j + k) :=
  Fin.ext (by simp [Nat.add_assoc])

theorem shift_one (b : Fin n) : shift b 1 = b + 1 :=
  Fin.ext (by simp [Fin.val_add])

theorem shift_succ (b : Fin n) (k : ℕ) : shift b (k + 1) = shift b k + 1 := by
  rw [← shift_one, shift_shift]

theorem shift_add_one (b : Fin n) (k : ℕ) : shift (b + 1) k = shift b (k + 1) := by
  rw [← shift_one, shift_shift, Nat.add_comm]

/-- Going round the cycle once more changes nothing. -/
theorem shift_add_card (b : Fin n) (k : ℕ) : shift b (k + n) = shift b k :=
  Fin.ext (by simp [← Nat.add_assoc])

/-- Less than a full turn apart, different distances are different positions. -/
theorem shift_inj {b : Fin n} {j k : ℕ} (hjk : j < k + n) (hkj : k < j + n) :
    shift b j = shift b k ↔ j = k := by
  refine ⟨fun h ↦ ?_, fun h ↦ by rw [h]⟩
  have hmod : j ≡ k [MOD n] := Nat.ModEq.add_left_cancel' (b : ℕ) (Fin.ext_iff.1 h)
  rcases Nat.le_total j k with hle | hle
  · have := (Nat.modEq_iff_dvd' hle).1 hmod
    have := Nat.eq_zero_of_dvd_of_lt this (by omega)
    omega
  · have := (Nat.modEq_iff_dvd' hle).1 hmod.symm
    have := Nat.eq_zero_of_dvd_of_lt this (by omega)
    omega

/-- Every position is reached from `b` in less than a full turn. -/
theorem exists_shift_eq (b i : Fin n) : ∃ k < n, shift b k = i := by
  have hn : 0 < n := Nat.pos_of_neZero n
  refine ⟨(i + (n - b)) % n, Nat.mod_lt _ hn, Fin.ext ?_⟩
  have hb := b.isLt
  rw [val_shift, Nat.add_mod_mod, show (b : ℕ) + (i + (n - b)) = i + n by omega,
    Nat.add_mod_right, Nat.mod_eq_of_lt i.isLt]

/-! ## Windows -/

/-- The `len` positions from `b` on, in cyclic order. -/
def window (b : Fin n) (len : ℕ) : List (Fin n) := (List.range len).map (shift b)

@[simp] theorem length_window (b : Fin n) (len : ℕ) : (window b len).length = len := by
  simp [window]

/-- A window grows at its far end. -/
theorem window_succ (b : Fin n) (len : ℕ) : window b (len + 1) = window b len ++ [shift b len] := by
  simp [window, List.range_succ]

/-- A window shrinks at its near end. -/
theorem window_cons (b : Fin n) (len : ℕ) : window b (len + 1) = b :: window (b + 1) len := by
  simp [window, List.range_succ_eq_map, List.map_map, Function.comp_def, shift_add_one]

/-- A window, and the window behind it. -/
theorem window_add (b : Fin n) (j k : ℕ) :
    window b (j + k) = window b j ++ window (shift b j) k := by
  simp [window, List.range_add, List.map_map, Function.comp_def, shift_shift]

theorem mem_window {b i : Fin n} {len : ℕ} : i ∈ window b len ↔ ∃ k < len, shift b k = i := by
  simp [window]

theorem shift_mem_window {b : Fin n} {k len : ℕ} (h : k < len) : shift b k ∈ window b len :=
  mem_window.2 ⟨k, h, rfl⟩

/-- A window of full length is the whole cycle. -/
theorem mem_window_full (b i : Fin n) : i ∈ window b n := by
  obtain ⟨k, hk, rfl⟩ := exists_shift_eq b i
  exact shift_mem_window hk

theorem nodup_window {b : Fin n} {len : ℕ} (h : len ≤ n) : (window b len).Nodup := by
  refine List.Nodup.map_on ?_ List.nodup_range
  intro j hj k hk hjk
  rw [List.mem_range] at hj hk
  exact (shift_inj (by omega) (by omega)).1 hjk

/-- A position at most a turn past a window of `len` positions is already in it exactly when it
has gone round the whole cycle. -/
theorem shift_add_mem_window_iff {b : Fin n} {len k : ℕ} (hk : k < n) :
    shift b (len + k) ∈ window b len ↔ n ≤ len + k := by
  constructor
  · intro h
    obtain ⟨j, hj, hjl⟩ := mem_window.1 h
    by_contra hlt
    have := (shift_inj (by omega) (by omega)).1 hjl
    omega
  · intro h
    have hlen : len + k = (len + k - n) + n := by omega
    rw [hlen, shift_add_card]
    exact shift_mem_window (by omega)

/-- The position after a window is in it exactly when the window is as long as the cycle. -/
theorem shift_mem_window_iff {b : Fin n} {len : ℕ} : shift b len ∈ window b len ↔ n ≤ len :=
  shift_add_mem_window_iff (k := 0) (Nat.pos_of_neZero n)

end Cyclic
