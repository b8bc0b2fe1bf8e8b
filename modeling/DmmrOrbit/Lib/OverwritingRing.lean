import Mathlib.Logic.Function.Basic
import DmmrOrbit.Lib.Cyclic

/-!
# Rings that overwrite

A ring of `n` slots that is written to at one position after the other, without a look at what has
been read.  `Recorded q b l` says that the elements of `l` have been written to the slots `q` from
the position `b` on: those among the last `n` of them are still there.

A reader that starts at `b` and stops when it is level with the writer sees `l.length % n` slots,
which is not always what has been written: `Recorded.map_window_mod` says which elements they hold —
the last ones, but as many as the length of `l` leaves over when the ring has been filled as often
as possible.
-/

set_option autoImplicit false

namespace Cyclic

universe u

variable {n : ℕ} [NeZero n] {α : Type u} {q : Fin n → α} {b : Fin n} {l : List α}

theorem shift_mod (b : Fin n) (k : ℕ) : shift b (k % n) = shift b k :=
  Fin.ext (by simp)

/-- The elements of the list have been written from `b` on. -/
def Recorded (q : Fin n → α) (b : Fin n) (l : List α) : Prop :=
  ∀ k, (h : k < l.length) → l.length ≤ k + n → q (shift b k) = l[k]

theorem Recorded.nil (q : Fin n → α) (b : Fin n) : Recorded q b [] :=
  fun _ h _ ↦ absurd h (Nat.not_lt_zero _)

/-- One more element is written. -/
theorem Recorded.write (h : Recorded q b l) (a : α) :
    Recorded (Function.update q (shift b l.length) a) b (l ++ [a]) := by
  intro k hk hn
  rw [List.length_append, List.length_singleton] at hk hn
  rcases Nat.lt_or_ge k l.length with hlt | hge
  · have hne : shift b k ≠ shift b l.length := fun heq ↦ by
      rw [shift_inj (by omega) (by omega)] at heq; omega
    rw [Function.update_of_ne hne, List.getElem_append_left hlt]
    exact h k hlt (by omega)
  · obtain rfl : k = l.length := by omega
    rw [Function.update_self, List.getElem_concat_length rfl]

/-- The slot behind the last element is written to, but not yet counted. -/
theorem Recorded.update_next (h : Recorded q b l) (hl : l.length < n) (a : α) :
    Recorded (Function.update q (shift b l.length) a) b l := by
  intro k hk _
  have hlen : (l ++ [a]).length = l.length + 1 := by rw [List.length_append]; rfl
  have hwrite := h.write a k (by omega) (by omega)
  rwa [List.getElem_append_left hk] at hwrite

/-- The element in the slot behind the last one is counted. -/
theorem Recorded.concat (h : Recorded q b l) {a : α} (ha : q (shift b l.length) = a) :
    Recorded q b (l ++ [a]) := by
  have hwrite := h.write a
  rwa [← ha, Function.update_eq_self, ha] at hwrite

/-- The first elements are passed over. -/
theorem Recorded.drop (h : Recorded q b l) (j : ℕ) : Recorded q (shift b j) (l.drop j) := by
  intro k hk hn
  rw [List.length_drop] at hk hn
  rw [shift_shift, List.getElem_drop]
  exact h (j + k) (by omega) (by omega)

/-- As long as the writer is less than a turn ahead, its elements are all there. -/
theorem Recorded.map_window (h : Recorded q b l) {m : ℕ} (hm : m ≤ l.length)
    (hl : l.length ≤ n) : (window b m).map q = l.take m := by
  refine List.ext_getElem ?_ fun k hk hk' ↦ ?_
  · rw [List.length_map, length_window, List.length_take, Nat.min_eq_left hm]
  · rw [List.length_take] at hk'
    simp only [window, List.getElem_map, List.getElem_range, List.getElem_take]
    exact h k (by omega) (by omega)

/-- **What a reader sees** that stops level with the writer. -/
theorem Recorded.map_window_mod (h : Recorded q b l) :
    (window b (l.length % n)).map q = l.drop (n * (l.length / n)) := by
  have hn : 0 < n := Nat.pos_of_neZero n
  have hdiv := Nat.mod_add_div l.length n
  have hmod := Nat.mod_lt l.length hn
  have hturn : shift b (n * (l.length / n)) = b := by
    rw [← shift_mod, Nat.mul_mod_right, shift_zero]
  have hdrop := h.drop (n * (l.length / n))
  rw [hturn] at hdrop
  have hlen : (l.drop (n * (l.length / n))).length = l.length % n := by
    rw [List.length_drop]; omega
  rw [hdrop.map_window (by omega) (by omega), ← hlen, List.take_length]

end Cyclic
