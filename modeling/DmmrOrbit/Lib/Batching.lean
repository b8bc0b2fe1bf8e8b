import Mathlib.Algebra.BigOperators.Group.List.Basic
import Mathlib.Algebra.GroupWithZero.Nat
import Mathlib.Data.List.Induction

/-!
# Batches of a given weight

Elements with a weight come one after the other and are collected, and as soon as those collected
weigh `bound` together they are a batch.  `push` takes one more element, and `cut` cuts a list into
its batches and what is left over.

Nothing is lost and the order is kept (`flatten_cut`), and what is left over weighs less than the
bound (`weight_cut_snd_lt`).
-/

set_option autoImplicit false

namespace Batching

universe u

variable {α : Type u} (w : α → ℕ) (bound : ℕ)

/-- What a list of elements weighs. -/
def weight (l : List α) : ℕ := (l.map w).sum

/-- One more element, for the batches there are and the elements collected since. -/
def push (s : List (List α) × List α) (a : α) : List (List α) × List α :=
  if bound ≤ weight w (s.2 ++ [a]) then (s.1 ++ [s.2 ++ [a]], []) else (s.1, s.2 ++ [a])

/-- The batches of a list, and what is left over. -/
def cut (l : List α) : List (List α) × List α := l.foldl (push w bound) ([], [])

section

variable {w bound} {l : List α} {a : α}

theorem weight_cons (a : α) (l : List α) : weight w (a :: l) = w a + weight w l := by
  rw [weight, List.map_cons, List.sum_cons]
  rfl

theorem weight_append (l m : List α) : weight w (l ++ m) = weight w l + weight w m := by
  rw [weight, List.map_append, List.sum_append]
  rfl

theorem weight_concat (l : List α) (a : α) : weight w (l ++ [a]) = weight w l + w a := by
  rw [weight_append, weight, weight, List.map_singleton, List.sum_singleton]

/-- Elements that weigh something weigh at least as much as there are of them. -/
theorem length_le_weight (h : ∀ a ∈ l, 1 ≤ w a) : l.length ≤ weight w l := by
  induction l with
  | nil => exact Nat.le_refl 0
  | cons a l ih =>
    have ha := h a (.head l)
    have hl := ih fun b hb ↦ h b (.tail a hb)
    rw [weight_cons, List.length_cons]
    omega

/-- A first part of a list weighs no more than all of it. -/
theorem weight_take_le (l : List α) (k : ℕ) : weight w (l.take k) ≤ weight w l := by
  have happ := weight_append (w := w) (l.take k) (l.drop k)
  rw [List.take_append_drop] at happ
  omega

theorem cut_concat (l : List α) (a : α) :
    cut w bound (l ++ [a]) = push w bound (cut w bound l) a := by
  rw [cut, List.foldl_append]
  rfl

theorem push_of_le {s : List (List α) × List α} (h : bound ≤ weight w (s.2 ++ [a])) :
    push w bound s a = (s.1 ++ [s.2 ++ [a]], []) :=
  if_pos h

theorem push_of_lt {s : List (List α) × List α} (h : weight w (s.2 ++ [a]) < bound) :
    push w bound s a = (s.1, s.2 ++ [a]) :=
  if_neg (Nat.not_le.2 h)

/-- The batches and what is left over are the list. -/
theorem flatten_cut (w : α → ℕ) (bound : ℕ) (l : List α) :
    (cut w bound l).1.flatten ++ (cut w bound l).2 = l := by
  induction l using List.reverseRecOn with
  | nil => rfl
  | append_singleton l a ih =>
    rw [cut_concat, push]
    split
    · rw [List.flatten_concat, List.append_nil, ← List.append_assoc, ih]
    · rw [← List.append_assoc, ih]

/-- What is left over is no batch yet. -/
theorem weight_cut_snd_lt (hbound : 0 < bound) (l : List α) :
    weight w (cut w bound l).2 < bound := by
  induction l using List.reverseRecOn with
  | nil => exact hbound
  | append_singleton l a ih =>
    rw [cut_concat, push]
    split
    · exact hbound
    · next h => exact Nat.not_le.1 h

end

end Batching
