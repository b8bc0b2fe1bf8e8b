import Mathlib.Data.Int.ModEq
import Mathlib.Data.Nat.ModEq
import Mathlib.Logic.Function.Iterate
import Mathlib.Tactic.Linarith

/-!
# The ring of the circle buffer

`start` of `dmmr_circle_buffer.c` links the `circle_buffer_size` entries of an array into a
`CIRCLEQ`.  A pointer into that queue is an `Elm`: one of the entries, or the queue head, which
`CIRCLEQ_NEXT` of the last entry leads to.

The two functions that move a pointer forward, `foward_current_node` and `iterate`, both go on to
the first entry when the next one would be `CIRCLEQ_LAST`.  So the last entry is never visited: a
ring of `N ≥ 2` entries is a cycle of `N - 1` positions, `slot`.  With a single entry the test for
the last one comes too late, and the cursor ends up at the queue head.

`is_behind_cursor` compares addresses.  It asks whether the distance to the writer's cursor, going
forward round the array, is less than the whole array, and for two entries that is so exactly when
they are different (`isBehindCursor_iff`).
-/

set_option autoImplicit false

namespace DmmrOrbit

variable {N : ℕ}

/-- What a `struct node_circle_buffer *` of the queue points at: an entry of the array, or the
queue head taken for one. -/
inductive Elm (N : ℕ)
  | entry (i : Fin N)
  | head
  deriving DecidableEq, Repr

/-- `CIRCLEQ_NEXT`.  Read from the queue head taken for an entry it would be some other bytes of the
program; here it stays at the head. -/
def circleqNext : Elm N → Elm N
  | .entry i => if h : i.val + 1 < N then .entry ⟨i.val + 1, h⟩ else .head
  | .head => .head

/-- `CIRCLEQ_FIRST` of the ring that `start` builds. -/
def circleqFirst [NeZero N] : Elm N := .entry ⟨0, Nat.pos_of_neZero N⟩

/-- `CIRCLEQ_LAST`. -/
def circleqLast [NeZero N] : Elm N := .entry ⟨N - 1, Nat.sub_lt (Nat.pos_of_neZero N) Nat.one_pos⟩

/-- `foward_current_node`: the cursor after the call. -/
def fowardCurrentNode [NeZero N] (cursor : Elm N) : Elm N :=
  let next := circleqNext cursor
  if next = circleqLast then circleqFirst else next

/-- `iterate`, for a ring that is not empty. -/
def iterate [NeZero N] (cursor : Elm N) : Elm N :=
  let next := circleqNext cursor
  if next = circleqLast then circleqFirst else next

/-- `get_current_node`, which calls itself and not `__get_current_node`: what it has returned after
`fuel` calls, a pointer to a ring entry or null. -/
def getCurrentNode : ℕ → Option (Option ℕ)
  | 0 => none
  | fuel + 1 => getCurrentNode fuel

/-- Where the ring lies in memory: the address of its array, the address of the queue head, and
`sizeof(struct node_circle_buffer)`. -/
structure RingLayout where
  buffer : ℤ
  head : ℤ
  entrySize : ℕ
  entrySize_pos : 0 < entrySize

/-- The address of an element. -/
def RingLayout.addr (l : RingLayout) : Elm N → ℤ
  | .entry i => l.buffer + i.val * l.entrySize
  | .head => l.head

/-- `__is_behind_cursor`, with `this->cursor` as its second argument and `circle_buffer_size` equal
to the number of entries. -/
def isBehindCursor (l : RingLayout) (cur cursor : Elm N) : Bool :=
  let a := l.addr cur
  let b := l.addr cursor
  let base := l.buffer
  let last := l.buffer + N * l.entrySize
  if a = b then false
  else if a < b then b - a < last - base
  else (last - a) + (b - base) < last - base

/-! ## The cycle of positions -/

/-- The entry that a cursor starting at the first one is at after `k` moves, in a ring of two
entries or more. -/
def slot (hN : 2 ≤ N) (k : ℕ) : Fin N :=
  ⟨k % (N - 1), by have := Nat.mod_lt k (show 0 < N - 1 by omega); omega⟩

section

variable [NeZero N] (hN : 2 ≤ N)

theorem circleqFirst_eq_slot : (circleqFirst : Elm N) = .entry (slot hN 0) := by
  simp [circleqFirst, slot]

/-- Moving forward goes from one position of the cycle to the next. -/
theorem foward_slot (k : ℕ) :
    fowardCurrentNode (.entry (slot hN k)) = .entry (slot hN (k + 1)) := by
  have hlt : k % (N - 1) < N - 1 := Nat.mod_lt k (by omega)
  have hdiv : (N - 1) * (k / (N - 1)) + k % (N - 1) = k := Nat.div_add_mod k (N - 1)
  have hnext : circleqNext (.entry (slot hN k)) =
      .entry (⟨k % (N - 1) + 1, by omega⟩ : Fin N) := by
    rw [circleqNext, dif_pos (show (slot hN k).val + 1 < N by simp only [slot]; omega)]
    rfl
  rw [fowardCurrentNode, hnext]
  by_cases hwrap : k % (N - 1) + 1 = N - 1
  · -- the next entry would be the last one
    have hmod : (k + 1) % (N - 1) = 0 := by
      rw [show k + 1 = (N - 1) * (k / (N - 1) + 1) by rw [Nat.mul_add]; omega, Nat.mul_mod_right]
    rw [if_pos (by simp [circleqLast, hwrap])]
    simp [circleqFirst, slot, hmod]
  · have hmod : (k + 1) % (N - 1) = k % (N - 1) + 1 := by
      rw [show k + 1 = (N - 1) * (k / (N - 1)) + (k % (N - 1) + 1) by omega, Nat.mul_add_mod,
        Nat.mod_eq_of_lt (by omega)]
    rw [if_neg (by simpa [circleqLast] using hwrap)]
    simp [slot, hmod]

/-- The cursor after `k` moves. -/
theorem foward_iterate (k : ℕ) :
    fowardCurrentNode^[k] circleqFirst = .entry (slot hN k) := by
  induction k with
  | zero => exact circleqFirst_eq_slot hN
  | succ k ih => rw [Function.iterate_succ_apply', ih, foward_slot]

theorem iterate_slot (k : ℕ) : iterate (.entry (slot hN k)) = .entry (slot hN (k + 1)) :=
  foward_slot hN k

end

/-- Two counts of moves less than a lap apart lead to different entries. -/
theorem slot_inj (hN : 2 ≤ N) {j k : ℕ} (hjk : j ≤ k) (hlap : k - j < N - 1)
    (h : slot hN j = slot hN k) : j = k := by
  have hmod : j % (N - 1) = k % (N - 1) := congrArg Fin.val h
  have hzero : k - j = 0 := Nat.eq_zero_of_dvd_of_lt ((Nat.modEq_iff_dvd' hjk).1 hmod) hlap
  omega

/-- `get_current_node` does not return. -/
theorem getCurrentNode_eq_none (fuel : ℕ) : getCurrentNode fuel = none := by
  induction fuel with
  | zero => rfl
  | succ fuel ih => rw [getCurrentNode, ih]

/-! ## Addresses -/

namespace RingLayout

variable (l : RingLayout)

theorem addr_inj {i j : Fin N} (h : l.addr (.entry i) = l.addr (.entry j)) : i = j := by
  have hmul : (i.val : ℤ) * l.entrySize = j.val * l.entrySize := add_left_cancel h
  have hne : l.entrySize ≠ 0 := Nat.pos_iff_ne_zero.1 l.entrySize_pos
  exact Fin.ext ((Nat.mul_left_inj hne).1 (by exact_mod_cast hmul))

/-- The entries lie between the start and the end of the array. -/
theorem addr_bounds (i : Fin N) :
    l.buffer ≤ l.addr (.entry i) ∧ l.addr (.entry i) < l.buffer + N * l.entrySize := by
  have hlt : (i.val : ℤ) * l.entrySize < N * l.entrySize := by
    exact_mod_cast Nat.mul_lt_mul_of_pos_right i.isLt l.entrySize_pos
  have hnonneg : 0 ≤ (i.val : ℤ) * l.entrySize := by positivity
  exact ⟨le_add_of_nonneg_right hnonneg, add_lt_add_right hlt l.buffer⟩

end RingLayout

/-- A lap later the cursor is back. -/
theorem slot_add_lap (hN : 2 ≤ N) (k : ℕ) : slot hN (k + (N - 1)) = slot hN k := by
  simp [slot]

/-- An entry is behind the cursor exactly when it is a different one. -/
theorem isBehindCursor_iff (l : RingLayout) (i j : Fin N) :
    isBehindCursor l (.entry i) (.entry j) = true ↔ i ≠ j := by
  obtain ⟨hi, hi'⟩ := l.addr_bounds i
  obtain ⟨hj, hj'⟩ := l.addr_bounds j
  rw [isBehindCursor]
  split
  · next h => simp [l.addr_inj h]
  · next h =>
    have hij : i ≠ j := fun hij ↦ h (by rw [hij])
    split
    · simp only [decide_eq_true_eq, iff_true_right hij]; omega
    · simp only [decide_eq_true_eq, iff_true_right hij]; omega

end DmmrOrbit
