import Mathlib.Data.Nat.Basic
import Mathlib.Logic.Function.Basic
import Mathlib.Tactic.Common

/-!
# Copies in a byte memory

A memory has a byte at every address, and addresses are natural numbers.  `move m src dst n` is what
a copy of `n` bytes is to do: all of the region at `src` is read before any of the region at `dst`
is written, however the two overlap.

A copying loop takes one word after another, `Copying.up` from the front and `Copying.down` from the
back.  A loop is `none` if it comes to a word that is not aligned.  `Copying.up_eq` and
`Copying.down_eq` say when a loop over aligned words does what one `move` does: from the front if
the destination does not begin inside the source, and from the back if it does not end there.
-/

set_option autoImplicit false

namespace ByteMemory

/-- The byte at each address. -/
abbrev Memory := ℕ → UInt8

/-- The memory after `n` bytes have been moved from `src` to `dst`. -/
def move (m : Memory) (src dst n : ℕ) : Memory := fun a ↦
  if dst ≤ a ∧ a < dst + n then m (src + (a - dst)) else m a

section

variable {m : Memory} {src dst n : ℕ}

theorem move_zero : move m src dst 0 = m := by
  funext a
  exact if_neg (by omega)

theorem move_self : move m dst dst n = m := by
  funext a
  rw [move]
  split
  · congr 1
    omega
  · rfl

/-- The bytes that were at the source are at the destination. -/
theorem move_dst {i : ℕ} (h : i < n) : move m src dst n (dst + i) = m (src + i) := by
  rw [move, if_pos (by omega), Nat.add_sub_cancel_left]

theorem move_of_notMem {a : ℕ} (h : a < dst ∨ dst + n ≤ a) : move m src dst n a = m a :=
  if_neg (by omega)

/-- What is promised of a copy: the destination has the bytes that were at the source, and the rest
of the memory is as it was. -/
structure Moved (m : Memory) (src dst n : ℕ) (m' : Memory) : Prop where
  copied : ∀ i < n, m' (dst + i) = m (src + i)
  frame : ∀ a, a < dst ∨ dst + n ≤ a → m' a = m a

/-- Only `move` does it. -/
theorem moved_iff {m' : Memory} : Moved m src dst n m' ↔ m' = move m src dst n := by
  constructor
  · intro h
    funext a
    by_cases ha : dst ≤ a ∧ a < dst + n
    · obtain ⟨i, rfl⟩ := Nat.exists_eq_add_of_le ha.1
      rw [h.copied i (by omega), move_dst (by omega)]
    · rw [h.frame a (by omega), move_of_notMem (by omega)]
  · rintro rfl
    exact ⟨fun _ hi ↦ move_dst hi, fun _ ha ↦ move_of_notMem ha⟩

/-- One part after the other, from the front. -/
theorem move_move_up {k l : ℕ} (h : dst ≤ src ∨ src + (k + l) ≤ dst) :
    move (move m src dst k) (src + k) (dst + k) l = move m src dst (k + l) := by
  funext a
  by_cases hl : dst + k ≤ a ∧ a < dst + k + l
  · rw [move, if_pos hl, move_of_notMem (by omega), move, if_pos (by omega)]
    congr 1
    omega
  · rw [move, if_neg hl]
    by_cases hk : dst ≤ a ∧ a < dst + k
    · rw [move, if_pos hk, move, if_pos (by omega)]
    · rw [move, if_neg hk, move, if_neg (by omega)]

/-- One part after the other, from the back. -/
theorem move_move_down {k l : ℕ} (h : src ≤ dst) :
    move (move m (src + k) (dst + k) l) src dst k = move m src dst (k + l) := by
  funext a
  by_cases hk : dst ≤ a ∧ a < dst + k
  · rw [move, if_pos hk, move_of_notMem (by omega), move, if_pos (by omega)]
  · rw [move, if_neg hk]
    by_cases hl : dst + k ≤ a ∧ a < dst + k + l
    · rw [move, if_pos hl, move, if_pos (by omega)]
      congr 1
      omega
    · rw [move, if_neg hl, move, if_neg (by omega)]

end

/-! ## Arrays -/

/-- The `n` bytes from an address on. -/
def load (m : Memory) (a n : ℕ) : List UInt8 := (List.range n).map fun i ↦ m (a + i)

/-- An array of `n` elements of `w` bytes. -/
def cells (m : Memory) (w a n : ℕ) : List (List UInt8) :=
  (List.range n).map fun i ↦ load m (a + w * i) w

section

variable {m : Memory} {w src dst n k : ℕ}

@[simp] theorem length_load (m : Memory) (a n : ℕ) : (load m a n).length = n := by simp [load]

@[simp] theorem length_cells (m : Memory) (w a n : ℕ) : (cells m w a n).length = n := by
  simp [cells]

theorem load_congr {m' : Memory} {a b : ℕ} (h : ∀ i < n, m' (b + i) = m (a + i)) :
    load m' b n = load m a n :=
  List.map_congr_left fun i hi ↦ h i (List.mem_range.1 hi)

theorem getElem?_load {a i : ℕ} (h : i < n) : (load m a n)[i]? = some (m (a + i)) := by
  simp [load, h]

theorem load_append (m : Memory) (a k l : ℕ) :
    load m a (k + l) = load m a k ++ load m (a + k) l := by
  rw [load, List.range_add, List.map_append, List.map_map]
  congr 1
  exact List.map_congr_left fun i _ ↦ by rw [Function.comp_apply, Nat.add_assoc]

/-- A byte written outside a region. -/
theorem load_update_of_notMem {a b : ℕ} {c : UInt8} (h : b < a ∨ a + n ≤ b) :
    load (Function.update m b c) a n = load m a n :=
  load_congr fun i hi ↦ Function.update_of_ne (by omega) _ _

/-- A byte written behind a region. -/
theorem load_update_last (m : Memory) (a n : ℕ) (c : UInt8) :
    load (Function.update m (a + n) c) a (n + 1) = load m a n ++ [c] := by
  rw [load_append, load_update_of_notMem (by omega)]
  simp [load]

/-- A byte written in front of a region. -/
theorem load_update_first (m : Memory) (a n : ℕ) (c : UInt8) :
    load (Function.update m a c) a (n + 1) = c :: load m (a + 1) n := by
  have hrest : load (Function.update m a c) (a + 1) n = load m (a + 1) n :=
    load_update_of_notMem (.inl (Nat.lt_succ_self a))
  rw [Nat.add_comm, load_append, hrest]
  simp [load]

/-- The start of a region. -/
theorem take_load {a : ℕ} (h : n ≤ k) : (load m a k).take n = load m a n := by
  obtain ⟨l, rfl⟩ := Nat.exists_eq_add_of_le h
  rw [load_append, List.take_left' (length_load m a n)]

/-- Bytes moved to the start of a region. -/
theorem load_move (h : n ≤ k) :
    load (move m src dst n) dst k = load m src n ++ (load m dst k).drop n := by
  obtain ⟨l, rfl⟩ := Nat.exists_eq_add_of_le h
  rw [load_append, load_append m dst, List.drop_left' (length_load m dst n)]
  congr 1
  · exact load_congr fun i hi ↦ move_dst hi
  · exact load_congr fun i _ ↦ move_of_notMem (by omega)

/-- An element lies inside its array. -/
theorem cell_le {i : ℕ} (h : i < n) : w * i + w ≤ w * n :=
  Nat.le_trans (Nat.le_of_eq (Nat.mul_succ w i).symm) (Nat.mul_le_mul_left w h)

/-- Elements moved to the start of an array. -/
theorem cells_move (h : n ≤ k) :
    cells (move m src dst (w * n)) w dst k = cells m w src n ++ (cells m w dst k).drop n := by
  refine List.ext_getElem (by simp; omega) fun i hi _ ↦ ?_
  rw [length_cells] at hi
  by_cases hin : i < n
  · rw [List.getElem_append_left (by simpa using hin)]
    simp only [cells, List.getElem_map, List.getElem_range]
    refine load_congr fun j hj ↦ ?_
    have hcell := cell_le (w := w) hin
    rw [Nat.add_assoc, move_dst (by omega), Nat.add_assoc]
  · rw [List.getElem_append_right (by simpa using Nat.le_of_not_lt hin)]
    simp only [cells, List.getElem_map, List.getElem_range, List.getElem_drop, List.length_map,
      List.length_range]
    have hle := Nat.mul_le_mul_left w (Nat.le_of_not_lt hin)
    rw [Nat.add_sub_cancel' (Nat.le_of_not_lt hin)]
    exact load_congr fun j hj ↦ move_of_notMem (by omega)

/-- A part of an array is an array. -/
theorem cells_drop_take {c : ℕ} (h : c + n ≤ k) :
    ((cells m w dst k).drop c).take n = cells m w (dst + w * c) n := by
  refine List.ext_getElem (by simp; omega) fun i hi _ ↦ ?_
  simp only [cells, List.getElem_map, List.getElem_range, List.getElem_drop, List.getElem_take]
  rw [Nat.mul_add, ← Nat.add_assoc]

end

/-! ## Loops -/

/-- A copying loop between two rounds: the memory and the two pointers. -/
@[ext]
structure Copying where
  mem : Memory
  src : ℕ
  dst : ℕ

namespace Copying

/-- `n` bytes are copied and the pointers move past them. -/
def advance (n : ℕ) (s : Copying) : Copying := ⟨move s.mem s.src s.dst n, s.src + n, s.dst + n⟩

/-- The pointers move back over `n` bytes, which are copied. -/
def retreat (n : ℕ) (s : Copying) : Copying :=
  ⟨move s.mem (s.src - n) (s.dst - n) n, s.src - n, s.dst - n⟩

/-- Words of `w` bytes may be read and written at the two pointers. -/
def Aligned (w : ℕ) (s : Copying) : Prop := w ∣ s.src ∧ w ∣ s.dst

instance (w : ℕ) (s : Copying) : Decidable (s.Aligned w) := inferInstanceAs (Decidable (_ ∧ _))

/-- `t` words of `w` bytes from the front: `*dst++ = *src++`. -/
def up (w : ℕ) : ℕ → Copying → Option Copying
  | 0, s => some s
  | t + 1, s => if s.Aligned w then up w t (s.advance w) else none

/-- `t` words of `w` bytes from the back: `*--dst = *--src`. -/
def down (w : ℕ) : ℕ → Copying → Option Copying
  | 0, s => some s
  | t + 1, s => if (s.retreat w).Aligned w then down w t (s.retreat w) else none

variable {s : Copying} {w k l t : ℕ}

@[simp] theorem src_advance : (s.advance k).src = s.src + k := rfl

@[simp] theorem dst_advance : (s.advance k).dst = s.dst + k := rfl

@[simp] theorem src_retreat : (s.retreat k).src = s.src - k := rfl

@[simp] theorem dst_retreat : (s.retreat k).dst = s.dst - k := rfl

theorem advance_zero : s.advance 0 = s := by rw [advance, move_zero]; rfl

theorem retreat_zero : s.retreat 0 = s := by rw [retreat, move_zero]; rfl

theorem advance_advance (h : s.dst ≤ s.src ∨ s.src + (k + l) ≤ s.dst) :
    (s.advance k).advance l = s.advance (k + l) := by
  ext1
  · exact move_move_up h
  · exact Nat.add_assoc _ _ _
  · exact Nat.add_assoc _ _ _

theorem retreat_retreat (h : s.src ≤ s.dst) (hkl : k + l ≤ s.src) :
    (s.retreat k).retreat l = s.retreat (k + l) := by
  have hsrc : s.src - k = s.src - k - l + l := by omega
  have hdst : s.dst - k = s.dst - k - l + l := by omega
  ext1
  · show move (move s.mem (s.src - k) (s.dst - k) k) (s.src - k - l) (s.dst - k - l) l = _
    rw [hsrc, hdst, Nat.add_sub_cancel, Nat.add_sub_cancel, move_move_down (by omega),
      Nat.sub_sub, Nat.sub_sub, Nat.add_comm l k]
    rfl
  · exact Nat.sub_sub _ _ _
  · exact Nat.sub_sub _ _ _

theorem aligned_one : s.Aligned 1 := ⟨Nat.one_dvd _, Nat.one_dvd _⟩

theorem Aligned.advance (h : s.Aligned w) (k : ℕ) : (s.advance (w * k)).Aligned w :=
  ⟨(Nat.dvd_add_right h.1).2 (Nat.dvd_mul_right w k),
    (Nat.dvd_add_right h.2).2 (Nat.dvd_mul_right w k)⟩

theorem Aligned.retreat (h : s.Aligned w) (k : ℕ) : (s.retreat (w * k)).Aligned w :=
  ⟨Nat.dvd_sub h.1 (Nat.dvd_mul_right w k), Nat.dvd_sub h.2 (Nat.dvd_mul_right w k)⟩

/-- **A loop from the front** over aligned words copies them all, if the destination does not begin
inside the source. -/
theorem up_eq (ha : s.Aligned w) (h : s.dst ≤ s.src ∨ s.src + w * t ≤ s.dst) :
    up w t s = some (s.advance (w * t)) := by
  induction t generalizing s with
  | zero => rw [up, Nat.mul_zero, advance_zero]
  | succ t ih =>
    have hone := ha.advance 1
    rw [Nat.mul_one] at hone
    rw [Nat.mul_succ] at h
    rw [up, if_pos ha, ih hone (by simp only [src_advance, dst_advance]; omega),
      advance_advance (by omega), Nat.mul_succ, Nat.add_comm w]

/-- **A loop from the back** over aligned words copies them all, if the source does not lie behind
the destination. -/
theorem down_eq (ha : s.Aligned w) (h : s.src ≤ s.dst) (ht : w * t ≤ s.src) :
    down w t s = some (s.retreat (w * t)) := by
  induction t generalizing s with
  | zero => rw [down, Nat.mul_zero, retreat_zero]
  | succ t ih =>
    have hone := ha.retreat 1
    rw [Nat.mul_one] at hone
    rw [Nat.mul_succ] at ht
    rw [down, if_pos hone, ih hone (by simp only [src_retreat, dst_retreat]; omega)
      (by simp only [src_retreat]; omega), retreat_retreat h (by omega), Nat.mul_succ,
      Nat.add_comm w]

end Copying

end ByteMemory
