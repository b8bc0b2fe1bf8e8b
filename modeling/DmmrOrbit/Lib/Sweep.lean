import Mathlib.Data.List.Nodup
import Mathlib.Logic.Function.Basic

/-!
# Sweeping a table

A sweep visits the entries of a table in the order of a list of indices and clears those that a test
picks out.  `Sweep` keeps what was read and what was cleared on the way, so that one can say that
nothing was cleared twice and nothing read that is not there.

As long as no index comes twice, the test sees every entry as it was at the start; this is what
`table_along`, `read_along` and `cleared_along` say.
-/

set_option autoImplicit false

/-- A sweep on its way: the table, and the indices of the entries read and cleared so far. -/
structure Sweep (ι α : Type) where
  table : ι → α
  read : List ι
  cleared : List ι

namespace Sweep

variable {ι α : Type} [DecidableEq ι] (live : α → Bool) (clear : α → α)

/-- Before the first visit. -/
def start (table : ι → α) : Sweep ι α := ⟨table, [], []⟩

/-- The entry at `i` is read and, if it is live, cleared. -/
def visit (s : Sweep ι α) (i : ι) : Sweep ι α :=
  if live (s.table i) then
    ⟨Function.update s.table i (clear (s.table i)), s.read ++ [i], s.cleared ++ [i]⟩
  else { s with read := s.read ++ [i] }

/-- The entries of a list, one after the other. -/
def along (s : Sweep ι α) (is : List ι) : Sweep ι α := is.foldl (visit live clear) s

variable {live clear} {s : Sweep ι α} {is : List ι}

@[simp] theorem read_visit (i : ι) : (s.visit live clear i).read = s.read ++ [i] := by
  rw [visit]
  split <;> rfl

theorem cleared_visit (i : ι) : (s.visit live clear i).cleared =
    s.cleared ++ if live (s.table i) then [i] else [] := by
  rw [visit]
  split
  · rfl
  · rw [List.append_nil]

theorem table_visit_self (i : ι) : (s.visit live clear i).table i =
    if live (s.table i) then clear (s.table i) else s.table i := by
  rw [visit]
  split
  · exact Function.update_self _ _ _
  · rfl

theorem table_visit_of_ne {i j : ι} (h : j ≠ i) : (s.visit live clear i).table j = s.table j := by
  rw [visit]
  split
  · exact Function.update_of_ne h _ _
  · rfl

theorem read_along : (s.along live clear is).read = s.read ++ is := by
  induction is generalizing s with
  | nil => exact (List.append_nil _).symm
  | cons i is ih =>
    show ((s.visit live clear i).along live clear is).read = _
    rw [ih, read_visit, List.append_assoc, List.singleton_append]

/-- An entry that the list leaves out stays as it is. -/
theorem table_along_of_notMem {j : ι} (h : j ∉ is) :
    (s.along live clear is).table j = s.table j := by
  induction is generalizing s with
  | nil => rfl
  | cons i is ih =>
    rw [List.mem_cons, not_or] at h
    obtain ⟨hne, hj⟩ := h
    exact (ih hj).trans (table_visit_of_ne hne)

/-- One on the list is cleared if it is live. -/
theorem table_along (hnodup : is.Nodup) {j : ι} (hj : j ∈ is) :
    (s.along live clear is).table j =
      if live (s.table j) then clear (s.table j) else s.table j := by
  induction is generalizing s with
  | nil => exact absurd hj List.not_mem_nil
  | cons i is ih =>
    obtain ⟨hi, hnodup⟩ := List.nodup_cons.1 hnodup
    show ((s.visit live clear i).along live clear is).table j = _
    rcases List.mem_cons.1 hj with rfl | hj
    · rw [table_along_of_notMem hi, table_visit_self]
    · have hne : j ≠ i := fun h ↦ hi (h ▸ hj)
      rw [ih hnodup hj, table_visit_of_ne hne]

/-- What is cleared is what was live at the start. -/
theorem cleared_along (hnodup : is.Nodup) : (s.along live clear is).cleared =
    s.cleared ++ is.filter fun i ↦ live (s.table i) := by
  induction is generalizing s with
  | nil => exact (List.append_nil _).symm
  | cons i is ih =>
    obtain ⟨hi, hnodup⟩ := List.nodup_cons.1 hnodup
    have hrest : is.filter (fun j ↦ live ((s.visit live clear i).table j)) =
        is.filter fun j ↦ live (s.table j) := by
      refine List.filter_congr fun j hj ↦ ?_
      have hne : j ≠ i := fun h ↦ hi (h ▸ hj)
      rw [table_visit_of_ne hne]
    show ((s.visit live clear i).along live clear is).cleared = _
    rw [ih hnodup, hrest, cleared_visit, List.filter_cons, List.append_assoc]
    split <;> rfl

/-- A live entry on the list is cleared once. -/
theorem count_cleared_along [BEq ι] [LawfulBEq ι] (hnodup : is.Nodup) {table : ι → α} {j : ι}
    (hj : j ∈ is) (hlive : live (table j) = true) :
    (((start table).along live clear is).cleared).count j = 1 := by
  rw [cleared_along hnodup]
  show ([] ++ is.filter fun i ↦ live (table i)).count j = 1
  rw [List.nil_append, List.count_filter (p := fun i ↦ live (table i)) hlive]
  exact List.count_eq_one_of_mem hnodup hj

end Sweep
