import Mathlib.Data.UInt
import DmmrOrbit.Lib.BinaryInsertion
import DmmrOrbit.Session.SessionPool

/-!
# The order that a flush leaves in the pool

`sort_pool_by_arrival_inline`, cell by cell: the key is taken out of the array, the cells in front
of it that arrived later move up by one, and the key is put where the last of them was.  The pool
of `SessionPool` has the sorted part of the array as a list of its own (`sortPoolByArrivalInline`);
here is the loop on the array (`sortCells`), and both are the stable sort, as the insertion by
halving of `_reorder_thread` is.  The stable sort is the only one of its kind, so it makes no
difference which of them is taken (`sortCells_stable`), and after a flush the cells left over are in
that order (`SessionConnectionPool.Wf.sorted_compact`).
-/

set_option autoImplicit false

namespace DmmrOrbit

open BinaryInsertion

variable {α : Type} (arrival : α → UInt64)

/-! ## The loops -/

/-- The inner loop, with its `j`: a cell that arrived later than the key moves up by one. -/
def sinkKey (key : α) : ℕ → List α → List α
  | 0, v => v.set 0 key
  | j + 1, v =>
    match v[j]? with
    | some x =>
      if arrival x > arrival key then sinkKey key j (v.set (j + 1) x) else v.set (j + 1) key
    | none => v.set (j + 1) key

/-- The outer loop from `i` on, for a number of rounds. -/
def sortCellsFrom : ℕ → ℕ → List α → List α
  | 0, _, v => v
  | k + 1, i, v =>
    match v[i]? with
    | some key => sortCellsFrom k (i + 1) (sinkKey arrival key i v)
    | none => v

/-- `sort_pool_by_arrival_inline`, on the first `c` cells of an array. -/
def sortCells (v : List α) (c : ℕ) : List α :=
  if c < 2 then v else sortCellsFrom arrival (c - 1) 1 v

/-- The cells that the inner loop reads, one after the other. -/
def sinkReads (key : α) : ℕ → List α → List ℕ
  | 0, _ => []
  | j + 1, v =>
    j :: match v[j]? with
      | some x => if arrival x > arrival key then sinkReads key j (v.set (j + 1) x) else []
      | none => []

/-- And the outer loop with it. -/
def sortReadsFrom : ℕ → ℕ → List α → List ℕ
  | 0, _, _ => []
  | k + 1, i, v =>
    i :: match v[i]? with
      | some key => sinkReads arrival key i v ++ sortReadsFrom k (i + 1) (sinkKey arrival key i v)
      | none => []

def sortReads (v : List α) (c : ℕ) : List ℕ :=
  if c < 2 then [] else sortReadsFrom arrival (c - 1) 1 v

/-- The time stamps are compared as numbers. -/
def stamp (a : α) : ℕ := (arrival a).toNat

variable {arrival}

theorem stamp_lt {x y : α} : arrival x > arrival y ↔ stamp arrival y < stamp arrival x :=
  UInt64.lt_iff_toNat_lt

/-- **The inner loop** puts the key behind the cells that did not arrive later. -/
theorem sinkKey_eq {sorted : List α} (h : Ascending (stamp arrival) sorted) (key x : α)
    (rest : List α) :
    sinkKey arrival key sorted.length (sorted ++ x :: rest) =
      insertBehind (stamp arrival) sorted key ++ rest := by
  induction sorted using List.reverseRecOn generalizing x rest with
  | nil => rfl
  | append_singleton sorted y ih =>
    have hfront : Ascending (stamp arrival) sorted := h.sublist (List.sublist_append_left _ _)
    have hlen : (sorted ++ [y]).length = sorted.length + 1 := by simp
    have hget : (sorted ++ [y] ++ x :: rest)[sorted.length]? = some y := by simp
    have hset (z : α) : (sorted ++ [y] ++ x :: rest).set (sorted.length + 1) z =
        sorted ++ [y] ++ z :: rest := by
      rw [← hlen, List.set_append_right _ _ le_rfl, Nat.sub_self]
      rfl
    rw [hlen, sinkKey, hget]
    dsimp only
    split
    · next hlater =>
      rw [hset, insertBehind_append_of_lt (stamp_lt.1 hlater), List.append_assoc, List.append_assoc]
      exact ih hfront y (y :: rest)
    · next hle =>
      rw [hset, h.insertBehind_concat_of_le (not_lt.1 (mt stamp_lt.2 hle))]
      simp

/-- **The outer loop**: the first cells are sorted, the others as they were. -/
theorem sortCellsFrom_eq (v : List α) {k i : ℕ} (hk : i + k ≤ v.length) :
    sortCellsFrom arrival k i (sortBehind (stamp arrival) (v.take i) ++ v.drop i) =
      sortBehind (stamp arrival) (v.take (i + k)) ++ v.drop (i + k) := by
  induction k generalizing i with
  | zero => rfl
  | succ k ih =>
    have hi : i < v.length := by omega
    have hsorted := sorted_sortBehind (stamp arrival) (v.take i)
    have hlen : (sortBehind (stamp arrival) (v.take i)).length = i := by
      rw [hsorted.perm.length_eq, List.length_take, Nat.min_eq_left hi.le]
    have hget : (sortBehind (stamp arrival) (v.take i) ++ v.drop i)[i]? = some v[i] := by
      rw [List.getElem?_append_right hlen.le, hlen, Nat.sub_self, List.getElem?_drop,
        Nat.add_zero, List.getElem?_eq_getElem hi]
    have hsink := sinkKey_eq hsorted.ascending v[i] v[i] (v.drop (i + 1))
    rw [hlen, ← List.drop_eq_getElem_cons hi, ← sortBehind_concat,
      List.take_concat_get' _ _ hi] at hsink
    rw [sortCellsFrom, hget]
    dsimp only
    rw [hsink, ih (by omega), Nat.add_right_comm, Nat.add_assoc]

theorem sortCells_eq (v : List α) {c : ℕ} (hc : c ≤ v.length) :
    sortCells arrival v c = sortBehind (stamp arrival) (v.take c) ++ v.drop c := by
  have hstart (h : 1 ≤ v.length) : v = sortBehind (stamp arrival) (v.take 1) ++ v.drop 1 := by
    cases v with
    | nil => exact absurd h (by simp)
    | cons x xs => rfl
  rw [sortCells]
  split
  · next hlt =>
    have hcases : c = 0 ∨ c = 1 := by omega
    rcases hcases with rfl | rfl
    · rfl
    · exact hstart hc
  · next hge =>
    have hsort := @sortCellsFrom_eq _ arrival v (c - 1) 1 (by omega)
    rw [← hstart (by omega), Nat.add_sub_cancel' (by omega)] at hsort
    exact hsort

/-! ## What is read -/

theorem sinkReads_lt {key : α} {j : ℕ} {v : List α} {n : ℕ} (hn : n ∈ sinkReads arrival key j v) :
    n < j := by
  induction j generalizing v with
  | zero => exact absurd hn List.not_mem_nil
  | succ j ih =>
    rw [sinkReads] at hn
    rcases List.mem_cons.1 hn with rfl | hn
    · exact Nat.lt_succ_self _
    · split at hn
      · split at hn
        · exact Nat.lt_succ_of_lt (ih hn)
        · exact absurd hn List.not_mem_nil
      · exact absurd hn List.not_mem_nil

theorem sortReadsFrom_lt {k i : ℕ} {v : List α} {n : ℕ} (hn : n ∈ sortReadsFrom arrival k i v) :
    n < i + k := by
  induction k generalizing i v with
  | zero => exact absurd hn List.not_mem_nil
  | succ k ih =>
    rw [sortReadsFrom] at hn
    rcases List.mem_cons.1 hn with rfl | hn
    · omega
    · split at hn
      · rcases List.mem_append.1 hn with hn | hn
        · have hlt := sinkReads_lt hn
          omega
        · have hlt := ih hn
          omega
      · exact absurd hn List.not_mem_nil

theorem sortReads_lt {v : List α} {c n : ℕ} (hn : n ∈ sortReads arrival v c) : n < c := by
  rw [sortReads] at hn
  split at hn
  · exact absurd hn List.not_mem_nil
  · have hlt := sortReadsFrom_lt hn
    omega

/-! ## The sorted part as a list -/

/-- The inner loop on the sorted part, which is given in reverse. -/
theorem reverse_shiftLater {sorted : List α} (h : Ascending (stamp arrival) sorted) (key : α) :
    (shiftLater arrival key sorted.reverse).reverse = insertBehind (stamp arrival) sorted key := by
  induction sorted using List.reverseRecOn with
  | nil => rfl
  | append_singleton sorted y ih =>
    have hfront : Ascending (stamp arrival) sorted := h.sublist (List.sublist_append_left _ _)
    rw [List.reverse_append, List.reverse_singleton, List.singleton_append, shiftLater]
    split
    · next hlater =>
      rw [List.reverse_cons, ih hfront, insertBehind_append_of_lt (stamp_lt.1 hlater)]
    · next hle =>
      rw [h.insertBehind_concat_of_le (not_lt.1 (mt stamp_lt.2 hle))]
      simp

theorem sortPoolByArrivalInline_eq (v : List α) :
    sortPoolByArrivalInline arrival v = sortBehind (stamp arrival) v := by
  induction v using List.reverseRecOn with
  | nil => rfl
  | append_singleton v key ih =>
    have hfold : v.foldl (fun sorted key ↦ shiftLater arrival key sorted) [] =
        (sortBehind (stamp arrival) v).reverse := by
      rw [← ih, sortPoolByArrivalInline, List.reverse_reverse]
    rw [sortPoolByArrivalInline, List.foldl_append, hfold, List.foldl_cons, List.foldl_nil,
      reverse_shiftLater (sorted_sortBehind (stamp arrival) v).ascending, sortBehind_concat]

/-- After a flush the cells left over are in the order of their arrival. -/
theorem SessionConnectionPool.Wf.sorted_compact {conn : SessionConnectionPool α} (h : conn.Wf)
    {count : ℕ} (hcount : count ≤ conn.poolCount) (toNode : α → Node) (nodePool : ℕ → Node) :
    Sorted (stamp fun a ↦ (toNode a).arrival) (conn.live.drop count)
      (conn.compact toNode nodePool count).live := by
  rw [h.live_compact_eq hcount, sortPoolByArrivalInline_eq]
  exact sorted_sortBehind _ _

/-- **`sort_pool_by_arrival_inline` is the stable sort** of the first `c` cells of an array, and
neither reads the others nor changes them: what comes to stand there are the same cells, in the
order of their arrival, with those that arrived at the same time as they were.  It is the only order
of this kind, so it is what the sort of `_reorder_thread` would make of them, too. -/
theorem sortCells_stable (v : List α) {c : ℕ} (hc : c ≤ v.length) :
    (∀ i ∈ sortReads arrival v c, i < c) ∧
    ∃ out, sortCells arrival v c = out ++ v.drop c ∧ Sorted (stamp arrival) (v.take c) out ∧
      (∀ other, Sorted (stamp arrival) (v.take c) other → other = out) ∧
      sortPoolByArrivalInline arrival (v.take c) = out := by
  have hsorted := sorted_sortBehind (stamp arrival) (v.take c)
  exact ⟨fun _ hi ↦ sortReads_lt hi, sortBehind (stamp arrival) (v.take c), sortCells_eq v hc,
    hsorted, fun _ hother ↦ hother.unique hsorted, sortPoolByArrivalInline_eq _⟩

/-- Two of the cells arrived at the same time. -/
theorem sortCells_stable_four :
    sortCells (UInt64.ofNat ∘ Prod.fst) [(3, 0), (1, 1), (1, 2), (0, 3)] 3 =
        [(1, 1), (1, 2), (3, 0), (0, 3)] ∧
      ∃ out, sortCells (UInt64.ofNat ∘ Prod.fst) [(3, 0), (1, 1), (1, 2), (0, 3)] 3 =
          out ++ [(0, 3)] ∧
        Sorted (stamp (UInt64.ofNat ∘ Prod.fst)) [(3, 0), (1, 1), (1, 2)] out := by
  obtain ⟨-, out, heq, hsorted, -, -⟩ :
      _ ∧ ∃ out, sortCells (UInt64.ofNat ∘ Prod.fst) [(3, 0), (1, 1), (1, 2), (0, 3)] 3 =
          out ++ [(0, 3)] ∧ Sorted (stamp (UInt64.ofNat ∘ Prod.fst)) [(3, 0), (1, 1), (1, 2)] out ∧
        _ ∧ _ := sortCells_stable [(3, 0), (1, 1), (1, 2), (0, 3)] (by decide)
  exact ⟨by decide, out, heq, hsorted⟩

end DmmrOrbit
