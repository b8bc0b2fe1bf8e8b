import Mathlib.Logic.Function.Iterate
import DmmrOrbit.Session.SessionPool

/-!
# The counter of a session

`update_session_counter` takes `node_count` for the number of nodes at `node` and adds up their
sizes, and then the sum is the new `node_count`.  The next call takes that many nodes, so what it
reads has nothing to do with how many there are.

`updateSessionCounter_repeatable_iff` says for which arrays any number of calls stays inside all the
same, and leaves the count alone from the second call on.
-/

set_option autoImplicit false

namespace DmmrOrbit

/-- The nodes that a call reads. -/
def counterReads (u : ProtocolBaseCb) : List ℕ :=
  match u.node with
  | some base => (List.range u.nodeCount.toNat).map fun i ↦ base + i
  | none => []

/-- The sizes of the `k` nodes from `base` on, added up as `unsigned`. -/
def totalSize (nodePool : ℕ → Node) (base k : ℕ) : UInt32 :=
  ((List.range k).map fun i ↦ (nodePool (base + i)).valueSize).sum

/-- What is promised of a session with an array of `node_count` nodes at `base`: every one of the
calls, whichever number of them has come before it, reads nodes of the array only, and the second
one leaves the count as it is. -/
structure Repeatable (nodePool : ℕ → Node) (base : ℕ) (u : ProtocolBaseCb) : Prop where
  inside : ∀ calls, ∀ i ∈ counterReads ((updateSessionCounter nodePool)^[calls] u),
    base ≤ i ∧ i < base + u.nodeCount.toNat
  settled : ((updateSessionCounter nodePool)^[2] u).nodeCount =
    ((updateSessionCounter nodePool)^[1] u).nodeCount

section

variable {nodePool : ℕ → Node} {base : ℕ} {u : ProtocolBaseCb}

/-- What a call does: the count is the sum of the sizes of what it has read. -/
theorem updateSessionCounter_eq (hproto : u.proto ≠ .none) (hnode : u.node = some base) :
    updateSessionCounter nodePool u =
      { u with nodeCount := totalSize nodePool base u.nodeCount.toNat } := by
  rw [updateSessionCounter, hnode]
  cases h : u.proto with
  | none => exact absurd h hproto
  | udp => rfl
  | tcp => rfl

theorem counterReads_eq (hnode : u.node = some base) :
    counterReads u = (List.range u.nodeCount.toNat).map fun i ↦ base + i := by
  rw [counterReads, hnode]

/-- A call reads inside the first `n` nodes exactly if the count is at most `n`. -/
theorem counterReads_inside_iff (hnode : u.node = some base) {n : ℕ} :
    (∀ i ∈ counterReads u, base ≤ i ∧ i < base + n) ↔ u.nodeCount.toNat ≤ n := by
  rw [counterReads_eq hnode]
  constructor
  · intro h
    cases hcount : u.nodeCount.toNat with
    | zero => exact Nat.zero_le n
    | succ k =>
      have hlast := h (base + k) (List.mem_map.2 ⟨k, by rw [List.mem_range]; omega, rfl⟩)
      omega
  · intro h i hi
    obtain ⟨k, hk, rfl⟩ := List.mem_map.1 hi
    rw [List.mem_range] at hk
    exact ⟨Nat.le_add_right base k, by omega⟩

theorem totalSize_add (nodePool : ℕ → Node) (base k l : ℕ) :
    totalSize nodePool base (k + l) =
      totalSize nodePool base k + totalSize nodePool (base + k) l := by
  rw [totalSize, List.range_add, List.map_append, List.sum_append, List.map_map]
  congr 2
  exact List.map_congr_left fun i _ ↦ by rw [Function.comp_apply, Nat.add_assoc]

/-- If the first `k` nodes of an array have the size `k` of all its nodes, the others have none. -/
theorem totalSize_fixed_iff {n : ℕ} (hle : (totalSize nodePool base n).toNat ≤ n) :
    totalSize nodePool base (totalSize nodePool base n).toNat = totalSize nodePool base n ↔
      totalSize nodePool (base + (totalSize nodePool base n).toNat)
        (n - (totalSize nodePool base n).toNat) = 0 := by
  have hsum := totalSize_add nodePool base (totalSize nodePool base n).toNat
    (n - (totalSize nodePool base n).toNat)
  rw [Nat.add_sub_cancel' hle] at hsum
  constructor
  · intro h
    rw [h] at hsum
    exact left_eq_add.1 hsum
  · intro h
    rw [h, add_zero] at hsum
    exact hsum.symm

/-- Once a call leaves the session as it is, so do all that follow. -/
theorem iterate_updateSessionCounter {first : ProtocolBaseCb}
    (hone : updateSessionCounter nodePool u = first)
    (hfix : updateSessionCounter nodePool first = first) (calls : ℕ) :
    (updateSessionCounter nodePool)^[calls + 1] u = first := by
  induction calls with
  | zero => exact hone
  | succ calls ih => rw [Function.iterate_succ_apply', ih, hfix]

/-- **When the counter can be updated again and again.**  Any number of calls reads nodes of the
array only, and the second leaves the count as it is, if and only if the sizes of the nodes add up
to no more than there are nodes, and those of the nodes behind the first so many to nothing. -/
theorem updateSessionCounter_repeatable_iff (hproto : u.proto ≠ .none)
    (hnode : u.node = some base) :
    Repeatable nodePool base u ↔
      (totalSize nodePool base u.nodeCount.toNat).toNat ≤ u.nodeCount.toNat ∧
        totalSize nodePool (base + (totalSize nodePool base u.nodeCount.toNat).toNat)
          (u.nodeCount.toNat - (totalSize nodePool base u.nodeCount.toNat).toNat) = 0 := by
  set first := { u with nodeCount := totalSize nodePool base u.nodeCount.toNat }
  have hone : (updateSessionCounter nodePool)^[1] u = first := updateSessionCounter_eq hproto hnode
  have htwo : ((updateSessionCounter nodePool)^[2] u).nodeCount =
      totalSize nodePool base first.nodeCount.toNat := by
    rw [Function.iterate_succ_apply', hone, updateSessionCounter_eq (u := first) hproto hnode]
  constructor
  · intro h
    have hinside := h.inside 1
    rw [hone, counterReads_inside_iff (u := first) hnode] at hinside
    have hsame := h.settled
    rw [htwo, hone] at hsame
    exact ⟨hinside, (totalSize_fixed_iff hinside).1 hsame⟩
  · rintro ⟨hle, hrest⟩
    have hfix : updateSessionCounter nodePool first = first := by
      rw [updateSessionCounter_eq (u := first) hproto hnode, (totalSize_fixed_iff hle).2 hrest]
    have hall := iterate_updateSessionCounter hone hfix
    refine ⟨fun calls ↦ ?_, by rw [hall 1, hall 0]⟩
    cases calls with
    | zero => exact (counterReads_inside_iff hnode).2 le_rfl
    | succ calls =>
      rw [hall calls]
      exact (counterReads_inside_iff (u := first) hnode).2 hle

end

/-- A session with one node of the given size. -/
def oneNode (valueSize : UInt32) : (ℕ → Node) × ProtocolBaseCb :=
  (fun _ ↦ { Node.zero .mtu1500 with valueSize := valueSize },
    { ProtocolBaseCb.zero .mtu1500 with proto := .udp, nodeCount := 1, node := some 0 })

/-- A session with three nodes, of sizes 1, 1 and 0. -/
def threeNodes : (ℕ → Node) × ProtocolBaseCb :=
  (fun k ↦ { Node.zero .mtu1500 with valueSize := if k < 2 then 1 else 0 },
    { ProtocolBaseCb.zero .mtu1500 with proto := .udp, nodeCount := 3, node := some 0 })

/-- They are counted as two, and the third one has no size. -/
theorem threeNodes_repeatable : Repeatable threeNodes.1 0 threeNodes.2 :=
  (updateSessionCounter_repeatable_iff (by decide) rfl).2 ⟨by decide, by decide⟩

/-- After the first flush of a session with a node of 1400 bytes, the second one reads 1400 nodes
where there is one. -/
theorem not_repeatable : ¬ ∀ (nodePool : ℕ → Node) (base : ℕ) (u : ProtocolBaseCb),
    u.proto ≠ .none → u.node = some base → Repeatable nodePool base u := by
  intro h
  have hone := (h (oneNode 1400).1 0 (oneNode 1400).2 (by decide) rfl).inside 1
  rw [counterReads_inside_iff rfl] at hone
  exact absurd hone (by decide)

end DmmrOrbit
