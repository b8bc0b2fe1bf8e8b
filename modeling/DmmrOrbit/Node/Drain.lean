import DmmrOrbit.Node.RecvManager

/-!
# Taking nodes off a receive manager

A receive callback empties the manager by calling `get_buzy_node` until it returns null.  `drain` is
that loop with a bound on the number of calls, and `Outstanding.drain_all` says that 257 calls are
always enough: the loop hands over the nodes of the outstanding slots, oldest first, and leaves
none.
-/

set_option autoImplicit false

namespace DmmrOrbit

/-- Calls `get_buzy_node` until it returns null, at most `fuel` times, collecting the nodes. -/
def drain : ℕ → NodeRecvManager → List Node × NodeRecvManager
  | 0, m => ([], m)
  | fuel + 1, m =>
    match getBuzyNode m with
    | (some pos, m') => ((m'.buffer pos).node :: (drain fuel m').1, (drain fuel m').2)
    | (none, m') => ([], m')

/-- The contents of the outstanding slots, oldest first. -/
def NodeRecvManager.nodes (m : NodeRecvManager) (q : List (Fin 256)) : List Node :=
  q.map fun pos ↦ (m.buffer pos).node

theorem NodeRecvManager.nodes_congr {m m' : NodeRecvManager} {q : List (Fin 256)}
    (h : ∀ pos ∈ q, (m.buffer pos).node = (m'.buffer pos).node) : m.nodes q = m'.nodes q :=
  List.map_congr_left h

/-- With as many calls as there are slots outstanding, the oldest ones are handed over and the
rest stay. -/
theorem Outstanding.drain_spec (fuel : ℕ) {m : NodeRecvManager} {q : List (Fin 256)}
    (h : Outstanding m q) : (drain fuel m).1 = m.nodes (q.take fuel) ∧
      Outstanding (drain fuel m).2 (q.drop fuel) ∧
      ∀ i, ((drain fuel m).2.buffer i).node = (m.buffer i).node := by
  induction fuel generalizing m q with
  | zero => exact ⟨rfl, h, fun _ ↦ rfl⟩
  | succ fuel ih =>
    cases q with
    | nil =>
      rw [drain, h.getBuzyNode_nil]
      exact ⟨rfl, h, fun _ ↦ rfl⟩
    | cons p q =>
      obtain ⟨m', hg, hm, hnode⟩ := h.getBuzyNode_spec
      obtain ⟨hl, hr, hn⟩ := ih hm
      rw [drain, hg]
      refine ⟨?_, hr, fun i ↦ (hn i).trans (hnode i)⟩
      rw [List.take_succ_cons]
      exact congrArg₂ List.cons (hnode p)
        (hl.trans (NodeRecvManager.nodes_congr fun i _ ↦ hnode i))

/-- **The drain loop ends**, with every outstanding node handed over once and in order. -/
theorem Outstanding.drain_all {m : NodeRecvManager} {q : List (Fin 256)} (h : Outstanding m q) :
    (drain 257 m).1 = m.nodes q ∧ Outstanding (drain 257 m).2 [] := by
  have hle := h.length_le
  obtain ⟨hl, hr, -⟩ := h.drain_spec 257
  rw [List.take_of_length_le (by omega)] at hl
  rw [List.drop_of_length_le (by omega)] at hr
  exact ⟨hl, hr⟩

end DmmrOrbit
