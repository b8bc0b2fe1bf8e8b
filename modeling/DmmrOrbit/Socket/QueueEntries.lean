import DmmrOrbit.Lib.Transition
import DmmrOrbit.Node.RecvManager

/-!
# The entries of the fifo

`on_receive_connection_cb` puts every busy slot of a manager on the fifo, in an entry of its own
that it gets from `get_struct_node_buffer`.  That one is like the allocators of `Pools`, but whether
an entry is free is asked of the node that the entry points at: `!(p->n->fd)`.  `new_dmmr_socket`
leaves the entries zeroed, so there is no such node.

A call goes wrong exactly when an entry without a node comes before the first free one
(`scanEntries_eq_crash_iff`).  In the pool as it is created the first entry is one, and as a call
that goes wrong gives no entry a node it stays so.  `queueEntries_safe_iff` draws the conclusion:
nothing goes wrong as long as the callback is not called.

An entry is named by its index.  The locks are left out.
-/

set_option autoImplicit false

namespace DmmrOrbit

open Transition

/-! ## The pool -/

/-- A `struct node *` into a receive manager: whose slot. -/
abbrev NodeRef (ι : Type) := ι × Fin 256

/-- `nbuff` and its two counters.  Of an entry this is `n`; which of them are linked, and in which
order, is the fifo's business. -/
structure EntryPool (ι : Type) where
  nbuff : List (Option (NodeRef ι))
  size : ℕ
  count : ℕ

/-- `calloc` and the assignment of the size. -/
def EntryPool.zeroed {ι : Type} : EntryPool ι := ⟨List.replicate 0x400 none, 0x400, 0⟩

/-- How the scan ends. -/
inductive EntryScan
  | free (k : ℕ)
  | full
  /-- It has read through a null pointer or past the array. -/
  | crash
  deriving DecidableEq

/-- How a call of `get_struct_node_buffer` ends. -/
inductive EntryCall (ι : Type)
  | entry (k : ℕ) (p : EntryPool ι)
  | null (p : EntryPool ι)
  | crash

section

variable {ι : Type} (fd : NodeRef ι → ℤ)

/-- The loop over the `left` entries from `k` on. -/
def scanEntries (nbuff : List (Option (NodeRef ι))) : ℕ → ℕ → EntryScan
  | 0, _ => .full
  | left + 1, k =>
    match nbuff[k]? with
    | some (some n) => if fd n = 0 then .free k else scanEntries nbuff left (k + 1)
    | _ => .crash

/-- `get_struct_node_buffer`.  `realloc` is what `realloc` returns if it is called: null, or an
array that goes on with these entries. -/
def getStructNodeBuffer (realloc : Option (ℕ → Option (NodeRef ι))) (p : EntryPool ι) :
    EntryCall ι :=
  match scanEntries fd p.nbuff p.size 0 with
  | .crash => .crash
  | .free k => .entry k p
  | .full =>
    if p.count ≥ p.size then
      let size := p.size * 2 % 2 ^ 32
      match realloc with
      | none => .null { p with nbuff := [], size := size }
      | some fresh =>
        .entry p.count
          { nbuff := (List.range size).map fun i ↦ p.nbuff.getD i (fresh i)
            size := size
            count := (p.count + 1) % 2 ^ 32 }
    else .entry p.count { p with count := (p.count + 1) % 2 ^ 32 }

/-- The scan goes wrong exactly when an entry without a node, or none at all, comes before the first
free one. -/
theorem scanEntries_eq_crash_iff (nbuff : List (Option (NodeRef ι))) (left k : ℕ) :
    scanEntries fd nbuff left k = .crash ↔
      ∃ j, k ≤ j ∧ j < k + left ∧ (∀ n, nbuff[j]? ≠ some (some n)) ∧
        ∀ i, k ≤ i → i < j → ∃ n, nbuff[i]? = some (some n) ∧ fd n ≠ 0 := by
  induction left generalizing k with
  | zero => exact iff_of_false (by simp [scanEntries]) fun ⟨j, hkj, hj, _⟩ ↦ by omega
  | succ left ih =>
    rw [scanEntries]
    split
    · next n hn =>
      split
      · next hfd =>
        refine iff_of_false (by simp) fun ⟨j, hkj, _, hj, hall⟩ ↦ ?_
        rcases Nat.lt_or_eq_of_le hkj with hlt | rfl
        · obtain ⟨m, hm, hne⟩ := hall k (Nat.le_refl k) hlt
          rw [hn, Option.some_inj, Option.some_inj] at hm
          exact hne (hm ▸ hfd)
        · exact hj n hn
      · next hfd =>
        rw [ih]
        constructor
        · rintro ⟨j, hkj, hlt, hj, hall⟩
          refine ⟨j, by omega, by omega, hj, fun i hki hij ↦ ?_⟩
          rcases Nat.lt_or_eq_of_le hki with hi | rfl
          · exact hall i hi hij
          · exact ⟨n, hn, hfd⟩
        · rintro ⟨j, hkj, hlt, hj, hall⟩
          have hne : k ≠ j := fun heq ↦ hj n (heq ▸ hn)
          exact ⟨j, by omega, by omega, hj, fun i hki hij ↦ hall i (by omega) hij⟩
    · next hnone =>
      exact iff_of_true rfl ⟨k, Nat.le_refl k, by omega, hnone, fun i hki hik ↦ by omega⟩

/-- It finds none exactly when all entries point at nodes that are in use. -/
theorem scanEntries_eq_full_iff (nbuff : List (Option (NodeRef ι))) (left k : ℕ) :
    scanEntries fd nbuff left k = .full ↔
      ∀ i, k ≤ i → i < k + left → ∃ n, nbuff[i]? = some (some n) ∧ fd n ≠ 0 := by
  induction left generalizing k with
  | zero => exact iff_of_true rfl fun i hki hi ↦ by omega
  | succ left ih =>
    rw [scanEntries]
    split
    · next n hn =>
      split
      · next hfd =>
        refine iff_of_false (by simp) fun hall ↦ ?_
        obtain ⟨m, hm, hne⟩ := hall k (Nat.le_refl k) (by omega)
        rw [hn, Option.some_inj, Option.some_inj] at hm
        exact hne (hm ▸ hfd)
      · next hfd =>
        rw [ih]
        refine ⟨fun hall i hki hi ↦ ?_, fun hall i hki hi ↦ hall i (by omega) (by omega)⟩
        rcases Nat.lt_or_eq_of_le hki with hlt | rfl
        · exact hall i hlt (by omega)
        · exact ⟨n, hn, hfd⟩
    · next hnone =>
      refine iff_of_false (by simp) fun hall ↦ ?_
      obtain ⟨m, hm, -⟩ := hall k (Nat.le_refl k) (by omega)
      exact hnone m hm

/-- All entries are in use and counted, and there is no more memory. -/
def EntryPool.Exhausted (p : EntryPool ι) (realloc : Option (ℕ → Option (NodeRef ι))) : Prop :=
  (∀ i < p.size, ∃ n, p.nbuff[i]? = some (some n) ∧ fd n ≠ 0) ∧ p.size ≤ p.count ∧
    realloc = none

/-- Only then is null returned. -/
theorem EntryPool.exhausted_iff (p : EntryPool ι) (realloc : Option (ℕ → Option (NodeRef ι))) :
    p.Exhausted fd realloc ↔ ∃ q, getStructNodeBuffer fd realloc p = .null q := by
  have hfull := scanEntries_eq_full_iff fd p.nbuff p.size 0
  simp only [Nat.zero_le, true_implies, Nat.zero_add] at hfull
  rw [Exhausted, ← hfull, getStructNodeBuffer]
  cases scanEntries fd p.nbuff p.size 0 with
  | crash => simp
  | free k => simp
  | full =>
    cases realloc with
    | none => by_cases hcount : p.size ≤ p.count <;> simp [hcount]
    | some fresh => by_cases hcount : p.size ≤ p.count <;> simp [hcount]

/-- In zeroed memory the first entry will do. -/
theorem getStructNodeBuffer_zeroed (realloc : Option (ℕ → Option (NodeRef ι))) :
    getStructNodeBuffer fd realloc .zeroed = .crash := by
  have hcrash : scanEntries fd (EntryPool.zeroed : EntryPool ι).nbuff
      (EntryPool.zeroed : EntryPool ι).size 0 = .crash := by
    rw [scanEntries_eq_crash_iff]
    refine ⟨0, Nat.le_refl 0, by show 0 < 0 + 0x400; decide, fun n ↦ ?_, fun i _ hi ↦ by omega⟩
    rw [EntryPool.zeroed, List.getElem?_replicate, if_pos (by decide)]
    simp
  rw [getStructNodeBuffer, hcrash]

end

/-! ## The fifo -/

/-- The managers of the receivers, the pool, and the entries that are linked on the fifo, oldest
first.  The last three fields tell what went wrong: whether `get_struct_node_buffer` crashed, and
whether it returned an entry outside the array or one that was linked. -/
structure EntryQueue (ι : Type) where
  managers : ι → NodeRecvManager
  pool : EntryPool ι
  fifo : List ℕ
  crashed : Bool
  outside : Bool
  relinked : Bool

/-- The fifo and the pool after `new_dmmr_socket`. -/
def entryQueue {ι : Type} (managers : ι → NodeRecvManager) : EntryQueue ι :=
  ⟨managers, .zeroed, [], false, false, false⟩

inductive EntryEvent (ι : Type)
  /-- `on_receive_connection_cb` of a manager, or of a null pointer, with the results of
  `realloc`. -/
  | callback (nrm : Option ι) (realloc : ℕ → Option (ℕ → Option (NodeRef ι)))
  /-- `fifo_worker` removes the oldest entry. -/
  | remove
  /-- A receiver changes its manager. -/
  | receive (i : ι) (m : NodeRecvManager)

section

variable {ι : Type} [DecidableEq ι]

/-- `p->n->fd`. -/
def EntryQueue.fd (s : EntryQueue ι) (n : NodeRef ι) : ℤ := ((s.managers n.1).buffer n.2).node.fd

/-- The loop of `on_receive_connection_cb`.  A manager has 256 slots, so it ends within 257
turns. -/
def receiveLoop (realloc : ℕ → Option (ℕ → Option (NodeRef ι))) (i : ι) :
    ℕ → EntryQueue ι → EntryQueue ι
  | 0, s => s
  | fuel + 1, s =>
    match getStructNodeBuffer s.fd (realloc fuel) s.pool with
    | .crash => { s with crashed := true }
    | .null pool => { s with pool := pool }
    | .entry k pool =>
      let s := { s with
        pool := pool
        outside := s.outside || decide (pool.nbuff.length ≤ k)
        relinked := s.relinked || s.fifo.contains k }
      match getBuzyNode (s.managers i) with
      | (none, m) => { s with managers := Function.update s.managers i m }
      | (some pos, m) =>
        receiveLoop realloc i fuel { s with
          managers := Function.update s.managers i m
          pool.nbuff := pool.nbuff.set k (some (i, pos))
          fifo := s.fifo ++ [k] }

/-- One event.  On an empty fifo the worker waits. -/
def entryStep (s : EntryQueue ι) : EntryEvent ι → Option (EntryQueue ι)
  | .callback none _ => some s
  | .callback (some i) realloc => some (receiveLoop realloc i 257 s)
  | .remove => some { s with fifo := s.fifo.tail }
  | .receive i m => some { s with managers := Function.update s.managers i m }

/-- Nothing went wrong. -/
structure EntryQueue.Safe (s : EntryQueue ι) : Prop where
  noCrash : s.crashed = false
  inside : s.outside = false
  unlinked : s.relinked = false

/-- The events that go well: a callback is one for no manager. -/
def EntryEvent.Ok : EntryEvent ι → Prop
  | .callback nrm _ => nrm = none
  | .remove => True
  | .receive _ _ => True

/-- What is kept: the pool is still zeroed. -/
structure EntryQueue.Inv (s : EntryQueue ι) : Prop where
  pool : s.pool = .zeroed
  safe : s.Safe

namespace EntryQueue.Inv

variable {s t : EntryQueue ι} {e : EntryEvent ι}

theorem step (h : s.Inv) (hok : e.Ok) (hs : entryStep s e = some t) : t.Inv := by
  cases e with
  | callback nrm realloc =>
    obtain rfl : nrm = none := hok
    obtain rfl := Option.some.inj hs
    exact h
  | remove =>
    obtain rfl := Option.some.inj hs
    exact ⟨h.pool, h.safe.noCrash, h.safe.inside, h.safe.unlinked⟩
  | receive i m =>
    obtain rfl := Option.some.inj hs
    exact ⟨h.pool, h.safe.noCrash, h.safe.inside, h.safe.unlinked⟩

/-- The first turn of the loop is the last. -/
theorem step_bad (h : s.Inv) (hbad : ¬ e.Ok) (hs : entryStep s e = some t) : ¬ t.Safe := by
  cases e with
  | callback nrm realloc =>
    obtain ⟨i, rfl⟩ := Option.ne_none_iff_exists'.1 hbad
    obtain rfl := Option.some.inj hs
    intro hsafe
    have hcrash := hsafe.noCrash
    rw [receiveLoop, h.pool, getStructNodeBuffer_zeroed] at hcrash
    exact absurd hcrash Bool.noConfusion
  | remove => exact absurd trivial hbad
  | receive i m => exact absurd trivial hbad

end EntryQueue.Inv

/-- **The pool of fifo entries is safe exactly as long as it is not used.**  From the zeroed array
of `new_dmmr_socket`, over every history of callbacks, removals by the worker and receives: no call
of `get_struct_node_buffer` goes through a null pointer, and each entry it returns is inside the
array and not linked, if and only if no callback of the history is one for a manager. -/
theorem queueEntries_safe_iff (managers : ι → NodeRecvManager) (es : List (EntryEvent ι)) :
    Always entryStep EntryQueue.Safe (entryQueue managers) es ↔ ∀ e ∈ es, e.Ok := by
  have htotal : ∀ (s : EntryQueue ι) (e : EntryEvent ι), ∃ t, entryStep s e = some t := by
    rintro s (⟨_ | _, _⟩ | _ | _)
    all_goals exact ⟨_, rfl⟩
  rw [← guarded_iff_forall_mem htotal (entryQueue managers)]
  exact always_iff_guarded EntryQueue.Inv (fun _ h ↦ h.safe) (fun _ _ _ h hok hs ↦ h.step hok hs)
    (fun _ _ _ h hbad hs ↦ h.step_bad hbad hs) es ⟨rfl, rfl, rfl, rfl⟩

end

/-- The first datagram of the first receiver. -/
theorem queueEntries_not_safe :
    ¬ Always entryStep EntryQueue.Safe (entryQueue fun _ : Unit ↦ .zero .mtu1500)
      [.receive () (getFreeNode (.zero .mtu1500)).2, .callback (some ()) fun _ ↦ none] := by
  intro hA
  have hcrash := (hA.of_run rfl).noCrash
  rw [receiveLoop] at hcrash
  exact absurd hcrash (by simp [getStructNodeBuffer_zeroed, entryQueue])

end DmmrOrbit
