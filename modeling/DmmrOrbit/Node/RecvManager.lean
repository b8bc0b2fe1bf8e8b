import Mathlib.Logic.Function.Basic
import Mathlib.Data.Fintype.Basic
import DmmrOrbit.Lib.Cyclic
import DmmrOrbit.Structs

/-!
# The receive manager

`node_recv_manager.c`: 256 receive slots, each free or busy, behind two `uint8_t` indices that
wrap.  `getFreeNode` looks for a free slot from `next_free_index` on and marks it busy,
`getBuzyNode` looks for a busy one from `next_busy_index` on and marks it free; both return the
position of the slot, which is what the C functions return through `pos` and as the address of the
slot's node.  The mutex calls are left out, and so are the null tests of the arguments, which a
value of type `NodeRecvManager` has already passed.

The two getters run the same loop, `scan`, over slots of the opposite status.  Its `fuel` is the
number of slots it may still look at; 256 of them take it round the array once, which is where
the `while (current != start)` of the source ends.

`Outstanding m q` is the invariant that carries everything said about the manager: the busy slots
are the window of the `q.length` positions from `next_busy_index` on, and `next_free_index` is
where that window ends.  With equal indices the manager is either empty or full, and it is the
length of `q` that tells which.
-/

set_option autoImplicit false

namespace DmmrOrbit

open Cyclic

/-! ## The functions of the source -/

/-- The `do … while` loop of the two getters: the first slot of the given status at or after
`current`, before the loop is back at `start`. -/
def scan (buffer : Fin 256 → NodeBuffer) (status : Bool) (start : Fin 256) :
    ℕ → Fin 256 → Option (Fin 256)
  | 0, _ => none
  | fuel + 1, current =>
    if (buffer current).nodeBufferStatus = status then some current
    else if current + 1 = start then none
    else scan buffer status start fuel (current + 1)

namespace NodeRecvManager

/-- The status bytes. -/
def busy (m : NodeRecvManager) (i : Fin 256) : Bool := (m.buffer i).nodeBufferStatus

def setStatus (m : NodeRecvManager) (pos : Fin 256) (status : Bool) : NodeRecvManager :=
  { m with buffer := Function.update m.buffer pos ⟨status, (m.buffer pos).node⟩ }

/-- Writing the node of a slot, as a receiver does between acquiring the slot and announcing
it. -/
def storeNode (m : NodeRecvManager) (pos : Fin 256) (n : Node) : NodeRecvManager :=
  { m with buffer := Function.update m.buffer pos ⟨(m.buffer pos).nodeBufferStatus, n⟩ }

end NodeRecvManager

/-- `get_free_node`. -/
def getFreeNode (input : NodeRecvManager) : Option (Fin 256) × NodeRecvManager :=
  match scan input.buffer false input.nextFreeIndex 256 input.nextFreeIndex with
  | some current =>
    (some current, { input.setStatus current true with nextFreeIndex := current + 1 })
  | none => (none, input)

/-- `get_buzy_node`. -/
def getBuzyNode (input : NodeRecvManager) : Option (Fin 256) × NodeRecvManager :=
  match scan input.buffer true input.nextBusyIndex 256 input.nextBusyIndex with
  | some current =>
    (some current, { input.setStatus current false with nextBusyIndex := current + 1 })
  | none => (none, input)

/-- `recicle_node`.  The test `pos && pos < 0x100` leaves slot 0 alone. -/
def recicleNode (input : NodeRecvManager) (pos : Fin 256) : NodeRecvManager :=
  if pos ≠ 0 then input.setStatus pos false else input

/-- `count_node`. -/
def countNode (input : NodeRecvManager) : ℕ :=
  (List.finRange 256).countP fun i ↦ (input.buffer i).nodeBufferStatus

/-- `init_node_recv_manager`.  The nodes in the slots keep their contents. -/
def initNodeRecvManager (input : NodeRecvManager) : NodeRecvManager where
  nextFreeIndex := 0
  nextBusyIndex := 0
  buffer i := { input.buffer i with nodeBufferStatus := false }

/-! ## The loop -/

section

variable {buffer : Fin 256 → NodeBuffer} {status : Bool}

/-- A slot of the wanted status is found at once. -/
theorem scan_start {start current : Fin 256} {fuel : ℕ}
    (h : (buffer current).nodeBufferStatus = status) :
    scan buffer status start (fuel + 1) current = some current := by
  rw [scan, if_pos h]

/-- When no slot has the wanted status the loop comes back with nothing. -/
theorem scan_eq_none (h : ∀ i, (buffer i).nodeBufferStatus ≠ status) (start : Fin 256)
    (fuel : ℕ) (current : Fin 256) : scan buffer status start fuel current = none := by
  induction fuel generalizing current with
  | zero => rfl
  | succ fuel ih =>
    rw [scan, if_neg (h current)]
    split
    · rfl
    · exact ih (current + 1)

/-- The loop searches the positions from `current` to the one before `start`, in cyclic order. -/
theorem scan_eq_find? {start : Fin 256} {k fuel : ℕ} (hk : k + fuel = 256) :
    scan buffer status start fuel (shift start k) =
      (window (shift start k) fuel).find? fun i ↦ (buffer i).nodeBufferStatus == status := by
  induction fuel generalizing k with
  | zero => rfl
  | succ fuel ih =>
    rw [scan, window_cons, List.find?_cons, ← shift_succ]
    by_cases hst : (buffer (shift start k)).nodeBufferStatus = status
    · rw [if_pos hst, beq_iff_eq.2 hst]
    · rw [if_neg hst, beq_false_of_ne hst]
      rcases Nat.eq_zero_or_pos fuel with rfl | hpos
      · have hend : shift start (k + 1) = start := by
          rw [show k + 1 = 0 + 256 by omega, shift_add_card, shift_zero]
        rw [if_pos hend]
        rfl
      · have hne : shift start (k + 1) ≠ start := fun heq ↦ by
          have := (shift_inj (j := k + 1) (k := 0) (by omega) (by omega)).1
            (heq.trans (shift_zero start).symm)
          omega
        rw [if_neg hne]
        exact ih (by omega)

/-- Taken from its start the loop goes round the array once. -/
theorem scan_full (start : Fin 256) : scan buffer status start 256 start =
    (window start 256).find? fun i ↦ (buffer i).nodeBufferStatus == status := by
  rw [← shift_zero start, ← scan_eq_find? (Nat.zero_add 256), shift_zero]

/-- What the loop stops at has the wanted status. -/
theorem status_of_scan {start i : Fin 256} (h : scan buffer status start 256 start = some i) :
    (buffer i).nodeBufferStatus = status := by
  rw [scan_full] at h
  simpa using List.find?_some h

end

/-! ## What the updates leave alone -/

namespace NodeRecvManager

variable (m : NodeRecvManager) (pos i : Fin 256)

@[simp] theorem setStatus_node (b : Bool) :
    ((m.setStatus pos b).buffer i).node = (m.buffer i).node := by
  by_cases h : i = pos
  · subst h; simp [setStatus]
  · simp [setStatus, h]

theorem setStatus_status (b : Bool) : ((m.setStatus pos b).buffer i).nodeBufferStatus =
    if i = pos then b else (m.buffer i).nodeBufferStatus := by
  by_cases h : i = pos
  · subst h; simp [setStatus]
  · simp [setStatus, h]

@[simp] theorem storeNode_status (n : Node) :
    ((m.storeNode pos n).buffer i).nodeBufferStatus = (m.buffer i).nodeBufferStatus := by
  by_cases h : i = pos
  · subst h; simp [storeNode]
  · simp [storeNode, h]

theorem storeNode_node (n : Node) : ((m.storeNode pos n).buffer i).node =
    if i = pos then n else (m.buffer i).node := by
  by_cases h : i = pos
  · subst h; simp [storeNode]
  · simp [storeNode, h]

end NodeRecvManager

@[simp] theorem getFreeNode_node (m : NodeRecvManager) (i : Fin 256) :
    ((getFreeNode m).2.buffer i).node = (m.buffer i).node := by
  rw [getFreeNode]
  split
  · exact m.setStatus_node _ i true
  · rfl

@[simp] theorem getBuzyNode_node (m : NodeRecvManager) (i : Fin 256) :
    ((getBuzyNode m).2.buffer i).node = (m.buffer i).node := by
  rw [getBuzyNode]
  split
  · exact m.setStatus_node _ i false
  · rfl

/-- `get_free_node` hands out a free slot, and only that slot changes its status. -/
theorem getFreeNode_some {m m' : NodeRecvManager} {pos : Fin 256}
    (h : getFreeNode m = (some pos, m')) : (m.buffer pos).nodeBufferStatus = false ∧
      ∀ i, (m'.buffer i).nodeBufferStatus =
        if i = pos then true else (m.buffer i).nodeBufferStatus := by
  cases hscan : scan m.buffer false m.nextFreeIndex 256 m.nextFreeIndex with
  | none => simp [getFreeNode, hscan] at h
  | some current =>
    rw [getFreeNode, hscan] at h
    obtain ⟨hpos, rfl⟩ := Prod.mk.inj h
    obtain rfl := Option.some.inj hpos
    exact ⟨status_of_scan hscan, fun i ↦ m.setStatus_status current i true⟩

/-- `get_buzy_node` hands out a busy slot, and only that slot changes its status. -/
theorem getBuzyNode_some {m m' : NodeRecvManager} {pos : Fin 256}
    (h : getBuzyNode m = (some pos, m')) : (m.buffer pos).nodeBufferStatus = true ∧
      ∀ i, (m'.buffer i).nodeBufferStatus =
        if i = pos then false else (m.buffer i).nodeBufferStatus := by
  cases hscan : scan m.buffer true m.nextBusyIndex 256 m.nextBusyIndex with
  | none => simp [getBuzyNode, hscan] at h
  | some current =>
    rw [getBuzyNode, hscan] at h
    obtain ⟨hpos, rfl⟩ := Prod.mk.inj h
    obtain rfl := Option.some.inj hpos
    exact ⟨status_of_scan hscan, fun i ↦ m.setStatus_status current i false⟩

/-- A refused acquire changes nothing. -/
theorem getFreeNode_none {m m' : NodeRecvManager} (h : getFreeNode m = (none, m')) : m' = m := by
  cases hscan : scan m.buffer false m.nextFreeIndex 256 m.nextFreeIndex with
  | none => rw [getFreeNode, hscan] at h; exact (Prod.mk.inj h).2.symm
  | some current => simp [getFreeNode, hscan] at h

/-- Nor does a refused release. -/
theorem getBuzyNode_none {m m' : NodeRecvManager} (h : getBuzyNode m = (none, m')) : m' = m := by
  cases hscan : scan m.buffer true m.nextBusyIndex 256 m.nextBusyIndex with
  | none => rw [getBuzyNode, hscan] at h; exact (Prod.mk.inj h).2.symm
  | some current => simp [getBuzyNode, hscan] at h

/-! ## The slots outstanding -/

/-- The slots handed out by `get_free_node` and not yet returned by `get_buzy_node` are `q`, oldest
first: they are the window from `next_busy_index` to `next_free_index`, and exactly they are
busy. -/
structure Outstanding (m : NodeRecvManager) (q : List (Fin 256)) : Prop where
  /-- The positions follow one another from `next_busy_index` on. -/
  eq_window : q = window m.nextBusyIndex q.length
  /-- They do not go round more than once. -/
  length_le : q.length ≤ 256
  /-- `next_free_index` is the position after the last of them. -/
  free : m.nextFreeIndex = shift m.nextBusyIndex q.length
  /-- The status byte is set on these slots and no others. -/
  status : ∀ i, (m.buffer i).nodeBufferStatus = true ↔ i ∈ q

namespace Outstanding

variable {m : NodeRecvManager} {q : List (Fin 256)}

theorem init (m : NodeRecvManager) : Outstanding (initNodeRecvManager m) [] :=
  ⟨rfl, Nat.zero_le _, rfl, by simp [initNodeRecvManager]⟩

theorem nodup (h : Outstanding m q) : q.Nodup := by
  rw [h.eq_window]; exact nodup_window h.length_le

/-- The slot `get_free_node` starts at is outstanding exactly when all of them are. -/
theorem free_mem_iff (h : Outstanding m q) : m.nextFreeIndex ∈ q ↔ 256 ≤ q.length := by
  have hw : m.nextFreeIndex ∈ window m.nextBusyIndex q.length ↔ 256 ≤ q.length := by
    rw [h.free]; exact shift_mem_window_iff
  rwa [← h.eq_window] at hw

/-- With all 256 slots outstanding every slot is busy. -/
theorem mem_of_full (h : Outstanding m q) (hfull : q.length = 256) (i : Fin 256) : i ∈ q := by
  rw [h.eq_window, hfull]; exact mem_window_full _ i

/-- With room left, `get_free_node` hands out the slot at `next_free_index`. -/
theorem getFreeNode_eq (h : Outstanding m q) (hlt : q.length < 256) :
    getFreeNode m = (some m.nextFreeIndex,
      { m.setStatus m.nextFreeIndex true with nextFreeIndex := m.nextFreeIndex + 1 }) := by
  have hnot : ¬ m.nextFreeIndex ∈ q := fun hmem ↦ absurd (h.free_mem_iff.1 hmem) (by omega)
  have hst : (m.buffer m.nextFreeIndex).nodeBufferStatus = false := by
    rw [← Bool.not_eq_true, h.status]; exact hnot
  rw [getFreeNode, scan_start hst]

/-- Full, it refuses. -/
theorem getFreeNode_full (h : Outstanding m q) (hfull : q.length = 256) :
    getFreeNode m = (none, m) := by
  have hst : ∀ i, (m.buffer i).nodeBufferStatus ≠ false := fun i ↦ by
    rw [(h.status i).2 (h.mem_of_full hfull i)]; simp
  rw [getFreeNode, scan_eq_none hst]

/-- Acquiring a slot appends it to the outstanding ones. -/
theorem acquire (h : Outstanding m q) (hlt : q.length < 256) :
    Outstanding (getFreeNode m).2 (q ++ [m.nextFreeIndex]) := by
  rw [h.getFreeNode_eq hlt]
  refine ⟨?_, ?_, ?_, fun i ↦ ?_⟩
  · show q ++ [m.nextFreeIndex] = window m.nextBusyIndex (q ++ [m.nextFreeIndex]).length
    rw [List.length_append, List.length_singleton, window_succ, ← h.eq_window, ← h.free]
  · rw [List.length_append, List.length_singleton]; omega
  · show m.nextFreeIndex + 1 = shift m.nextBusyIndex (q ++ [m.nextFreeIndex]).length
    rw [List.length_append, List.length_singleton, shift_succ, ← h.free]
  · show ((m.setStatus m.nextFreeIndex true).buffer i).nodeBufferStatus = true ↔ _
    rw [m.setStatus_status, List.mem_append, List.mem_singleton, ← h.status]
    by_cases hi : i = m.nextFreeIndex <;> simp [hi]

/-- The same as one equation: the call, the outstanding slots after it, and the nodes, which it
does not touch. -/
theorem getFreeNode_spec (h : Outstanding m q) (hlt : q.length < 256) :
    ∃ m', getFreeNode m = (some m.nextFreeIndex, m') ∧ Outstanding m' (q ++ [m.nextFreeIndex]) ∧
      ∀ i, (m'.buffer i).node = (m.buffer i).node := by
  have hm := h.acquire hlt
  have hnode := getFreeNode_node m
  rw [h.getFreeNode_eq hlt] at hm hnode
  exact ⟨_, h.getFreeNode_eq hlt, hm, hnode⟩

/-- `get_buzy_node` returns the oldest outstanding slot. -/
theorem getBuzyNode_eq {p : Fin 256} (h : Outstanding m (p :: q)) :
    getBuzyNode m = (some p, { m.setStatus p false with nextBusyIndex := p + 1 }) := by
  have hp : p = m.nextBusyIndex := by
    have := h.eq_window
    rw [List.length_cons, window_cons] at this
    exact (List.cons.inj this).1
  have hst : (m.buffer m.nextBusyIndex).nodeBufferStatus = true :=
    (h.status _).2 (hp ▸ List.mem_cons_self)
  rw [getBuzyNode, scan_start hst, hp]

/-- With nothing outstanding it refuses. -/
theorem getBuzyNode_nil (h : Outstanding m []) : getBuzyNode m = (none, m) := by
  have hst : ∀ i, (m.buffer i).nodeBufferStatus ≠ true := fun i hi ↦
    absurd ((h.status i).1 hi) (by simp)
  rw [getBuzyNode, scan_eq_none hst]

/-- Returning the oldest slot leaves the others outstanding. -/
theorem release {p : Fin 256} (h : Outstanding m (p :: q)) :
    Outstanding (getBuzyNode m).2 q := by
  have hnd := List.nodup_cons.1 h.nodup
  have hw := h.eq_window
  rw [List.length_cons, window_cons] at hw
  obtain ⟨hp, hq⟩ := List.cons.inj hw
  rw [h.getBuzyNode_eq]
  refine ⟨?_, ?_, ?_, fun i ↦ ?_⟩
  · show q = window (p + 1) q.length
    rw [hp]; exact hq
  · have := h.length_le
    rw [List.length_cons] at this
    omega
  · show m.nextFreeIndex = shift (p + 1) q.length
    rw [h.free, List.length_cons, shift_add_one, hp]
  · show ((m.setStatus p false).buffer i).nodeBufferStatus = true ↔ i ∈ q
    rw [m.setStatus_status]
    by_cases hi : i = p
    · subst hi; simpa using hnd.1
    · rw [if_neg hi, h.status, List.mem_cons]; simp [hi]

/-- The same as one equation. -/
theorem getBuzyNode_spec {p : Fin 256} (h : Outstanding m (p :: q)) :
    ∃ m', getBuzyNode m = (some p, m') ∧ Outstanding m' q ∧
      ∀ i, (m'.buffer i).node = (m.buffer i).node := by
  have hm := h.release
  have hnode := getBuzyNode_node m
  rw [h.getBuzyNode_eq] at hm hnode
  exact ⟨_, h.getBuzyNode_eq, hm, hnode⟩

/-- Filling a slot changes nothing about which slots are outstanding. -/
theorem fill (h : Outstanding m q) (pos : Fin 256) (n : Node) :
    Outstanding (m.storeNode pos n) q :=
  ⟨h.eq_window, h.length_le, h.free, fun i ↦ by rw [m.storeNode_status]; exact h.status i⟩

/-- `count_node` counts the outstanding slots. -/
theorem countNode_eq (h : Outstanding m q) : countNode m = q.length := by
  have hperm : ((List.finRange 256).filter fun i ↦ (m.buffer i).nodeBufferStatus).Perm q := by
    refine (List.perm_ext_iff_of_nodup ((List.nodup_finRange 256).filter _) h.nodup).2 fun i ↦ ?_
    rw [List.mem_filter, h.status]
    simp
  rw [countNode, List.countP_eq_length_filter, hperm.length_eq]

end Outstanding

end DmmrOrbit
