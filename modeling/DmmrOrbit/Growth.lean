import DmmrOrbit.Scheduler.Slots
import DmmrOrbit.Session.Concurrent
import DmmrOrbit.Socket.Pools
import DmmrOrbit.Socket.QueueEntries

/-!
# Growing an array

Six functions keep an array that doubles when it is full, each with its own copy of the same lines:
the size is doubled, and what `realloc` returns becomes the array, before it is looked at.
`GrowArray` is such an array with its variables, the pointer included, and `GrowArray.getEntry` the
function that five of them are: a scan for a free entry, and behind it the growth.  `session_worker`
has no scan.

What the other modules say about these functions is said for a `realloc` that returns memory;
`getEntry_pool`, `getStructNodeBuffer_entryPool`, `getSchedulerConnection_scheduler` and
`sessionWorker_grow` are where the two meet.

Here it is the null pointer that matters.  `failedGrowth_iff` says, for all six, that a request
which has to grow the array and is refused memory leaves things as they were exactly when there was
no array: otherwise the pointer to it is lost, and the size is that of the array that was not made.
-/

set_option autoImplicit false

namespace DmmrOrbit

/-! ## The array -/

/-- An array of the program with its variables, which have `w` bits.  `base` is the pointer; a null
pointer points to nothing. -/
structure GrowArray (w : ℕ) (α : Type) where
  base : Option ℕ
  entries : List α
  size : ℕ
  count : ℕ
  entries_null : base = none → entries = []
  size_lt : size < 2 ^ w

/-- What `realloc` returns: null, or an address and what the new memory holds. -/
abbrev Reallocated (α : Type) := Option (ℕ × (ℕ → α))

/-- How a request ends: with the index of an entry, with a null pointer, or it has read through a
null pointer or past the array. -/
inductive GrowthResult
  | entry (i : ℕ)
  | null
  | crash
  deriving DecidableEq, Repr

/-- The loop over the `left` entries from `k` on, of which `free` reads the mark; `none` is a mark
that cannot be read. -/
def scanMarks {α : Type} (free : α → Option Bool) : ℕ → ℕ → List α → EntryScan
  | 0, _, _ => .full
  | _ + 1, _, [] => .crash
  | left + 1, k, x :: xs =>
    match free x with
    | some true => .free k
    | some false => scanMarks free left (k + 1) xs
    | none => .crash

namespace GrowArray

variable {w : ℕ} {α : Type}

/-- The variables before any array is allocated. -/
def unallocated : GrowArray w α := ⟨none, [], 0, 0, fun _ ↦ rfl, Nat.two_pow_pos w⟩

/-- `size *= 2` and the assignment of what `realloc` returns. -/
def grow (a : GrowArray w α) : Reallocated α → GrowArray w α
  | some (base, fresh) =>
    { base := some base
      entries := (List.range (a.size * 2 % 2 ^ w)).map fun i ↦ a.entries.getD i (fresh i)
      size := a.size * 2 % 2 ^ w
      count := a.count
      entries_null := nofun
      size_lt := Nat.mod_lt _ (Nat.two_pow_pos w) }
  | none =>
    { base := none
      entries := []
      size := a.size * 2 % 2 ^ w
      count := a.count
      entries_null := fun _ ↦ rfl
      size_lt := Nat.mod_lt _ (Nat.two_pow_pos w) }

@[simp] theorem grow_size (a : GrowArray w α) (realloc : Reallocated α) :
    (a.grow realloc).size = a.size * 2 % 2 ^ w := by
  cases realloc <;> rfl

@[simp] theorem grow_count (a : GrowArray w α) (realloc : Reallocated α) :
    (a.grow realloc).count = a.count := by
  cases realloc <;> rfl

theorem grow_entries (a : GrowArray w α) (base : ℕ) (fresh : ℕ → α) :
    (a.grow (some (base, fresh))).entries =
      (List.range (a.size * 2 % 2 ^ w)).map fun i ↦ a.entries.getD i (fresh i) := rfl

/-- The function behind the allocators: scan `limit` entries for a free one, or take the next, for
which the array may have to grow. -/
def getEntry (limit : ℕ) (free : α → Option Bool) (a : GrowArray w α) (realloc : Reallocated α) :
    GrowthResult × GrowArray w α :=
  match scanMarks free limit 0 a.entries with
  | .crash => (.crash, a)
  | .free k => (.entry k, a)
  | .full =>
    if a.count ≥ a.size then
      let a := a.grow realloc
      if a.base = none then (.null, a)
      else (.entry a.count, { a with count := (a.count + 1) % 2 ^ w })
    else (.entry a.count, { a with count := (a.count + 1) % 2 ^ w })

/-- The function has found no free entry and no room for another. -/
def Exhausted (limit : ℕ) (free : α → Option Bool) (a : GrowArray w α) : Prop :=
  scanMarks free limit 0 a.entries = .full ∧ a.count ≥ a.size

end GrowArray

/-! ## The six functions -/

namespace GrowArray

variable {ι : Type}

/-- `get_node`. -/
def getNode (nodePool : GrowArray 32 Node) (realloc : Reallocated Node) :
    GrowthResult × GrowArray 32 Node :=
  nodePool.getEntry nodePool.size (fun p ↦ some (!p.inUse)) realloc

/-- `get_tcp_node`. -/
def getTcpNode (tcpPool : GrowArray 32 TcpNode) (realloc : Reallocated TcpNode) :
    GrowthResult × GrowArray 32 TcpNode :=
  tcpPool.getEntry tcpPool.size (fun p ↦ some (!TcpNode.inUse p)) realloc

/-- `get_union_protocol_base_cb`. -/
def getUnionProtocolBaseCb (cap : GrowArray 32 ProtocolBaseCb)
    (realloc : Reallocated ProtocolBaseCb) : GrowthResult × GrowArray 32 ProtocolBaseCb :=
  cap.getEntry cap.size (fun p ↦ some (!p.inUse)) realloc

/-- `get_struct_node_buffer`, which reads the mark through the pointer of the entry. -/
def getStructNodeBuffer (fd : NodeRef ι → ℤ) (nbuff : GrowArray 32 (Option (NodeRef ι)))
    (realloc : Reallocated (Option (NodeRef ι))) :
    GrowthResult × GrowArray 32 (Option (NodeRef ι)) :=
  nbuff.getEntry nbuff.size (fun p ↦ p.map fun n ↦ decide (fd n = 0)) realloc

/-- `get_scheduler_connection`, which scans the slots in use only. -/
def getSchedulerConnection (run : ι → Bool) (slots : GrowArray 64 (SchedulerSlot ι))
    (realloc : Reallocated (SchedulerSlot ι)) :
    GrowthResult × GrowArray 64 (SchedulerSlot ι) :=
  slots.getEntry slots.count (fun p ↦ some (p.free run)) realloc

/-- The growth of `session_worker`; `null` is the way to `return_fail`, and the entry is the one
that the next node goes to. -/
def sessionWorker (pool : GrowArray 32 Node) (realloc : Reallocated Node) :
    GrowthResult × GrowArray 32 Node :=
  if (pool.count + 1) % 2 ^ 32 > pool.size then
    let pool := pool.grow realloc
    if pool.base = none then (.null, pool) else (.entry pool.count, pool)
  else (.entry pool.count, pool)

end GrowArray

/-- The functions that grow an array. -/
inductive GrowthSite
  | getSchedulerConnection
  | getNode
  | getTcpNode
  | getUnionProtocolBaseCb
  | getStructNodeBuffer
  | sessionWorker
  deriving DecidableEq, Repr

namespace GrowthSite

/-- The bits of the variables: the scheduler's are of type `size_t`. -/
def width : GrowthSite → ℕ
  | getSchedulerConnection => 64
  | _ => 32

/-- What the array consists of. -/
def Elem (ι : Type) : GrowthSite → Type
  | getSchedulerConnection => SchedulerSlot ι
  | getNode => Node
  | getTcpNode => TcpNode
  | getUnionProtocolBaseCb => ProtocolBaseCb
  | getStructNodeBuffer => Option (NodeRef ι)
  | sessionWorker => Node

section

variable {ι : Type} (run : ι → Bool) (fd : NodeRef ι → ℤ)

/-- A call of the function. -/
def call : (s : GrowthSite) → GrowArray s.width (s.Elem ι) → Reallocated (s.Elem ι) →
    GrowthResult × GrowArray s.width (s.Elem ι)
  | getSchedulerConnection, a, realloc => GrowArray.getSchedulerConnection run a realloc
  | getNode, a, realloc => GrowArray.getNode a realloc
  | getTcpNode, a, realloc => GrowArray.getTcpNode a realloc
  | getUnionProtocolBaseCb, a, realloc => GrowArray.getUnionProtocolBaseCb a realloc
  | getStructNodeBuffer, a, realloc => GrowArray.getStructNodeBuffer fd a realloc
  | sessionWorker, a, realloc => GrowArray.sessionWorker a realloc

/-- The function decides to grow its array. -/
def Grows : (s : GrowthSite) → GrowArray s.width (s.Elem ι) → Prop
  | getSchedulerConnection, a => a.Exhausted a.count fun p ↦ some (p.free run)
  | getNode, a => a.Exhausted a.size fun p ↦ some (!Node.inUse p)
  | getTcpNode, a => a.Exhausted a.size fun p ↦ some (!TcpNode.inUse p)
  | getUnionProtocolBaseCb, a => a.Exhausted a.size fun p ↦ some (!ProtocolBaseCb.inUse p)
  | getStructNodeBuffer, a => a.Exhausted a.size fun p ↦ p.map fun n ↦ decide (fd n = 0)
  | sessionWorker, a => (a.count + 1) % 2 ^ 32 > a.size

end

end GrowthSite

/-! ## A growth without memory -/

namespace GrowArray

variable {w : ℕ} {α : Type}

/-- A size that stays the same when it is doubled is zero. -/
theorem double_eq_iff {size : ℕ} (h : size < 2 ^ w) : size * 2 % 2 ^ w = size ↔ size = 0 := by
  constructor
  · intro heq
    rcases Nat.lt_or_ge (size * 2) (2 ^ w) with hlt | hge
    · rw [Nat.mod_eq_of_lt hlt] at heq
      omega
    · rw [Nat.mod_eq_sub_mod hge, Nat.mod_eq_of_lt (by omega)] at heq
      omega
  · rintro rfl
    exact Nat.zero_mod _

/-- Refused memory, the array is as it was only if there was none. -/
theorem grow_none_eq_iff (a : GrowArray w α) : a.grow none = a ↔ a.base = none ∧ a.size = 0 := by
  obtain ⟨base, entries, size, count, hnull, hlt⟩ := a
  rw [grow]
  simp only [GrowArray.mk.injEq, double_eq_iff hlt, and_true]
  constructor
  · rintro ⟨hbase, -, hsize⟩
    exact ⟨hbase.symm, hsize⟩
  · rintro ⟨hbase, hsize⟩
    exact ⟨hbase.symm, (hnull hbase).symm, hsize⟩

/-- A request that has to grow the array and is refused memory. -/
theorem getEntry_none {limit : ℕ} {free : α → Option Bool} {a : GrowArray w α}
    (h : a.Exhausted limit free) : a.getEntry limit free none = (.null, a.grow none) := by
  rw [getEntry, h.1]
  dsimp only
  rw [if_pos h.2]
  exact if_pos rfl

/-- An entry is found if every mark that is looked at can be read, and there is memory when it takes
some. -/
theorem getEntry_entry_iff {limit : ℕ} {free : α → Option Bool} {a : GrowArray w α}
    {realloc : Reallocated α} : (∃ i, (a.getEntry limit free realloc).1 = .entry i) ↔
      scanMarks free limit 0 a.entries ≠ .crash ∧ (a.Exhausted limit free → realloc ≠ none) := by
  rw [getEntry, Exhausted]
  cases hscan : scanMarks free limit 0 a.entries with
  | crash => simp
  | free k => simp
  | full =>
    by_cases hfull : a.count ≥ a.size
    · cases realloc with
      | none => simp [hfull, grow]
      | some r => simp [hfull, grow]
    · simp [hfull]

theorem sessionWorker_none {pool : GrowArray 32 Node}
    (h : (pool.count + 1) % 2 ^ 32 > pool.size) :
    pool.sessionWorker none = (.null, pool.grow none) := by
  rw [sessionWorker, if_pos h]
  exact if_pos rfl

end GrowArray

section

variable {ι : Type} (run : ι → Bool) (fd : NodeRef ι → ℤ)

/-- What all six do without memory. -/
theorem GrowthSite.call_none (s : GrowthSite) {a : GrowArray s.width (s.Elem ι)}
    (h : s.Grows run fd a) : s.call run fd a none = (.null, a.grow none) := by
  cases s with
  | getSchedulerConnection => exact GrowArray.getEntry_none h
  | getNode => exact GrowArray.getEntry_none h
  | getTcpNode => exact GrowArray.getEntry_none h
  | getUnionProtocolBaseCb => exact GrowArray.getEntry_none h
  | getStructNodeBuffer => exact GrowArray.getEntry_none h
  | sessionWorker => exact GrowArray.sessionWorker_none h

/-- **A failed growth is atomic** exactly when there was no array: no pointer to it, and a size of
zero. -/
theorem failedGrowth_iff (s : GrowthSite) (a : GrowArray s.width (s.Elem ι))
    (h : s.Grows run fd a) :
    s.call run fd a none = (.null, a) ↔ a.base = none ∧ a.size = 0 := by
  rw [s.call_none run fd h, ← a.grow_none_eq_iff, Prod.mk.injEq]
  exact and_iff_right rfl

end

/-- `get_union_protocol_base_cb` before `new_dmmr_socket` has allocated the array. -/
theorem failedGrowth_unallocated :
    GrowthSite.getUnionProtocolBaseCb.Grows (ι := Unit) (fun _ ↦ true) (fun _ ↦ 0) .unallocated ∧
      (GrowthSite.getUnionProtocolBaseCb.call (ι := Unit) (fun _ ↦ true) (fun _ ↦ 0) .unallocated
        none = (.null, .unallocated) ↔
      (GrowArray.unallocated (w := 32) (α := ProtocolBaseCb)).base = none ∧
        (GrowArray.unallocated (w := 32) (α := ProtocolBaseCb)).size = 0) := by
  have hgrows : GrowthSite.getUnionProtocolBaseCb.Grows (ι := Unit) (fun _ ↦ true) (fun _ ↦ 0)
      .unallocated := ⟨rfl, Nat.le_refl _⟩
  exact ⟨hgrows, failedGrowth_iff (fun _ ↦ true) (fun _ ↦ 0) .getUnionProtocolBaseCb .unallocated
    hgrows⟩

/-! ## A full table -/

/-- A scan that finds no free entry in an array long enough. -/
theorem scanMarks_full {α : Type} {free : α → Option Bool} {xs : List α}
    (h : ∀ x ∈ xs, free x = some false) {left k : ℕ} (hlen : left ≤ xs.length) :
    scanMarks free left k xs = .full := by
  induction xs generalizing left k with
  | nil => rw [Nat.le_zero.1 hlen]; rfl
  | cons x xs ih =>
    cases left with
    | zero => rfl
    | succ left =>
      rw [List.forall_mem_cons] at h
      rw [scanMarks, h.1]
      exact ih h.2 (Nat.le_of_succ_le_succ hlen)

/-- The scheduler's table with all its 0x400 slots in use by one live session. -/
def fullSlots : GrowArray 64 (SchedulerSlot Unit) where
  base := some 0x1000
  entries := List.replicate 0x400 { (SchedulerSlot.zero : SchedulerSlot Unit) with
    sessionPtr := some () }
  size := 0x400
  count := 0x400
  entries_null := nofun
  size_lt := by decide

/-- One insert more than the table has slots, and no memory: the pointer to the table is lost. -/
theorem failedGrowth_loses_slots : ¬ ∀ (run : Unit → Bool) (fd : NodeRef Unit → ℤ) (s : GrowthSite)
    (a : GrowArray s.width (s.Elem Unit)), s.Grows run fd a →
      s.call run fd a none = (.null, a) := by
  intro h
  have hgrows : GrowthSite.getSchedulerConnection.Grows (fun _ ↦ true) (fun _ ↦ 0) fullSlots := by
    refine ⟨scanMarks_full (fun x hx ↦ ?_) List.length_replicate.ge, Nat.le_refl _⟩
    rw [List.eq_of_mem_replicate hx]
    rfl
  have hcall := h (fun _ ↦ true) (fun _ ↦ 0) .getSchedulerConnection fullSlots hgrows
  rw [GrowthSite.call_none _ _ _ hgrows] at hcall
  have hbase : none = some 0x1000 := congrArg (fun r ↦ r.2.base) hcall
  exact absurd hbase (by simp)

/-! ## With memory -/

/-- What a scan finds, as an index of the list. -/
theorem scanMarks_eq_findIdx? {α : Type} (p : α → Bool) (xs : List α) {left : ℕ} (k : ℕ)
    (hlen : left ≤ xs.length) :
    scanMarks (fun x ↦ some (p x)) left k xs = match (xs.take left).findIdx? p with
      | some i => .free (k + i)
      | none => .full := by
  induction xs generalizing left k with
  | nil => rw [Nat.le_zero.1 hlen]; rfl
  | cons x xs ih =>
    cases left with
    | zero => rfl
    | succ left =>
      rw [scanMarks, List.take_succ_cons, List.findIdx?_cons]
      cases hp : p x with
      | true => rfl
      | false =>
        dsimp only
        rw [ih (k + 1) (Nat.le_of_succ_le_succ hlen)]
        cases (xs.take left).findIdx? p with
        | none => rfl
        | some i => exact congrArg EntryScan.free (Nat.succ_add_eq_add_succ k i)

namespace GrowArray

/-- The array without its pointer. -/
def toPool {α : Type} (a : GrowArray 32 α) : Pool α := ⟨a.entries, a.size, a.count⟩

theorem getEntry_of_free {w : ℕ} {α : Type} {limit k : ℕ} {free : α → Option Bool}
    {a : GrowArray w α} (h : scanMarks free limit 0 a.entries = .free k) (realloc : Reallocated α) :
    a.getEntry limit free realloc = (.entry k, a) := by
  rw [getEntry, h]

theorem getEntry_of_full {w : ℕ} {α : Type} {limit : ℕ} {free : α → Option Bool}
    {a : GrowArray w α} (h : scanMarks free limit 0 a.entries = .full) (base : ℕ) (fresh : ℕ → α) :
    a.getEntry limit free (some (base, fresh)) = (.entry a.count,
      if a.count ≥ a.size then { a.grow (some (base, fresh)) with count := (a.count + 1) % 2 ^ w }
      else { a with count := (a.count + 1) % 2 ^ w }) := by
  rw [getEntry, h]
  dsimp only
  split
  · exact if_neg nofun
  · rfl

/-- With memory, the allocators are those of the pools. -/
theorem getEntry_pool {α : Type} (inUse : α → Bool) (a : GrowArray 32 α)
    (hlen : a.entries.length = a.size) (base : ℕ) (fresh : ℕ → α) :
    let r := a.getEntry a.size (fun x ↦ some (!inUse x)) (some (base, fresh))
    let q := poolGet inUse a.toPool ⟨fresh, true⟩
    r.1 = q.1.elim .null .entry ∧ r.2.toPool = q.2 := by
  intro r q
  have hscan := scanMarks_eq_findIdx? (fun x ↦ !inUse x) a.entries 0 hlen.ge
  rw [← hlen, List.take_length, hlen] at hscan
  cases hfind : a.entries.findIdx? (fun x ↦ !inUse x) with
  | some i =>
    rw [hfind] at hscan
    have hr : r = (.entry (0 + i), a) := getEntry_of_free hscan _
    have hq : q = (some i, a.toPool) := by
      show poolGet inUse a.toPool ⟨fresh, true⟩ = _
      rw [poolGet, show a.toPool.entries.findIdx? (fun x ↦ !inUse x) = some i from hfind]
    rw [hr, hq, Nat.zero_add]
    exact ⟨rfl, rfl⟩
  | none =>
    rw [hfind] at hscan
    have hr := getEntry_of_full hscan base fresh
    have hgrow : poolGrow a.toPool ⟨fresh, true⟩ = some (if a.count ≥ a.size then
        (a.grow (some (base, fresh))).toPool else a.toPool) := by
      rw [poolGrow]
      show (if a.count ≥ a.size then if a.size * 2 % 2 ^ 32 = 0 then some ⟨[], 0, a.count⟩
        else some ⟨_, _, a.count⟩ else some a.toPool) = _
      split
      · split
        · next hzero =>
          simp only [toPool, grow, hzero]
          rfl
        · rfl
      · rfl
    show (a.getEntry a.size (fun x ↦ some (!inUse x)) (some (base, fresh))).1 =
        (poolGet inUse a.toPool ⟨fresh, true⟩).1.elim .null .entry ∧
      (a.getEntry a.size (fun x ↦ some (!inUse x)) (some (base, fresh))).2.toPool =
        (poolGet inUse a.toPool ⟨fresh, true⟩).2
    rw [hr, poolGet, show a.toPool.entries.findIdx? (fun x ↦ !inUse x) = none from hfind, hgrow]
    split <;> exact ⟨rfl, rfl⟩

variable {ι : Type}

/-- The array of the fifo's entries without its pointer. -/
def toEntryPool (a : GrowArray 32 (Option (NodeRef ι))) : EntryPool ι :=
  ⟨a.entries, a.size, a.count⟩

theorem scanEntries_eq_scanMarks (fd : NodeRef ι → ℤ) (nbuff : List (Option (NodeRef ι)))
    (left k : ℕ) : scanEntries fd nbuff left k =
      scanMarks (fun p ↦ p.map fun n ↦ decide (fd n = 0)) left k (nbuff.drop k) := by
  induction left generalizing k with
  | zero => rfl
  | succ left ih =>
    rw [scanEntries]
    rcases Nat.lt_or_ge k nbuff.length with hlt | hge
    · rw [List.getElem?_eq_getElem hlt, List.drop_eq_getElem_cons hlt, scanMarks]
      cases nbuff[k] with
      | none => rfl
      | some n => by_cases hfd : fd n = 0 <;> simp [hfd, ih]
    · rw [List.getElem?_eq_none hge, List.drop_of_length_le hge]
      rfl

/-- `get_struct_node_buffer` is that of the fifo's entries. -/
theorem getStructNodeBuffer_entryPool (fd : NodeRef ι → ℤ) (a : GrowArray 32 (Option (NodeRef ι)))
    (realloc : Reallocated (Option (NodeRef ι))) :
    DmmrOrbit.getStructNodeBuffer fd (realloc.map Prod.snd) a.toEntryPool =
      match (a.getStructNodeBuffer fd realloc).1 with
      | .entry k => .entry k (a.getStructNodeBuffer fd realloc).2.toEntryPool
      | .null => .null (a.getStructNodeBuffer fd realloc).2.toEntryPool
      | .crash => .crash := by
  have hscan := scanEntries_eq_scanMarks fd a.entries a.size 0
  rw [List.drop_zero] at hscan
  rw [DmmrOrbit.getStructNodeBuffer, getStructNodeBuffer, getEntry]
  show (match scanEntries fd a.entries a.size 0 with
    | .crash => _
    | .free k => _
    | .full => _) = _
  rw [hscan]
  cases scanMarks (fun p ↦ p.map fun n ↦ decide (fd n = 0)) a.size 0 a.entries with
  | crash => rfl
  | free k => rfl
  | full =>
    by_cases hfull : a.count ≥ a.size
    · simp only [if_pos hfull, if_pos (show a.toEntryPool.count ≥ a.toEntryPool.size from hfull)]
      cases realloc with
      | none => rfl
      | some r => rfl
    · simp only [if_neg hfull, if_neg (show ¬ a.toEntryPool.count ≥ a.toEntryPool.size from hfull)]
      rfl

/-- The growth of `session_worker` is that of the sessions. -/
theorem sessionWorker_grow (conn : SessionConnectionPool Node) (a : GrowArray 32 Node)
    (hpool : a.entries = conn.pool) (hsize : a.size = conn.poolSize)
    (hcount : a.count = conn.poolCount) (realloc : Reallocated Node) :
    let b := (a.sessionWorker realloc).2
    let grown := if conn.mustGrow then conn.grow (realloc.map Prod.snd) else conn
    b.entries = grown.pool ∧ b.size = grown.poolSize ∧ b.count = grown.poolCount := by
  intro b grown
  have hb : b = if (a.count + 1) % 2 ^ 32 > a.size then a.grow realloc else a := by
    show (a.sessionWorker realloc).2 = _
    rw [sessionWorker]
    split
    · dsimp only
      split <;> rfl
    · rfl
  have hgrown : grown = if (a.count + 1) % 2 ^ 32 > a.size then conn.grow (realloc.map Prod.snd)
      else conn := by
    rw [hcount, hsize]
    rfl
  rw [hb, hgrown]
  split
  · cases realloc with
    | none => exact ⟨rfl, by rw [grow_size, hsize]; rfl, hcount⟩
    | some r =>
      refine ⟨?_, by rw [grow_size, hsize]; rfl, hcount⟩
      rw [grow_entries, hsize, hpool]
      rfl
  · exact ⟨hpool, hsize, hcount⟩

/-- With memory, `get_scheduler_connection` is that of the scheduler's table. -/
theorem getSchedulerConnection_scheduler (s : Scheduler ι) (a : GrowArray 64 (SchedulerSlot ι))
    (hbase : a.base = some s.base) (hslots : a.entries = s.slots)
    (hsize : a.size = s.slots.length) (hcount : a.count = s.count) (hle : s.count ≤ s.slots.length)
    (hlt : s.slots.length * 2 < 2 ^ 64) (base : ℕ) (fresh : ℕ → SchedulerSlot ι) :
    let r := a.getSchedulerConnection s.run (some (base, fun i ↦ fresh (i - s.slots.length)))
    let q := s.getSchedulerConnection base fresh
    ∃ i, r.1 = .entry i ∧ q.1 = q.2.base + i ∧ r.2.base = some q.2.base ∧
      r.2.entries = q.2.slots ∧ r.2.count = q.2.count := by
  intro r q
  have hcount_le : a.count ≤ a.entries.length := by rw [hslots, hcount]; exact hle
  have hscan := scanMarks_eq_findIdx? (fun c ↦ c.free s.run) a.entries 0 hcount_le
  have hlive : a.entries.take a.count = s.live := by rw [hslots, hcount]; rfl
  rw [hlive] at hscan
  have hq : q = match s.live.findIdx? (fun c ↦ c.free s.run) with
    | some i => (s.base + i, s)
    | none => ((s.grown base fresh).base + s.count,
        { s.grown base fresh with count := s.count + 1 }) := rfl
  cases hfind : s.live.findIdx? (fun c ↦ c.free s.run) with
  | some i =>
    rw [hfind] at hscan hq
    have hr : r = (.entry (0 + i), a) := getEntry_of_free hscan _
    rw [hr, hq, Nat.zero_add]
    exact ⟨i, rfl, rfl, hbase, hslots, hcount⟩
  | none =>
    rw [hfind] at hscan hq
    have hr : r = (.entry a.count, if a.count ≥ a.size then _ else _) :=
      getEntry_of_full hscan base fun i ↦ fresh (i - s.slots.length)
    have hentries : (a.grow (some (base, fun i ↦ fresh (i - s.slots.length)))).entries =
        s.slots ++ (List.range s.slots.length).map fresh := by
      rw [grow_entries, hsize, Nat.mod_eq_of_lt hlt, hslots]
      refine List.ext_getElem (by simp; omega) fun i hi hi' ↦ ?_
      rw [List.getElem_map, List.getElem_range]
      rcases Nat.lt_or_ge i s.slots.length with hold | hnew
      · rw [List.getElem_append_left hold, List.getD_eq_getElem _ _ hold]
      · rw [List.getElem_append_right hnew, List.getD_eq_default _ _ hnew]
        simp
    have hwrap : (a.count + 1) % 2 ^ 64 = s.count + 1 := by rw [hcount]; omega
    rw [hr, hq]
    refine ⟨s.count, congrArg GrowthResult.entry hcount, rfl, ?_⟩
    by_cases hfull : s.count ≥ s.slots.length
    · have hgrown : s.grown base fresh = _ := if_pos hfull
      rw [if_pos (by rw [hsize, hcount]; exact hfull), hgrown]
      exact ⟨rfl, hentries, hwrap⟩
    · have hgrown : s.grown base fresh = _ := if_neg hfull
      rw [if_neg (by rw [hsize, hcount]; exact hfull), hgrown]
      exact ⟨hbase, hslots, hwrap⟩

end GrowArray

end DmmrOrbit
