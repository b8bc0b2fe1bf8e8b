import Mathlib.Data.List.Perm.Basic
import DmmrOrbit.Structs

/-!
# The pool of a session

The functions of `session_connection.c` and `dmmr_scheduler.c` that work on the nodes a session has
collected: `process_session_node` appends the node at the session's cursor when it belongs to the
session, and once the nodes add up to `VALUE_OUTPUT_BUFFER_SIZE` it passes a prefix of them to
`snd_cb` and moves the others to the front; `sched_trigger_snd` passes all of them on and clears the
pool.

The cells of the pool are of any type with a node in it, so that a caller may label them.  What the
two functions give to the dispatcher is part of their result; what the socket makes of it is
`dispatcher`'s business.  `snd_cb` is taken to be set, as it is when the session manager is created,
and the mutex calls are left out.

The counters wrap as their C types do: the total of `get_session_size` at `2 ^ 16`, that of the
count loop and `pool_count` itself at `2 ^ 32`.
-/

set_option autoImplicit false

namespace DmmrOrbit

/-! ## Comparing nodes -/

/-- `__vcmp` over the common length. -/
def vcmp : List UInt8 → List UInt8 → Int
  | a :: as, b :: bs => if a = b then vcmp as bs else a.toNat - b.toNat
  | _, _ => 0

/-- The value of the enumerator; `AF_INET` is 2 and `AF_INET6` is 10. -/
def EzpAddrType.value : EzpAddrType → ℕ
  | dns => 0
  | ipv4 => 2
  | ipv6 => 10
  | invalid => 0xFFFF

/-- `node_cmp`.  The addresses are those of `struct sockaddr_in` and `struct sockaddr_in6`, at the
offsets 4 and 8. -/
def nodeCmp : Option Node → Option Node → Int
  | none, none => 0
  | some _, none => 1
  | none, some _ => -1
  | some a, some b =>
    if a.fd ≠ b.fd then if a.fd > b.fd then 1 else -1
    else if a.port ≠ b.port then if a.port > b.port then 1 else -1
    else if a.family ≠ b.family then if a.family.value > b.family.value then 1 else -1
    else
      match a.family with
      | .ipv4 => vcmp ((a.ipv4.drop 4).take 4) ((b.ipv4.drop 4).take 4)
      | .ipv6 => vcmp ((a.ipv6.drop 8).take 16) ((b.ipv6.drop 8).take 16)
      | _ => 0

theorem vcmp_eq_zero_iff {a b : List UInt8} (h : a.length = b.length) : vcmp a b = 0 ↔ a = b := by
  induction a generalizing b with
  | nil => rw [List.length_eq_zero_iff.1 h.symm]; simp [vcmp]
  | cons x xs ih =>
    cases b with
    | nil => exact absurd h (by simp)
    | cons y ys =>
      rw [vcmp, List.cons.injEq]
      split
      · next hxy => rw [ih (Nat.succ.inj h)]; simp [hxy]
      · next hxy =>
        have hne : x.toNat ≠ y.toNat := fun heq ↦ hxy (UInt8.toNat_inj.1 heq)
        simp only [hxy, false_and, iff_false]
        omega

/-- The part of the address that `node_cmp` looks at. -/
def Node.comparedAddr (n : Node) : List UInt8 :=
  match n.family with
  | .ipv4 => (n.ipv4.drop 4).take 4
  | .ipv6 => (n.ipv6.drop 8).take 16
  | _ => []

theorem nodeCmp_fd {a b : Node} (h : nodeCmp (some a) (some b) = 0) : a.fd = b.fd := by
  by_contra hfd
  rw [nodeCmp, if_pos hfd] at h
  split at h <;> exact absurd h (by decide)

theorem nodeCmp_port {a b : Node} (h : nodeCmp (some a) (some b) = 0) : a.port = b.port := by
  by_contra hport
  rw [nodeCmp, if_neg (not_not.2 (nodeCmp_fd h)), if_pos hport] at h
  split at h <;> exact absurd h (by decide)

theorem nodeCmp_family {a b : Node} (h : nodeCmp (some a) (some b) = 0) :
    a.family = b.family := by
  by_contra hfamily
  have hfd := nodeCmp_fd h
  have hport := nodeCmp_port h
  rw [nodeCmp, if_neg (not_not.2 hfd), if_neg (not_not.2 hport), if_pos hfamily] at h
  split at h <;> exact absurd h (by decide)

/-- `node_cmp` finds no difference exactly between nodes that agree in the four things it looks
at. -/
theorem nodeCmp_eq_zero_iff {a b : Node}
    (h : a.family = b.family → a.comparedAddr.length = b.comparedAddr.length) :
    nodeCmp (some a) (some b) = 0 ↔
      a.fd = b.fd ∧ a.port = b.port ∧ a.family = b.family ∧ a.comparedAddr = b.comparedAddr := by
  have haddr : a.fd = b.fd → a.port = b.port → a.family = b.family →
      nodeCmp (some a) (some b) = vcmp a.comparedAddr b.comparedAddr := by
    intro hfd hport hfamily
    rw [nodeCmp, if_neg (not_not.2 hfd), if_neg (not_not.2 hport), if_neg (not_not.2 hfamily),
      Node.comparedAddr, Node.comparedAddr, ← hfamily]
    cases a.family <;> rfl
  constructor
  · intro hz
    have hfd := nodeCmp_fd hz
    have hport := nodeCmp_port hz
    have hfamily := nodeCmp_family hz
    rw [haddr hfd hport hfamily, vcmp_eq_zero_iff (h hfamily)] at hz
    exact ⟨hfd, hport, hfamily, hz⟩
  · rintro ⟨hfd, hport, hfamily, heq⟩
    rw [haddr hfd hport hfamily, vcmp_eq_zero_iff (h hfamily)]
    exact heq

/-! ## The session's records -/

/-- `get_session_node`. -/
def getSessionNode (u : ProtocolBaseCb) : Option ℕ :=
  match u.proto with
  | .udp => u.node
  | .tcp => u.node
  | .none => none

/-- `get_session_pointer`. -/
def getSessionPointer (u : ProtocolBaseCb) : Option CbPtr :=
  match u.proto with
  | .none => none
  | .tcp => u.linked
  | .udp => u.linked

/-- `update_session_counter`.  It adds up the sizes of the `node_count` nodes from `node` on, and
makes the sum the new count. -/
def updateSessionCounter (nodePool : ℕ → Node) (u : ProtocolBaseCb) : ProtocolBaseCb :=
  let sizes := match u.node with
    | some base => (List.range u.nodeCount.toNat).map fun i ↦ (nodePool (base + i)).valueSize
    | none => []
  match u.proto with
  | .udp => { u with nodeCount := sizes.sum }
  | .tcp => { u with nodeCount := sizes.sum }
  | .none => u

/-! ## The functions on the pool -/

section

variable {α : Type}

/-- The cells in use. -/
def SessionConnectionPool.live (conn : SessionConnectionPool α) : List α :=
  conn.pool.take conn.poolCount

/-- The inner loop of the sort, from the end of the sorted part, which is given in reverse: cells
that arrived later than the key move up by one. -/
def shiftLater (arrival : α → UInt64) (key : α) : List α → List α
  | [] => [key]
  | x :: xs => if arrival x > arrival key then x :: shiftLater arrival key xs else key :: x :: xs

/-- `sort_pool_by_arrival_inline`. -/
def sortPoolByArrivalInline (arrival : α → UInt64) (v : List α) : List α :=
  (v.foldl (fun sorted key ↦ shiftLater arrival key sorted) []).reverse

/-- The loop of `get_session_size`, with its `uint16_t` total. -/
def sessionSizeFrom (max : ℕ) : ℕ → List Node → ℕ
  | total, [] => total
  | total, n :: ns =>
    let total := (total + n.valueSize.toNat) % 2 ^ 16
    if total ≥ max then total else sessionSizeFrom max total ns

/-- `get_session_size`, on the nodes in use. -/
def getSessionSize (n : List Node) (max : ℕ) : ℕ := sessionSizeFrom max 0 n

/-- The count loop of `process_session_node`, with its `unsigned` sum. -/
def flushCountFrom (bound : ℕ) : ℕ → List Node → ℕ
  | _, [] => 0
  | siz, n :: ns =>
    let siz := (siz + n.valueSize.toNat) % 2 ^ 32
    if siz ≤ bound then flushCountFrom bound siz ns + 1 else 1

/-- The nodes a flush takes: the shortest prefix that exceeds the bound, or all of them. -/
def flushCount (bound : ℕ) (n : List Node) : ℕ := flushCountFrom bound 0 n

namespace SessionConnectionPool

/-- `*(conn->pool + conn->pool_count) = conn->cursor->n` and `conn->pool_count++`. -/
def append (conn : SessionConnectionPool α) (a : α) : SessionConnectionPool α :=
  { conn with pool := conn.pool.set conn.poolCount a, poolCount := (conn.poolCount + 1) % 2 ^ 32 }

/-- The size test and the count loop: the number of nodes to pass on, if it is time to. -/
def flushBatch (mtu : MtuProfile) (toNode : α → Node) (conn : SessionConnectionPool α) :
    Option ℕ :=
  let n := conn.live.map toNode
  if getSessionSize n mtu.valueOutputBufferSize ≥ mtu.valueOutputBufferSize ∧ conn.poolSize > 0 then
    some (flushCount mtu.valueOutputBufferSize n)
  else none

/-- The locked block: the cells behind the first `count` move to the front and are sorted. -/
def compact (toNode : α → Node) (nodePool : ℕ → Node) (conn : SessionConnectionPool α)
    (count : ℕ) : SessionConnectionPool α :=
  let rest := (conn.poolCount + (2 ^ 32 - count % 2 ^ 32)) % 2 ^ 32
  let pool := overlay ((conn.pool.drop count).take rest) conn.pool
  { conn with
    pool := overlay (sortPoolByArrivalInline (fun a ↦ (toNode a).arrival) (pool.take rest)) pool
    poolCount := rest
    session := updateSessionCounter nodePool conn.session }

/-- What follows the call of `snd_cb`. -/
def afterFlush (toNode : α → Node) (nodePool : ℕ → Node) (conn : SessionConnectionPool α)
    (count : ℕ) : SessionConnectionPool α :=
  if count ≤ conn.poolCount then conn.compact toNode nodePool count
  else { conn with poolCount := 0 }

/-- `node_cmp` of a node and the session's own finds no difference. -/
def Accepts (nodePool : ℕ → Node) (conn : SessionConnectionPool α) (n : Node) : Prop :=
  nodeCmp (some n) ((getSessionNode conn.session).map nodePool) = 0

instance (nodePool : ℕ → Node) (conn : SessionConnectionPool α) (n : Node) :
    Decidable (conn.Accepts nodePool n) :=
  inferInstanceAs (Decidable (_ = _))

end SessionConnectionPool

/-- `process_session_node`, with the node at the session's cursor as an argument.  The second
component is what was passed to `snd_cb`. -/
def processSessionNode (mtu : MtuProfile) (toNode : α → Node) (nodePool : ℕ → Node)
    (conn : SessionConnectionPool α) (a : α) : SessionConnectionPool α × List α :=
  if conn.Accepts nodePool (toNode a) then
    let conn := conn.append a
    match conn.flushBatch mtu toNode with
    | none => (conn, [])
    | some count => (conn.afterFlush toNode nodePool count, conn.pool.take count)
  else (conn, [])

/-- `sched_trigger_snd`.  The last component is what was passed to the dispatcher. -/
def schedTriggerSnd (zero : α) (sc : SchedulerConnection) (conn : SessionConnectionPool α) :
    SchedulerConnection × SessionConnectionPool α × List α :=
  match getSessionPointer conn.session with
  | none => (sc, conn, [])
  | some _ =>
    (⟨0, 0, 0⟩, { conn with pool := conn.pool.map fun _ ↦ zero, poolCount := 0 }, conn.live)

/-- `sched_snd`, with the array of nodes that `n` points at: what the slot stores, the counters, the
array after the move, and what was passed to the dispatcher.  The slot's times are those of the node
that comes to stand first. -/
def schedSnd (toNode : α → Node) (sc : SchedulerConnection) (conn : SessionConnectionPool α)
    (n : List α) : SchedulerConnection × SessionConnectionPool α × List α × List α :=
  match getSessionPointer conn.session with
  | none => (sc, conn, n, [])
  | some _ =>
    let siz := if conn.poolSize < MtuProfile.valueOutputSize then conn.poolSize
      else MtuProfile.valueOutputSize
    let moved := overlay ((n.drop siz).take (conn.poolSize - siz)) n
    (match moved with
      | [] => sc
      | a :: _ => ⟨(toNode a).arrival, (toNode a).deadline, (toNode a).deadline⟩,
      { conn with
        poolCount := (conn.poolCount + (2 ^ 32 - siz)) % 2 ^ 32
        poolSize := conn.poolSize - siz },
      moved, n.take siz)

/-- `sched_snd` with `n = pool->pool`. -/
def schedSndPool (toNode : α → Node) (sc : SchedulerConnection) (conn : SessionConnectionPool α) :
    SchedulerConnection × SessionConnectionPool α × List α :=
  let out := schedSnd toNode sc conn conn.pool
  (out.1, { out.2.1 with pool := out.2.2.1 }, out.2.2.2)

/-! ## Sorting -/

theorem shiftLater_perm (arrival : α → UInt64) (key : α) (v : List α) :
    (shiftLater arrival key v).Perm (key :: v) := by
  induction v with
  | nil => exact .refl _
  | cons x xs ih =>
    rw [shiftLater]
    split
    · exact (ih.cons x).trans (.swap key x xs)
    · exact .refl _

/-- Sorting loses nothing and adds nothing. -/
theorem sortPoolByArrivalInline_perm (arrival : α → UInt64) (v : List α) :
    (sortPoolByArrivalInline arrival v).Perm v := by
  have hfold : ∀ (v sorted : List α),
      (v.foldl (fun sorted key ↦ shiftLater arrival key sorted) sorted).Perm (sorted ++ v) := by
    intro v
    induction v with
    | nil => intro sorted; rw [List.append_nil]; exact .refl _
    | cons x xs ih =>
      intro sorted
      refine (ih _).trans ?_
      refine ((shiftLater_perm arrival x sorted).append_right xs).trans ?_
      exact List.perm_middle.symm
  exact (List.reverse_perm _).trans (by simpa using hfold v [])

/-! ## Counting -/

theorem flushCountFrom_le (bound : ℕ) (n : List Node) (siz : ℕ) :
    flushCountFrom bound siz n ≤ n.length := by
  induction n generalizing siz with
  | nil => exact Nat.le_refl 0
  | cons n ns ih =>
    rw [flushCountFrom, List.length_cons]
    split
    · exact Nat.succ_le_succ (ih _)
    · omega

theorem flushCount_le (bound : ℕ) (n : List Node) : flushCount bound n ≤ n.length :=
  flushCountFrom_le bound n 0

theorem flushCount_pos (bound : ℕ) {n : List Node} (hn : n ≠ []) : 0 < flushCount bound n := by
  cases n with
  | nil => exact absurd rfl hn
  | cons n ns => rw [flushCount, flushCountFrom]; split <;> omega

/-! ## What the operations do to the live cells -/

/-- The fields fit together: the array has `pool_size` cells, at most `pool_count` of them in
use. -/
structure SessionConnectionPool.Wf (conn : SessionConnectionPool α) : Prop where
  size : conn.pool.length = conn.poolSize
  lt : conn.poolSize < 2 ^ 32
  count : conn.poolCount ≤ conn.poolSize

namespace SessionConnectionPool.Wf

variable {conn : SessionConnectionPool α}

theorem length_live (h : conn.Wf) : conn.live.length = conn.poolCount := by
  rw [live, List.length_take, h.size]
  exact Nat.min_eq_left h.count

theorem poolCount_append (h : conn.Wf) (hroom : conn.poolCount < conn.poolSize) (a : α) :
    (conn.append a).poolCount = conn.poolCount + 1 :=
  Nat.mod_eq_of_lt (by have := h.lt; omega)

/-- With room for it, a cell is appended to the live ones. -/
theorem live_append (h : conn.Wf) (hroom : conn.poolCount < conn.poolSize) (a : α) :
    (conn.append a).live = conn.live ++ [a] := by
  have hlt : conn.poolCount < conn.pool.length := by rw [h.size]; exact hroom
  rw [live, h.poolCount_append hroom, live, append]
  rw [List.take_add_one, List.take_set_of_le (Nat.le_refl _)]
  simp [hlt]

theorem append (h : conn.Wf) (hroom : conn.poolCount < conn.poolSize) (a : α) :
    (conn.append a).Wf :=
  ⟨by rw [SessionConnectionPool.append, List.length_set, h.size], h.lt, by
    rw [h.poolCount_append hroom]; exact hroom⟩

/-- A flush takes at least one live cell and no more than there are. -/
theorem flushBatch_spec (h : conn.Wf) {mtu : MtuProfile} {toNode : α → Node} {count : ℕ}
    (hf : conn.flushBatch mtu toNode = some count) : 0 < count ∧ count ≤ conn.poolCount := by
  rw [flushBatch] at hf
  split at hf
  · next hsize =>
    obtain rfl := Option.some.inj hf
    have hne : conn.live.map toNode ≠ [] := fun hnil ↦ by
      rw [hnil] at hsize
      have hpos : mtu.valueOutputBufferSize ≠ 0 := by cases mtu <;> decide
      exact absurd hsize.1 (by simpa [getSessionSize, sessionSizeFrom] using hpos)
    refine ⟨flushCount_pos _ hne, Nat.le_trans (flushCount_le _ _) (Nat.le_of_eq ?_)⟩
    rw [List.length_map, h.length_live]
  · exact absurd hf (by simp)

theorem poolCount_compact (h : conn.Wf) {count : ℕ} (hcount : count ≤ conn.poolCount)
    (toNode : α → Node) (nodePool : ℕ → Node) :
    (conn.compact toNode nodePool count).poolCount = conn.poolCount - count := by
  have hlt := h.lt
  have hle := h.count
  show (conn.poolCount + (2 ^ 32 - count % 2 ^ 32)) % 2 ^ 32 = _
  omega

/-- Compacting sorts the live cells behind the first `count`. -/
theorem live_compact_eq (h : conn.Wf) {count : ℕ} (hcount : count ≤ conn.poolCount)
    (toNode : α → Node) (nodePool : ℕ → Node) :
    (conn.compact toNode nodePool count).live =
      sortPoolByArrivalInline (fun a ↦ (toNode a).arrival) (conn.live.drop count) := by
  have hrest := h.poolCount_compact hcount toNode nodePool
  have hmoved : conn.live.drop count = (conn.pool.drop count).take (conn.poolCount - count) := by
    rw [live, List.drop_take]
  have hlen : (conn.live.drop count).length = conn.poolCount - count := by
    rw [List.length_drop, h.length_live]
  have hperm := sortPoolByArrivalInline_perm (fun a ↦ (toNode a).arrival) (conn.live.drop count)
  have hraw : (conn.poolCount + (2 ^ 32 - count % 2 ^ 32)) % 2 ^ 32 = conn.poolCount - count :=
    hrest
  rw [live, compact]
  simp only [hraw, ← hmoved]
  rw [take_overlay_of_length hlen, take_overlay_of_length (hperm.length_eq.trans hlen)]

/-- Compacting leaves the live cells behind the first `count`, in some order. -/
theorem live_compact (h : conn.Wf) {count : ℕ} (hcount : count ≤ conn.poolCount)
    (toNode : α → Node) (nodePool : ℕ → Node) :
    (conn.compact toNode nodePool count).live.Perm (conn.live.drop count) := by
  rw [h.live_compact_eq hcount]
  exact sortPoolByArrivalInline_perm _ _

theorem compact (h : conn.Wf) {count : ℕ} (hcount : count ≤ conn.poolCount)
    (toNode : α → Node) (nodePool : ℕ → Node) : (conn.compact toNode nodePool count).Wf := by
  have hrest := h.poolCount_compact hcount toNode nodePool
  have hle := h.count
  refine ⟨?_, h.lt, by rw [hrest]; show conn.poolCount - count ≤ conn.poolSize; omega⟩
  have hmoved : ((conn.pool.drop count).take
      ((conn.poolCount + (2 ^ 32 - count % 2 ^ 32)) % 2 ^ 32)).length ≤ conn.pool.length := by
    rw [List.length_take, List.length_drop]
    exact Nat.le_trans (Nat.min_le_right _ _) (Nat.sub_le _ _)
  show (overlay _ _).length = conn.poolSize
  rw [length_overlay, length_overlay hmoved, h.size]
  rw [length_overlay hmoved, (sortPoolByArrivalInline_perm _ _).length_eq, List.length_take,
    length_overlay hmoved]
  omega

end SessionConnectionPool.Wf

/-! ## What one call can do -/

/-- A node that is not the session's changes nothing. -/
theorem processSessionNode_of_not_accepts {mtu : MtuProfile} {toNode : α → Node}
    {nodePool : ℕ → Node} {conn : SessionConnectionPool α} {a : α}
    (h : ¬ conn.Accepts nodePool (toNode a)) :
    processSessionNode mtu toNode nodePool conn a = (conn, []) :=
  if_neg h

/-- A matching node is appended, and that is all, or a first part of the cells is passed on and
removed. -/
theorem processSessionNode_cases {conn : SessionConnectionPool α} (h : conn.Wf)
    (hroom : conn.poolCount < conn.poolSize) (mtu : MtuProfile) (toNode : α → Node)
    {nodePool : ℕ → Node} {a : α} (hacc : conn.Accepts nodePool (toNode a)) :
    ((conn.append a).flushBatch mtu toNode = none ∧
        processSessionNode mtu toNode nodePool conn a = (conn.append a, [])) ∨
      ∃ count, (conn.append a).flushBatch mtu toNode = some count ∧ 0 < count ∧
        count ≤ (conn.append a).poolCount ∧
        processSessionNode mtu toNode nodePool conn a =
          ((conn.append a).compact toNode nodePool count, (conn.live ++ [a]).take count) := by
  have happ := h.append hroom a
  rw [processSessionNode, if_pos hacc]
  dsimp only
  cases hflush : (conn.append a).flushBatch mtu toNode with
  | none => exact .inl ⟨rfl, rfl⟩
  | some count =>
    obtain ⟨hpos, hcount⟩ := happ.flushBatch_spec hflush
    have hbatch : (conn.append a).pool.take count = (conn.live ++ [a]).take count := by
      rw [← h.live_append hroom a, SessionConnectionPool.live, List.take_take,
        Nat.min_eq_left hcount]
    refine .inr ⟨count, rfl, hpos, hcount, ?_⟩
    dsimp only
    rw [hbatch, SessionConnectionPool.afterFlush, if_pos hcount]

theorem poolSize_processSessionNode (mtu : MtuProfile) (toNode : α → Node) (nodePool : ℕ → Node)
    (conn : SessionConnectionPool α) (a : α) :
    (processSessionNode mtu toNode nodePool conn a).1.poolSize = conn.poolSize := by
  rw [processSessionNode]
  split
  · dsimp only
    split
    · rfl
    · rw [SessionConnectionPool.afterFlush]
      split <;> rfl
  · rfl

/-- With room for a node, a call leaves the fields of the pool as they should be. -/
theorem SessionConnectionPool.Wf.processSessionNode {conn : SessionConnectionPool α} (h : conn.Wf)
    (hroom : conn.poolCount < conn.poolSize) (mtu : MtuProfile) (toNode : α → Node)
    (nodePool : ℕ → Node) (a : α) :
    (DmmrOrbit.processSessionNode mtu toNode nodePool conn a).1.Wf := by
  by_cases hacc : conn.Accepts nodePool (toNode a)
  · have happ := h.append hroom a
    rcases processSessionNode_cases h hroom mtu toNode hacc with
      ⟨-, hout⟩ | ⟨count, -, -, hcount, hout⟩
    · rw [hout]
      exact happ
    · rw [hout]
      exact happ.compact hcount toNode nodePool
  · rw [processSessionNode_of_not_accepts hacc]
    exact h

end

end DmmrOrbit
