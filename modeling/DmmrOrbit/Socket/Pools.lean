import Mathlib.Data.List.GetD
import DmmrOrbit.Lib.Transition
import DmmrOrbit.Structs

/-!
# The pool allocators

`get_node`, `get_tcp_node` and `get_union_protocol_base_cb` are one function on three arrays: look
for an entry whose mark is zero, and when there is none take the entry behind the last one handed
out, growing the array first if need be.  `poolGet` is that function, and the three allocators are
its instances.

How many entries were handed out is what `count` stands for, but only the second half of the
function moves it; the entries that the scan finds are not counted.  So when the scan fails for the
first time `count` is still 0, no growth is due, and the entry at index 0 is handed out although it
is in use.  In a program that never called `start_tcp_socket` the size is 0, doubling it leaves it
0, and if `realloc` returns a pointer for zero bytes the entry handed out is outside the array.

`socketPools_safe_iff` says that these are the only two ways to go wrong: every entry handed out
over a run is inside its array and free if and only if every call found a free entry, or found an
array of size 0 and got no pointer for it.
-/

set_option autoImplicit false

namespace DmmrOrbit

open Transition

/-! ## One allocator -/

section

variable {α : Type} (inUse : α → Bool)

/-- An array of the program with its `_size` and `_count` variables. -/
structure Pool (α : Type) where
  entries : List α
  size : ℕ
  count : ℕ

/-- The variables before any array is allocated. -/
def Pool.unallocated : Pool α := ⟨[], 0, 0⟩

/-- `calloc(0x400, …)` and the assignment of the size; the count stays 0. -/
def Pool.calloc (zero : α) : Pool α := ⟨List.replicate 0x400 zero, 0x400, 0⟩

/-- What a call finds in the environment: the bytes in newly allocated memory, and whether
`realloc` returns a pointer when it is asked for zero bytes.  For more than zero it succeeds. -/
structure Realloc (α : Type) where
  fresh : ℕ → α
  zeroBytes : Bool

/-- `size *= 2` and `realloc`, when `count` has reached `size`; `none` when no pointer comes
back. -/
def poolGrow (p : Pool α) (env : Realloc α) : Option (Pool α) :=
  if p.count ≥ p.size then
    let size := p.size * 2 % 2 ^ 32
    if size = 0 then
      if env.zeroBytes then some ⟨[], 0, p.count⟩ else none
    else some ⟨(List.range size).map fun i ↦ p.entries.getD i (env.fresh i), size, p.count⟩
  else some p

/-- The allocator: the index of the entry returned, if one is, and the pool. -/
def poolGet (p : Pool α) (env : Realloc α) : Option ℕ × Pool α :=
  match p.entries.findIdx? (fun x ↦ !inUse x) with
  | some i => (some i, p)
  | none =>
    match poolGrow p env with
    | some p => (some p.count, { p with count := (p.count + 1) % 2 ^ 32 })
    | none => (none, { p with entries := [], size := p.size * 2 % 2 ^ 32 })

/-- The caller's write to the entry. -/
def Pool.write (p : Pool α) (i : ℕ) (v : α) : Pool α := { p with entries := p.entries.set i v }

/-- What is true of an entry at the moment it is handed out. -/
structure Handout where
  inside : Bool
  wasInUse : Bool
  deriving DecidableEq, Repr

def Pool.handout (p : Pool α) (i : ℕ) : Handout where
  inside := i < p.entries.length
  wasInUse := (p.entries[i]?).any inUse

/-- The caller marks the entry that a call returned. -/
def Pool.mark (r : Option ℕ × Pool α) (v : α) : Option Handout × Pool α :=
  match r with
  | (some i, p) => (some (p.handout inUse i), p.write i v)
  | (none, p) => (none, p)

/-- The entry lies inside the array and was not in use. -/
def Handout.Good (h : Handout) : Prop := h.inside = true ∧ h.wasInUse = false

/-- The calls that go well: some entry is free, or the array is of size 0 and `realloc` says so. -/
def Pool.Serves (p : Pool α) (env : Realloc α) : Prop :=
  (∃ x ∈ p.entries, inUse x = false) ∨ p.size = 0 ∧ env.zeroBytes = false

/-- What holds of a pool as long as every call has gone well: the scan found every entry, so
nothing was ever counted. -/
structure Pool.Uncounted (p : Pool α) : Prop where
  size : p.entries.length = p.size
  count : p.count = 0

variable {inUse}

namespace Pool.Uncounted

variable {p : Pool α} {env : Realloc α}

theorem unallocated : (Pool.unallocated : Pool α).Uncounted := ⟨rfl, rfl⟩

theorem calloc (zero : α) : (Pool.calloc zero).Uncounted := ⟨List.length_replicate, rfl⟩

theorem write (h : p.Uncounted) (i : ℕ) (v : α) : (p.write i v).Uncounted :=
  ⟨by rw [Pool.write, List.length_set, h.size], h.count⟩

/-- A scan that finds a free entry leaves the pool as it is. -/
theorem get_of_free (env : Realloc α) (hfree : ∃ x ∈ p.entries, inUse x = false) :
    ∃ i, poolGet inUse p env = (some i, p) ∧ (p.handout inUse i).Good := by
  obtain ⟨x, hx, hxf⟩ := hfree
  have hsome : (p.entries.findIdx? fun x ↦ !inUse x).isSome := by
    rw [List.findIdx?_isSome, List.any_eq_true]
    exact ⟨x, hx, by simp [hxf]⟩
  obtain ⟨i, hi⟩ := Option.isSome_iff_exists.1 hsome
  obtain ⟨hlt, hfound, -⟩ := List.findIdx?_eq_some_iff_getElem.1 hi
  refine ⟨i, by rw [poolGet, hi], by simp [Pool.handout, hlt], ?_⟩
  simpa [Pool.handout, List.getElem?_eq_getElem hlt] using hfound

/-- A scan that fails on an allocated array hands out entry 0, in use or not. -/
theorem get_of_full (h : p.Uncounted) (env : Realloc α)
    (hfull : ∀ x ∈ p.entries, inUse x = true) (hsize : p.size ≠ 0) :
    poolGet inUse p env = (some 0, { p with count := 1 }) ∧
      (p.handout inUse 0).wasInUse = true := by
  have hnone : p.entries.findIdx? (fun x ↦ !inUse x) = none := by
    rw [List.findIdx?_eq_none_iff]
    exact fun x hx ↦ by simp [hfull x hx]
  have hgrow : poolGrow p env = some p := by
    rw [poolGrow, if_neg (by rw [h.count]; omega)]
  constructor
  · rw [poolGet, hnone, hgrow]; simp [h.count]
  · have hlt : 0 < p.entries.length := by rw [h.size]; omega
    simp [Pool.handout, List.getElem?_eq_getElem hlt, hfull]

/-- A scan of an array that was never allocated hands out whatever `realloc` makes of zero
bytes. -/
theorem get_of_empty (h : p.Uncounted) (hsize : p.size = 0) : poolGet inUse p env =
    if env.zeroBytes then (some 0, ⟨[], 0, 1⟩) else (none, p) := by
  obtain ⟨entries, size, count⟩ := p
  obtain ⟨hlen, rfl⟩ := h
  obtain rfl : size = 0 := hsize
  obtain rfl : entries = [] := List.length_eq_zero_iff.1 hlen
  cases hz : env.zeroBytes <;> simp [poolGet, poolGrow, hz]

/-- A call that goes well hands out a good entry or none, and keeps the invariant. -/
theorem mark (h : p.Uncounted) (hok : p.Serves inUse env) (v : α) :
    (∀ o, (Pool.mark inUse (poolGet inUse p env) v).1 = some o → o.Good) ∧
      (Pool.mark inUse (poolGet inUse p env) v).2.Uncounted := by
  rcases hok with hfree | ⟨hsize, hnull⟩
  · obtain ⟨i, hget, hgood⟩ := get_of_free env hfree
    rw [hget]
    exact ⟨fun o ho ↦ Option.some.inj ho ▸ hgood, h.write i v⟩
  · rw [h.get_of_empty hsize, hnull]
    exact ⟨fun o ho ↦ absurd ho (by simp [Pool.mark]), h⟩

/-- Any other call hands out an entry that is in use, or none of the array's. -/
theorem mark_bad (h : p.Uncounted) (hbad : ¬ p.Serves inUse env) (v : α) :
    ∃ o, (Pool.mark inUse (poolGet inUse p env) v).1 = some o ∧ ¬ o.Good := by
  rw [Pool.Serves, not_or] at hbad
  obtain ⟨hfull, hnull⟩ := hbad
  by_cases hsize : p.size = 0
  · have hz : env.zeroBytes = true := by simpa [hsize] using hnull
    rw [h.get_of_empty hsize, hz]
    exact ⟨_, rfl, fun hg ↦ absurd hg.1 (by simp [Pool.handout])⟩
  · have hall : ∀ x ∈ p.entries, inUse x = true := fun x hx ↦ by
      cases hu : inUse x with
      | true => rfl
      | false => exact absurd ⟨x, hx, hu⟩ hfull
    obtain ⟨hget, hused⟩ := h.get_of_full env hall hsize
    rw [hget]
    refine ⟨_, rfl, fun hg ↦ ?_⟩
    have hfresh : (p.handout inUse 0).wasInUse = false := hg.2
    exact absurd (hused.symm.trans hfresh) (by simp)

end Pool.Uncounted

end

/-! ## The three pools -/

def Node.inUse (n : Node) : Bool := n.fd != 0

def TcpNode.inUse (t : TcpNode) : Bool := t.run

def ProtocolBaseCb.inUse (u : ProtocolBaseCb) : Bool := u.proto != .none

/-- `get_node`. -/
def getNode (nodePool : Pool Node) (env : Realloc Node) : Option ℕ × Pool Node :=
  poolGet Node.inUse nodePool env

/-- `get_tcp_node`. -/
def getTcpNode (tcpPool : Pool TcpNode) (env : Realloc TcpNode) : Option ℕ × Pool TcpNode :=
  poolGet TcpNode.inUse tcpPool env

/-- `get_union_protocol_base_cb`. -/
def getUnionProtocolBaseCb (cap : Pool ProtocolBaseCb) (env : Realloc ProtocolBaseCb) :
    Option ℕ × Pool ProtocolBaseCb :=
  poolGet ProtocolBaseCb.inUse cap env

/-- `delete_node`. -/
def deleteNode (mtu : MtuProfile) (nodePool : Pool Node) (i : ℕ) : Pool Node :=
  nodePool.write i (.zero mtu)

/-- `delete_tcp_node`. -/
def deleteTcpNode (mtu : MtuProfile) (tcpPool : Pool TcpNode) (i : ℕ) : Pool TcpNode :=
  tcpPool.write i (.zero mtu)

/-- `delete_union_protocol_base_cb`. -/
def deleteUnionProtocolBaseCb (mtu : MtuProfile) (cap : Pool ProtocolBaseCb) (i : ℕ) :
    Pool ProtocolBaseCb :=
  cap.write i (.zero mtu)

/-- The pools of `socket_tcp.c` and `dmmr_socket.c`, and what the latest call handed out. -/
structure SocketPools where
  nodePool : Pool Node
  tcpPool : Pool TcpNode
  cap : Pool ProtocolBaseCb
  last : Option Handout

/-- The static variables at the start of the program. -/
def SocketPools.unallocated : SocketPools := ⟨.unallocated, .unallocated, .unallocated, none⟩

/-- `start_tcp_socket`, when both arrays can be allocated. -/
def startTcpSocket (mtu : MtuProfile) (s : SocketPools) : SocketPools :=
  { s with tcpPool := .calloc (.zero mtu), nodePool := .calloc (.zero mtu) }

/-- `new_dmmr_socket`, as far as the array of protocol records goes. -/
def newDmmrSocket (mtu : MtuProfile) (s : SocketPools) : SocketPools :=
  { s with cap := .calloc (.zero mtu) }

/-- The pools as the program finds them, depending on which of the two functions it called. -/
def socketPools (mtu : MtuProfile) (tcpStarted socketCreated : Bool) : SocketPools :=
  let s := if tcpStarted then startTcpSocket mtu .unallocated else .unallocated
  if socketCreated then newDmmrSocket mtu s else s

/-- A call of an allocator, whose caller marks the entry in use, or the release of an entry. -/
inductive PoolEvent
  | getNode (env : Realloc Node) (v : Node) (marked : v.inUse = true)
  | getTcpNode (env : Realloc TcpNode) (v : TcpNode) (marked : TcpNode.inUse v = true)
  | getUnionProtocolBaseCb (env : Realloc ProtocolBaseCb) (v : ProtocolBaseCb)
      (marked : v.inUse = true)
  | deleteNode (i : ℕ)
  | deleteTcpNode (i : ℕ)
  | deleteUnionProtocolBaseCb (i : ℕ)

def poolStep (mtu : MtuProfile) (s : SocketPools) : PoolEvent → Option SocketPools
  | .getNode env v _ =>
    let r := Pool.mark Node.inUse (getNode s.nodePool env) v
    some { s with nodePool := r.2, last := r.1 }
  | .getTcpNode env v _ =>
    let r := Pool.mark TcpNode.inUse (getTcpNode s.tcpPool env) v
    some { s with tcpPool := r.2, last := r.1 }
  | .getUnionProtocolBaseCb env v _ =>
    let r := Pool.mark ProtocolBaseCb.inUse (getUnionProtocolBaseCb s.cap env) v
    some { s with cap := r.2, last := r.1 }
  | .deleteNode i => some { s with nodePool := deleteNode mtu s.nodePool i, last := none }
  | .deleteTcpNode i => some { s with tcpPool := deleteTcpNode mtu s.tcpPool i, last := none }
  | .deleteUnionProtocolBaseCb i =>
    some { s with cap := deleteUnionProtocolBaseCb mtu s.cap i, last := none }

/-- What the latest call handed out lies inside its array and was not in use. -/
def SocketPools.Safe (s : SocketPools) : Prop := ∀ o, s.last = some o → o.Good

/-- The calls that go well; a release always does. -/
def SocketPools.Serves (s : SocketPools) : PoolEvent → Prop
  | .getNode env _ _ => s.nodePool.Serves Node.inUse env
  | .getTcpNode env _ _ => s.tcpPool.Serves TcpNode.inUse env
  | .getUnionProtocolBaseCb env _ _ => s.cap.Serves ProtocolBaseCb.inUse env
  | .deleteNode _ => True
  | .deleteTcpNode _ => True
  | .deleteUnionProtocolBaseCb _ => True

structure SocketPools.Inv (s : SocketPools) : Prop where
  nodePool : s.nodePool.Uncounted
  tcpPool : s.tcpPool.Uncounted
  cap : s.cap.Uncounted
  safe : s.Safe

namespace SocketPools.Inv

variable {mtu : MtuProfile} {s t : SocketPools}

theorem init (mtu : MtuProfile) (tcpStarted socketCreated : Bool) :
    (socketPools mtu tcpStarted socketCreated).Inv := by
  have hnone : (socketPools mtu tcpStarted socketCreated).last = none := by
    cases tcpStarted <;> cases socketCreated <;> rfl
  refine ⟨?_, ?_, ?_, fun o ho ↦ absurd (hnone.symm.trans ho) (by simp)⟩
  · cases tcpStarted <;> cases socketCreated
    exacts [.unallocated, .unallocated, .calloc _, .calloc _]
  · cases tcpStarted <;> cases socketCreated
    exacts [.unallocated, .unallocated, .calloc _, .calloc _]
  · cases tcpStarted <;> cases socketCreated
    exacts [.unallocated, .calloc _, .unallocated, .calloc _]

theorem step (h : s.Inv) (e : PoolEvent) (hok : s.Serves e) (hs : poolStep mtu s e = some t) :
    t.Inv := by
  cases e with
  | getNode env v _ =>
    obtain rfl := Option.some.inj hs
    obtain ⟨hgood, hpool⟩ := h.nodePool.mark hok v
    exact ⟨hpool, h.tcpPool, h.cap, hgood⟩
  | getTcpNode env v _ =>
    obtain rfl := Option.some.inj hs
    obtain ⟨hgood, hpool⟩ := h.tcpPool.mark hok v
    exact ⟨h.nodePool, hpool, h.cap, hgood⟩
  | getUnionProtocolBaseCb env v _ =>
    obtain rfl := Option.some.inj hs
    obtain ⟨hgood, hpool⟩ := h.cap.mark hok v
    exact ⟨h.nodePool, h.tcpPool, hpool, hgood⟩
  | deleteNode i =>
    obtain rfl := Option.some.inj hs
    exact ⟨h.nodePool.write i _, h.tcpPool, h.cap, fun o ho ↦ absurd ho (by simp)⟩
  | deleteTcpNode i =>
    obtain rfl := Option.some.inj hs
    exact ⟨h.nodePool, h.tcpPool.write i _, h.cap, fun o ho ↦ absurd ho (by simp)⟩
  | deleteUnionProtocolBaseCb i =>
    obtain rfl := Option.some.inj hs
    exact ⟨h.nodePool, h.tcpPool, h.cap.write i _, fun o ho ↦ absurd ho (by simp)⟩

theorem step_bad (h : s.Inv) (e : PoolEvent) (hbad : ¬ s.Serves e)
    (hs : poolStep mtu s e = some t) : ¬ t.Safe := by
  intro hsafe
  cases e with
  | getNode env v _ =>
    obtain rfl := Option.some.inj hs
    obtain ⟨o, ho, hno⟩ := h.nodePool.mark_bad hbad v
    exact hno (hsafe o ho)
  | getTcpNode env v _ =>
    obtain rfl := Option.some.inj hs
    obtain ⟨o, ho, hno⟩ := h.tcpPool.mark_bad hbad v
    exact hno (hsafe o ho)
  | getUnionProtocolBaseCb env v _ =>
    obtain rfl := Option.some.inj hs
    obtain ⟨o, ho, hno⟩ := h.cap.mark_bad hbad v
    exact hno (hsafe o ho)
  | deleteNode i => exact hbad trivial
  | deleteTcpNode i => exact hbad trivial
  | deleteUnionProtocolBaseCb i => exact hbad trivial

/-- A single call that does not go well is enough. -/
theorem not_always (h : s.Inv) {e : PoolEvent} (hbad : ¬ s.Serves e) :
    ¬ Always (poolStep mtu) SocketPools.Safe s [e] := by
  intro hA
  obtain ⟨t, ht⟩ : ∃ t, poolStep mtu s e = some t := by cases e <;> exact ⟨_, rfl⟩
  exact h.step_bad e hbad ht ((always_cons_some ht).1 hA).2

end SocketPools.Inv

/-- **The allocators are safe exactly while they find a free entry.**  Over any calls and releases
on the three pools, from the pools as the program finds them, every entry handed out lies inside its
array and was not in use, if and only if every call found some free entry — or an array of size 0,
for which `realloc` returned no pointer. -/
theorem socketPools_safe_iff (mtu : MtuProfile) (tcpStarted socketCreated : Bool)
    (es : List PoolEvent) :
    Always (poolStep mtu) SocketPools.Safe (socketPools mtu tcpStarted socketCreated) es ↔
      Guarded (poolStep mtu) SocketPools.Serves (socketPools mtu tcpStarted socketCreated) es :=
  always_iff_guarded SocketPools.Inv (fun _ h ↦ h.safe) (fun _ e _ h hok ↦ h.step e hok)
    (fun _ e _ h hbad ↦ h.step_bad e hbad) es (.init mtu tcpStarted socketCreated)

/-- The first connection of a program that never called `start_tcp_socket`: the entry is outside
the array. -/
theorem socketPools_not_safe :
    ¬ Always (poolStep .mtu1500) SocketPools.Safe (socketPools .mtu1500 false true)
      [.getNode ⟨fun _ ↦ .zero .mtu1500, true⟩ { Node.zero .mtu1500 with fd := 5 } rfl] := by
  refine (SocketPools.Inv.init .mtu1500 false true).not_always ?_
  rintro (⟨x, hx, -⟩ | ⟨-, hnull⟩)
  · exact absurd hx (by simp [socketPools, newDmmrSocket, SocketPools.unallocated,
      Pool.unallocated])
  · exact absurd hnull (by simp)

end DmmrOrbit
