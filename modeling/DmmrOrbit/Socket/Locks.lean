import DmmrOrbit.Lib.Mutex
import DmmrOrbit.Socket.Pools
import DmmrOrbit.Socket.QueueEntries

/-!
# The locks of the receive path

The functions of `node_recv_manager.c` and `dmmr_socket.c` with their mutex calls.  They do what
`getFreeNode`, `getBuzyNode`, `getUnionProtocolBaseCb` and `getStructNodeBuffer` do, and release on
every way out the mutex they have taken (`getFreeNodeLocked_eq` and the lemmas after it).

Two things are wrong.  `on_receive_connection_cb` holds the mutex of the manager when it calls
`get_buzy_node`, which takes it again; and the two functions that clear an entry begin with an
unlock where a lock should be.  `locks_disciplined_iff` says which calls get round that.
-/

set_option autoImplicit false

namespace DmmrOrbit

open Mutex

/-- The mutexes: of the manager at hand, of the fifo, and of the two arrays of `dmmr_socket.c`. -/
inductive SocketMutex
  | manager
  | fifo
  | nodeFifoBuffer
  | protocolBaseCb
  deriving DecidableEq

/-! ## The receive manager -/

/-- The loop of the two getters; `take` is what they make of the manager when a slot is found. -/
def scanLocked (input : NodeRecvManager) (status : Bool) (start : Fin 256)
    (take : Fin 256 → NodeRecvManager) :
    ℕ → Fin 256 → Routine SocketMutex (Option (Fin 256) × NodeRecvManager)
  | 0, _ => do
    unlock .manager
    return (none, input)
  | fuel + 1, current =>
    if (input.buffer current).nodeBufferStatus = status then do
      unlock .manager
      return (some current, take current)
    else if current + 1 = start then do
      unlock .manager
      return (none, input)
    else scanLocked input status start take fuel (current + 1)

/-- `get_free_node`. -/
def getFreeNodeLocked (input : NodeRecvManager) :
    Routine SocketMutex (Option (Fin 256) × NodeRecvManager) := do
  lock .manager
  scanLocked input false input.nextFreeIndex
    (fun current ↦ { input.setStatus current true with nextFreeIndex := current + 1 }) 256
    input.nextFreeIndex

/-- `get_buzy_node`. -/
def getBuzyNodeLocked (input : NodeRecvManager) :
    Routine SocketMutex (Option (Fin 256) × NodeRecvManager) := do
  lock .manager
  scanLocked input true input.nextBusyIndex
    (fun current ↦ { input.setStatus current false with nextBusyIndex := current + 1 }) 256
    input.nextBusyIndex

/-- `recicle_node`. -/
def recicleNodeLocked (input : NodeRecvManager) (pos : Fin 256) :
    Routine SocketMutex NodeRecvManager :=
  if pos ≠ 0 then do
    lock .manager
    let input := input.setStatus pos false
    unlock .manager
    return input
  else return input

section

variable {held : SocketMutex → Bool}

theorem scanLocked_eq (h : held .manager = true) (input : NodeRecvManager) (status : Bool)
    (start : Fin 256) (take : Fin 256 → NodeRecvManager) (fuel : ℕ) (current : Fin 256) :
    scanLocked input status start take fuel current held =
      .ok (match scan input.buffer status start fuel current with
        | some found => (some found, take found)
        | none => (none, input), Function.update held .manager false) := by
  induction fuel generalizing current with
  | zero => exact unlock_bind h _
  | succ fuel ih =>
    rw [scanLocked, scan]
    split
    · exact unlock_bind h _
    · split
      · exact unlock_bind h _
      · exact ih (current + 1)

theorem getFreeNodeLocked_eq (h : held .manager = false) (input : NodeRecvManager) :
    getFreeNodeLocked input held = .ok (getFreeNode input, held) := by
  rw [getFreeNodeLocked, lock_bind h, scanLocked_eq (Function.update_self _ _ _),
    update_lock_unlock h]
  cases hscan : scan input.buffer false input.nextFreeIndex 256 input.nextFreeIndex with
  | some found => rw [getFreeNode, hscan]
  | none => rw [getFreeNode, hscan]

theorem recicleNodeLocked_eq (h : held .manager = false) (input : NodeRecvManager)
    (pos : Fin 256) : recicleNodeLocked input pos held = .ok (recicleNode input pos, held) := by
  rw [recicleNodeLocked, recicleNode]
  split
  · rw [lock_bind h, unlock_bind (Function.update_self _ _ _), update_lock_unlock h]
    rfl
  · rfl

/-- `get_buzy_node` on a manager whose mutex is held. -/
theorem getBuzyNodeLocked_of_held (h : held .manager = true) (input : NodeRecvManager) :
    getBuzyNodeLocked input held = .error (.relock .manager) :=
  bind_of_error (lock_of_held h) _

end

/-! ## The protocol records -/

/-- The loop of `get_union_protocol_base_cb` over the records from `k` on, and what follows it. -/
def findFreeLocked (cap : Pool ProtocolBaseCb) (env : Realloc ProtocolBaseCb) :
    List ProtocolBaseCb → ℕ → Routine SocketMutex (Option ℕ × Pool ProtocolBaseCb)
  | x :: xs, k =>
    if !x.inUse then do
      unlock .protocolBaseCb
      return (some k, cap)
    else findFreeLocked cap env xs (k + 1)
  | [], _ =>
    match poolGrow cap env with
    | some cap => do
      unlock .protocolBaseCb
      return (some cap.count, { cap with count := (cap.count + 1) % 2 ^ 32 })
    | none => do
      unlock .protocolBaseCb
      return (none, { cap with entries := [], size := cap.size * 2 % 2 ^ 32 })

/-- `get_union_protocol_base_cb`. -/
def getUnionProtocolBaseCbLocked (cap : Pool ProtocolBaseCb) (env : Realloc ProtocolBaseCb) :
    Routine SocketMutex (Option ℕ × Pool ProtocolBaseCb) := do
  lock .protocolBaseCb
  findFreeLocked cap env cap.entries 0

/-- `delete_union_protocol_base_cb` of a record, which it clears between the two calls. -/
def deleteUnionProtocolBaseCbLocked (mtu : MtuProfile) (cap : Pool ProtocolBaseCb) (u : ℕ) :
    Routine SocketMutex (Pool ProtocolBaseCb) := do
  unlock .protocolBaseCb
  let cap := deleteUnionProtocolBaseCb mtu cap u
  unlock .protocolBaseCb
  return cap

section

variable {held : SocketMutex → Bool}

theorem findFreeLocked_eq (h : held .protocolBaseCb = true) (cap : Pool ProtocolBaseCb)
    (env : Realloc ProtocolBaseCb) (records : List ProtocolBaseCb) (k : ℕ) :
    findFreeLocked cap env records k held =
      .ok (match records.findIdx? (fun x ↦ !x.inUse) with
        | some i => (some (i + k), cap)
        | none =>
          match poolGrow cap env with
          | some cap => (some cap.count, { cap with count := (cap.count + 1) % 2 ^ 32 })
          | none => (none, { cap with entries := [], size := cap.size * 2 % 2 ^ 32 }),
        Function.update held .protocolBaseCb false) := by
  induction records generalizing k with
  | nil =>
    rw [findFreeLocked, List.findIdx?_nil]
    cases poolGrow cap env with
    | some cap => exact unlock_bind h _
    | none => exact unlock_bind h _
  | cons x xs ih =>
    rw [findFreeLocked, List.findIdx?_cons]
    split
    · rw [unlock_bind h]
      dsimp only
      rw [Nat.zero_add]
      rfl
    · rw [ih]
      cases xs.findIdx? fun x ↦ !x.inUse with
      | some i =>
        have hindex : i + (k + 1) = i + 1 + k := by omega
        dsimp only [Option.map_some]
        rw [hindex]
      | none => rfl

theorem getUnionProtocolBaseCbLocked_eq (h : held .protocolBaseCb = false)
    (cap : Pool ProtocolBaseCb) (env : Realloc ProtocolBaseCb) :
    getUnionProtocolBaseCbLocked cap env held = .ok (getUnionProtocolBaseCb cap env, held) := by
  rw [getUnionProtocolBaseCbLocked, lock_bind h, findFreeLocked_eq (Function.update_self _ _ _),
    update_lock_unlock h, getUnionProtocolBaseCb, poolGet]
  cases cap.entries.findIdx? fun x ↦ !x.inUse with
  | some i => rfl
  | none =>
    dsimp only
    cases poolGrow cap env with
    | some cap => rfl
    | none => rfl

end

/-! ## The entries of the fifo -/

section

variable {ι : Type} (fd : NodeRef ι → ℤ)

/-- The loop of `get_struct_node_buffer` over the `left` entries from `k` on, and what follows. -/
def scanEntriesLocked (realloc : Option (ℕ → Option (NodeRef ι))) (p : EntryPool ι) :
    ℕ → ℕ → Routine SocketMutex (Option ℕ × EntryPool ι)
  | left + 1, k =>
    match p.nbuff[k]? with
    | some (some n) =>
      if fd n = 0 then do
        unlock .nodeFifoBuffer
        return (some k, p)
      else scanEntriesLocked realloc p left (k + 1)
    | _ => fault
  | 0, _ =>
    if p.count ≥ p.size then
      let size := p.size * 2 % 2 ^ 32
      match realloc with
      | none => do
        unlock .nodeFifoBuffer
        return (none, { p with nbuff := [], size := size })
      | some fresh => do
        unlock .nodeFifoBuffer
        return (some p.count,
          { nbuff := (List.range size).map fun i ↦ p.nbuff.getD i (fresh i)
            size := size
            count := (p.count + 1) % 2 ^ 32 })
    else do
      unlock .nodeFifoBuffer
      return (some p.count, { p with count := (p.count + 1) % 2 ^ 32 })

/-- `get_struct_node_buffer`. -/
def getStructNodeBufferLocked (realloc : Option (ℕ → Option (NodeRef ι))) (p : EntryPool ι) :
    Routine SocketMutex (Option ℕ × EntryPool ι) := do
  lock .nodeFifoBuffer
  scanEntriesLocked fd realloc p p.size 0

/-- `delete_struct_node_buffer` of an entry, which it clears between the two calls. -/
def deleteStructNodeBufferLocked (p : EntryPool ι) (k : ℕ) :
    Routine SocketMutex (EntryPool ι) := do
  unlock .nodeFifoBuffer
  let p := { p with nbuff := p.nbuff.set k none }
  unlock .nodeFifoBuffer
  return p

variable {fd} {held : SocketMutex → Bool}

theorem scanEntriesLocked_eq (h : held .nodeFifoBuffer = true)
    (realloc : Option (ℕ → Option (NodeRef ι))) (p : EntryPool ι) (left k : ℕ) :
    scanEntriesLocked fd realloc p left k held =
      match scanEntries fd p.nbuff left k with
      | .crash => .error .fault
      | .free k => .ok ((some k, p), Function.update held .nodeFifoBuffer false)
      | .full => scanEntriesLocked fd realloc p 0 k held := by
  induction left generalizing k with
  | zero => rfl
  | succ left ih =>
    rw [scanEntriesLocked, scanEntries]
    cases p.nbuff[k]? with
    | none => rfl
    | some e =>
      cases e with
      | none => rfl
      | some n =>
        dsimp only
        by_cases hfd : fd n = 0
        · rw [if_pos hfd, if_pos hfd]
          exact unlock_bind h _
        · rw [if_neg hfd, if_neg hfd]
          exact ih (k + 1)

theorem getStructNodeBufferLocked_eq (h : held .nodeFifoBuffer = false)
    (realloc : Option (ℕ → Option (NodeRef ι))) (p : EntryPool ι) :
    getStructNodeBufferLocked fd realloc p held =
      match getStructNodeBuffer fd realloc p with
      | .crash => .error .fault
      | .entry k p => .ok ((some k, p), held)
      | .null p => .ok ((none, p), held) := by
  have hheld : Function.update held .nodeFifoBuffer true .nodeFifoBuffer = true :=
    Function.update_self _ _ _
  rw [getStructNodeBufferLocked, lock_bind h, scanEntriesLocked_eq hheld, getStructNodeBuffer]
  cases scanEntries fd p.nbuff p.size 0 with
  | crash => rfl
  | free k =>
    dsimp only
    rw [update_lock_unlock h]
  | full =>
    dsimp only
    rw [scanEntriesLocked]
    by_cases hcount : p.count ≥ p.size
    · rw [if_pos hcount, if_pos hcount]
      cases realloc with
      | none =>
        dsimp only
        rw [unlock_bind hheld, update_lock_unlock h]
        rfl
      | some fresh =>
        dsimp only
        rw [unlock_bind hheld, update_lock_unlock h]
        rfl
    · rw [if_neg hcount, if_neg hcount, unlock_bind hheld, update_lock_unlock h]
      rfl

end

/-! ## The callback -/

section

variable {ι : Type} [DecidableEq ι]

/-- The loop of `on_receive_connection_cb`. -/
def receiveLoopLocked (realloc : ℕ → Option (ℕ → Option (NodeRef ι))) (i : ι) :
    ℕ → EntryQueue ι → Routine SocketMutex (EntryQueue ι)
  | 0, s => return s
  | fuel + 1, s => do
    let (nb, pool) ← getStructNodeBufferLocked s.fd (realloc fuel) s.pool
    let s := { s with pool := pool }
    match nb with
    | none => return s
    | some k =>
      let (n, m) ← getBuzyNodeLocked (s.managers i)
      let s := { s with managers := Function.update s.managers i m }
      match n with
      | none => return s
      | some pos =>
        receiveLoopLocked realloc i fuel { s with
          pool.nbuff := s.pool.nbuff.set k (some (i, pos))
          fifo := s.fifo ++ [k] }

/-- `on_receive_connection_cb` of a manager. -/
def onReceiveConnectionCbLocked (realloc : ℕ → Option (ℕ → Option (NodeRef ι))) (i : ι)
    (s : EntryQueue ι) : Routine SocketMutex (EntryQueue ι) := do
  lock .manager
  lock .fifo
  let s ← receiveLoopLocked realloc i 257 s
  unlock .fifo
  unlock .manager
  return s

/-- What it holds in its loop. -/
def callbackHeld : SocketMutex → Bool :=
  Function.update (Function.update free .manager true) .fifo true

section

variable {realloc : ℕ → Option (ℕ → Option (NodeRef ι))} {i : ι} {s t : EntryQueue ι}

theorem onReceiveConnectionCbLocked_of_ok
    (h : receiveLoopLocked realloc i 257 s callbackHeld = .ok (t, callbackHeld)) :
    onReceiveConnectionCbLocked realloc i s free = .ok (t, free) := by
  rw [onReceiveConnectionCbLocked, lock_bind rfl, lock_bind rfl, ← callbackHeld, bind_of_ok h,
    unlock_bind rfl, callbackHeld, update_lock_unlock rfl, unlock_bind rfl, update_lock_unlock rfl]
  rfl

theorem onReceiveConnectionCbLocked_of_error {e : Failure SocketMutex}
    (h : receiveLoopLocked realloc i 257 s callbackHeld = .error e) :
    onReceiveConnectionCbLocked realloc i s free = .error e := by
  rw [onReceiveConnectionCbLocked, lock_bind rfl, lock_bind rfl]
  exact bind_of_error h _

end

/-- It is disciplined exactly when there is no entry for it.  With one it goes on to
`get_buzy_node`, which takes the mutex of the manager again. -/
theorem disciplined_onReceiveConnectionCbLocked (realloc : ℕ → Option (ℕ → Option (NodeRef ι)))
    (i : ι) (s : EntryQueue ι) :
    Disciplined (onReceiveConnectionCbLocked realloc i s) ↔
      s.pool.Exhausted s.fd (realloc 256) := by
  have hget : getStructNodeBufferLocked s.fd (realloc 256) s.pool callbackHeld = _ :=
    getStructNodeBufferLocked_eq rfl (realloc 256) s.pool
  rw [EntryPool.exhausted_iff]
  cases hentry : getStructNodeBuffer s.fd (realloc 256) s.pool with
  | crash =>
    rw [hentry] at hget
    have hloop : receiveLoopLocked realloc i 257 s callbackHeld = .error .fault :=
      bind_of_error hget _
    exact iff_of_false (not_disciplined (onReceiveConnectionCbLocked_of_error hloop)) (by simp)
  | null pool =>
    rw [hentry] at hget
    have hloop : receiveLoopLocked realloc i 257 s callbackHeld =
        .ok ({ s with pool := pool }, callbackHeld) := bind_of_ok hget _
    exact iff_of_true ⟨_, onReceiveConnectionCbLocked_of_ok hloop⟩ ⟨pool, rfl⟩
  | entry k pool =>
    rw [hentry] at hget
    have hloop : receiveLoopLocked realloc i 257 s callbackHeld = .error (.relock .manager) :=
      (bind_of_ok hget _).trans (bind_of_error (getBuzyNodeLocked_of_held rfl _) _)
    exact iff_of_false (not_disciplined (onReceiveConnectionCbLocked_of_error hloop)) (by simp)

end

/-! ## The calls -/

section

variable {ι : Type}

/-- A call of one of the functions, with its arguments, what they point at and what `realloc`
returns to it.  Null is `none`; `pos` of `get_free_node` is a pointer to write to, so only whether
it is null matters. -/
inductive LockedCall (ι : Type)
  | onReceiveConnectionCb (nrm : Option ι) (realloc : ℕ → Option (ℕ → Option (NodeRef ι)))
    (s : EntryQueue ι)
  | getFreeNode (input : Option NodeRecvManager) (pos : Bool)
  | recicleNode (input : Option NodeRecvManager) (pos : Fin 256)
  | getUnionProtocolBaseCb (cap : Pool ProtocolBaseCb) (env : Realloc ProtocolBaseCb)
  | deleteUnionProtocolBaseCb (mtu : MtuProfile) (cap : Pool ProtocolBaseCb) (u : Option ℕ)
  | deleteStructNodeBuffer (p : EntryPool ι) (k : Option ℕ)

/-- What the call does with the mutexes. -/
def LockedCall.routine [DecidableEq ι] : LockedCall ι → Routine SocketMutex Unit
  | onReceiveConnectionCb none _ _ => return ()
  | onReceiveConnectionCb (some i) realloc s => call (onReceiveConnectionCbLocked realloc i s)
  | getFreeNode (some input) true => call (getFreeNodeLocked input)
  | getFreeNode _ _ => return ()
  | recicleNode (some input) pos => call (recicleNodeLocked input pos)
  | recicleNode none _ => return ()
  | getUnionProtocolBaseCb cap env => call (getUnionProtocolBaseCbLocked cap env)
  | deleteUnionProtocolBaseCb mtu cap (some u) =>
    call (deleteUnionProtocolBaseCbLocked mtu cap u)
  | deleteUnionProtocolBaseCb _ _ none => return ()
  | deleteStructNodeBuffer p (some k) => call (deleteStructNodeBufferLocked p k)
  | deleteStructNodeBuffer _ none => return ()

/-- The calls that go well: the callback gets no manager or there is no entry for it, and what is to
be deleted is null.  The turns of the loop are counted down, so `realloc 256` is for the first. -/
def LockedCall.Ok : LockedCall ι → Prop
  | onReceiveConnectionCb nrm realloc s => nrm = none ∨ s.pool.Exhausted s.fd (realloc 256)
  | getFreeNode _ _ => True
  | recicleNode _ _ => True
  | getUnionProtocolBaseCb _ _ => True
  | deleteUnionProtocolBaseCb _ _ u => u = none
  | deleteStructNodeBuffer _ k => k = none

/-- `delete_union_protocol_base_cb` of a record begins with an unlock. -/
theorem not_disciplined_deleteUnionProtocolBaseCbLocked (mtu : MtuProfile)
    (cap : Pool ProtocolBaseCb) (u : ℕ) :
    ¬ Disciplined (deleteUnionProtocolBaseCbLocked mtu cap u) :=
  not_disciplined (bind_of_error (unlock_of_free rfl) _)

/-- So does `delete_struct_node_buffer` of an entry. -/
theorem not_disciplined_deleteStructNodeBufferLocked (p : EntryPool ι) (k : ℕ) :
    ¬ Disciplined (deleteStructNodeBufferLocked p k) :=
  not_disciplined (bind_of_error (unlock_of_free rfl) _)

/-- **The lock discipline of the receive path.**  A call, in whatever state, takes no mutex that it
holds, releases none that it does not hold, and returns holding none, if and only if it is none of
these: a callback for a manager while an entry may yet be had, the deletion of a record, and the
deletion of an entry. -/
theorem locks_disciplined_iff [DecidableEq ι] (c : LockedCall ι) :
    Disciplined c.routine ↔ c.Ok := by
  cases c with
  | onReceiveConnectionCb nrm realloc s =>
    cases nrm with
    | none => exact iff_of_true (disciplined_pure ()) (.inl rfl)
    | some i =>
      rw [LockedCall.routine, disciplined_call, disciplined_onReceiveConnectionCbLocked]
      simp [LockedCall.Ok]
  | getFreeNode input pos =>
    refine iff_of_true ?_ trivial
    cases input with
    | none => exact disciplined_pure ()
    | some input =>
      cases pos with
      | false => exact disciplined_pure ()
      | true => exact disciplined_call.2 ⟨_, getFreeNodeLocked_eq rfl input⟩
  | recicleNode input pos =>
    refine iff_of_true ?_ trivial
    cases input with
    | none => exact disciplined_pure ()
    | some input => exact disciplined_call.2 ⟨_, recicleNodeLocked_eq rfl input pos⟩
  | getUnionProtocolBaseCb cap env =>
    exact iff_of_true (disciplined_call.2 ⟨_, getUnionProtocolBaseCbLocked_eq rfl cap env⟩)
      trivial
  | deleteUnionProtocolBaseCb mtu cap u =>
    cases u with
    | none => exact iff_of_true (disciplined_pure ()) rfl
    | some u =>
      rw [LockedCall.routine, disciplined_call]
      exact iff_of_false (not_disciplined_deleteUnionProtocolBaseCbLocked mtu cap u)
        (Option.some_ne_none u)
  | deleteStructNodeBuffer p k =>
    cases k with
    | none => exact iff_of_true (disciplined_pure ()) rfl
    | some k =>
      rw [LockedCall.routine, disciplined_call]
      exact iff_of_false (not_disciplined_deleteStructNodeBufferLocked p k)
        (Option.some_ne_none k)

end

/-- Deleting the first record: nobody holds what is released. -/
theorem locks_not_disciplined :
    ¬ ∀ c : LockedCall Unit, Disciplined c.routine := by
  intro h
  obtain ⟨a, ha⟩ := disciplined_call.1
    (h (.deleteUnionProtocolBaseCb .mtu1500 (.calloc (.zero .mtu1500)) (some 0)))
  cases ha

end DmmrOrbit
