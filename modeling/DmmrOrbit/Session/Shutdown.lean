import DmmrOrbit.Lib.Sweep
import DmmrOrbit.Plugin.Registration

/-!
# The shutdown sweep

`stop_session_connection` goes through `recno` and deletes every entry with a port.  The table has
0xFFFF rows and the sweep makes 0x10000 turns, so it always ends with a row that is not there; and a
port is a `uint16_t`, so `get_recno_slot` and `get_session` go to that row too, for the port 0xFFFF.

The runs are those of registrations and of deletions through `sm_delete_session`, between which the
workers go on with their entries and the other threads with the pools.  No run whatever makes the
sweep stay inside (`stopSessionConnection_not_clean`), whereas the turns before the last one do what
the function is for, as long as the ports are those of rows (`stopRows_clean`): what has been
registered has its port, and what has no port is zeroed.
-/

set_option autoImplicit false

namespace DmmrOrbit

open Transition

/-! ## Sessions by their ports -/

/-- What the callback of a plugin is given: a `udp_node` of `cap` or a `tcp_node` of the pool. -/
def ProtoArr.input : ProtoArr → ℕ → CbPtr
  | udp, i => .cap i
  | tcp, a => .tcp a

/-- `input->node->port`, if that can be read. -/
def Process.portOf (w : Process) (input : CbPtr) : Option UInt16 :=
  ((w.cb input).bind ProtocolBaseCb.node).map fun k ↦ (w.nodes k).port

/-- `get_session_cfg`; `none` if it goes through a null pointer.  `stack` is what the caller's two
variables hold before. -/
def getSessionCfg (w : Process) (u : ProtocolBaseCb) (stack : UInt16 × Option ProtoArr) :
    Option (UInt16 × Option ProtoArr) :=
  match u.proto with
  | .none => some stack
  | .tcp => u.node.map fun k ↦ ((w.nodes k).port, some .tcp)
  | .udp => u.node.map fun k ↦ ((w.nodes k).port, some .udp)

/-- `get_session`: the row and the column of the entry it returns, if it returns one.  The test
`port < 0x10000` is true of every port. -/
def getSession (w : Process) (ptr : CbPtr) (stack : UInt16 × Option ProtoArr) :
    Option (Option (UInt16 × ProtoArr)) :=
  (w.cb ptr).bind fun u ↦ (getSessionCfg w u stack).map fun cfg ↦
    if cfg.1.toNat < 0x10000 then cfg.2.map fun arr ↦ (cfg.1, arr) else none

/-- What `delete_session` leaves of an entry. -/
def deleteSession (mtu : MtuProfile) (_entry : SessionConnectionPool Node) :
    SessionConnectionPool Node :=
  .zero mtu

/-- `sched_delete`; `none` if the array is gone. -/
def schedDelete (slots : GrowArray 64 (SchedulerSlot RecnoIndex)) (p : RecnoIndex) :
    Option (GrowArray 64 (SchedulerSlot RecnoIndex)) :=
  if slots.base = none ∧ slots.count ≠ 0 then none
  else some { slots with
    entries := overlay (clearFirst p (slots.entries.take slots.count)) slots.entries
    entries_null := fun h ↦ by rw [slots.entries_null h]; simp [clearFirst, overlay] }

/-! ## Runs -/

/-- The tables, and the rows of `recno` that `get_recno_slot` and `get_session` have gone to. -/
structure SessionRun where
  tables : SessionTables
  rows : List ℕ

/-- `start_session_connection`; `cb` is whether it is given a circle buffer. -/
def startSessionConnection (mtu : MtuProfile) (cb : Bool) (s : SessionTables) : SessionRun where
  tables := { s with
    process := { s.process with recno := fun _ ↦ .zero mtu, circleBuffer := cb } }
  rows := []

inductive RecnoEvent
  /-- A callback for `proto`; `link` is whether it assigns to `input->linked`. -/
  | insert (link : Bool) (proto : ProtoArr) (env : RegisterEnv) (i : ℕ)
  /-- `sm_delete_session`. -/
  | delete (ptr : CbPtr) (stack : UInt16 × Option ProtoArr)
  /-- What a worker does with its entry. -/
  | work (p : RecnoIndex) (poolSize poolCount : ℕ) (pool : List Node) (cursor : Option ℕ)
  /-- What the other threads do to the pools. -/
  | memory (nodes : ℕ → Node) (tcpPool : ℕ → TcpNode) (cap : ℕ → ProtocolBaseCb)

/-- The tables that a registration leaves. -/
def Registration.tables : Registration → Option SessionTables
  | completed s => some s
  | failed s => some s
  | running s => some s
  | fault => none

/-- One event.  What is written to a row that is not there does not reach the tables. -/
def recnoStep (mtu : MtuProfile) (s : SessionRun) : RecnoEvent → Option SessionRun
  | .insert link proto env i =>
    (s.tables.process.portOf (proto.input i)).bind fun port ↦
      let rows := s.rows ++ [port.toNat]
      match getRecnoSlot port proto with
      | none => some ⟨s.tables, rows⟩
      | some _ =>
        (registerConnection link proto env s.tables (proto.input i)).tables.map fun t ↦ ⟨t, rows⟩
  | .delete ptr stack =>
    (getSession s.tables.process ptr stack).bind fun entry ↦
      match entry with
      | none => some s
      | some (port, arr) =>
        let rows := s.rows ++ [port.toNat]
        match getRecnoSlot port arr with
        | none => some ⟨s.tables, rows⟩
        | some p =>
          (schedDelete s.tables.slots p).map fun slots ↦
            let entry := deleteSession mtu (s.tables.process.recno p)
            ⟨{ s.tables with process := s.tables.process.setEntry p entry, slots := slots }, rows⟩
  | .work p poolSize poolCount pool cursor =>
    let conn := s.tables.process.recno p
    if conn.run then
      some { s with tables.process := s.tables.process.setEntry p { conn with
        poolSize := poolSize, poolCount := poolCount, pool := pool, cursor := cursor } }
    else none
  | .memory nodes tcpPool cap =>
    some { s with tables.process := { s.tables.process with
      nodes := nodes, tcpPool := tcpPool, cap := cap } }

/-! ## The sweep -/

/-- An entry of the memory that `recno` begins in: a row and a column. -/
abbrev RecnoAddress := ℕ × ProtoArr

def RecnoIndex.address (p : RecnoIndex) : RecnoAddress := (p.1, p.2)

/-- That memory: the table, and what lies behind it. -/
def SessionRun.memory (s : SessionRun) (beyond : RecnoAddress → SessionConnectionPool Node)
    (a : RecnoAddress) : SessionConnectionPool Node :=
  if h : a.1 < 0xFFFF then s.tables.process.recno (⟨a.1, h⟩, a.2) else beyond a

/-- The test of the sweep. -/
def hasPort (entry : SessionConnectionPool Node) : Bool := entry.port ≠ 0

/-- A turn of the loop. -/
def stopRow (mtu : MtuProfile) (s : Sweep RecnoAddress (SessionConnectionPool Node)) (row : ℕ) :
    Sweep RecnoAddress (SessionConnectionPool Node) :=
  let s := s.visit hasPort (deleteSession mtu) (row, .udp)
  s.visit hasPort (deleteSession mtu) (row, .tcp)

/-- The loop over the first `n` rows. -/
def stopRows (mtu : MtuProfile) (n : ℕ) (recno : RecnoAddress → SessionConnectionPool Node) :
    Sweep RecnoAddress (SessionConnectionPool Node) :=
  (List.range n).foldl (stopRow mtu) (.start recno)

/-- `stop_session_connection`. -/
def stopSessionConnection (mtu : MtuProfile)
    (recno : RecnoAddress → SessionConnectionPool Node) :
    Sweep RecnoAddress (SessionConnectionPool Node) :=
  stopRows mtu 0x10000 recno

/-- What is promised of a run that ends with a sweep: no row is gone to that is not there, each live
session is deleted once, and every entry is zeroed. -/
structure SessionRun.CleanShutdown (mtu : MtuProfile) (s : SessionRun)
    (sweep : Sweep RecnoAddress (SessionConnectionPool Node)) : Prop where
  rows : ∀ row ∈ s.rows, row < 0xFFFF
  read : ∀ a ∈ sweep.read, a.1 < 0xFFFF
  once : ∀ p, (s.tables.process.recno p).run = true → sweep.cleared.count p.address = 1
  zeroed : ∀ p : RecnoIndex, sweep.table p.address = .zero mtu

/-! ## What the sweep does -/

/-- The entries of the first `n` rows, in the order of the sweep. -/
def addresses (n : ℕ) : List RecnoAddress :=
  (List.range n).flatMap fun row ↦ [(row, .udp), (row, .tcp)]

theorem mem_addresses {n : ℕ} {a : RecnoAddress} : a ∈ addresses n ↔ a.1 < n := by
  obtain ⟨row, arr⟩ := a
  rw [addresses, List.mem_flatMap]
  constructor
  · rintro ⟨row', hrow, ha⟩
    have heq : row = row' := by
      rcases List.mem_pair.1 ha with h | h <;> exact congrArg Prod.fst h
    exact heq ▸ List.mem_range.1 hrow
  · intro h
    refine ⟨row, List.mem_range.2 h, ?_⟩
    cases arr <;> simp

theorem nodup_addresses (n : ℕ) : (addresses n).Nodup := by
  rw [addresses, List.nodup_flatMap]
  refine ⟨fun row _ ↦ by simp, ?_⟩
  refine List.nodup_range.imp fun hne ↦ ?_
  simp [Function.onFun, hne.symm]

section

variable {mtu : MtuProfile} {n : ℕ} {recno : RecnoAddress → SessionConnectionPool Node}

theorem stopRows_eq (mtu : MtuProfile) (n : ℕ)
    (recno : RecnoAddress → SessionConnectionPool Node) :
    stopRows mtu n recno = (Sweep.start recno).along hasPort (deleteSession mtu) (addresses n) := by
  rw [stopRows, Sweep.along, addresses, List.foldl_flatMap]
  rfl

theorem stopRows_succ : stopRows mtu (n + 1) recno = stopRow mtu (stopRows mtu n recno) n := by
  rw [stopRows, List.range_succ, List.foldl_append]
  rfl

/-- The last turn of the sweep is for the row behind the table. -/
theorem stopSessionConnection_eq : stopSessionConnection mtu recno =
    stopRow mtu (stopRows mtu 0xFFFF recno) 0xFFFF :=
  stopRows_succ

theorem mem_read_stopRows {a : RecnoAddress} : a ∈ (stopRows mtu n recno).read ↔ a.1 < n := by
  rw [stopRows_eq, Sweep.read_along]
  show a ∈ [] ++ addresses n ↔ a.1 < n
  rw [List.nil_append, mem_addresses]

/-- An entry with a port is deleted, once. -/
theorem count_cleared_stopRows {a : RecnoAddress} (ha : a.1 < n) (hport : (recno a).port ≠ 0) :
    (stopRows mtu n recno).cleared.count a = 1 := by
  have hlive : hasPort (recno a) = true := decide_eq_true hport
  rw [stopRows_eq]
  exact Sweep.count_cleared_along (nodup_addresses n) (mem_addresses.2 ha) hlive

/-- Afterwards it is zeroed, and one without a port is what it was. -/
theorem table_stopRows {a : RecnoAddress} (ha : a.1 < n) : (stopRows mtu n recno).table a =
    if (recno a).port ≠ 0 then .zero mtu else recno a := by
  rw [stopRows_eq, Sweep.table_along (nodup_addresses n) (mem_addresses.2 ha)]
  by_cases hport : (recno a).port = 0 <;> simp [Sweep.start, hasPort, deleteSession, hport]

end

/-! ## What a registration does -/

theorem Process.setLinked_nodes (w : Process) (ptr link : CbPtr) :
    (w.setLinked ptr link).nodes = w.nodes := by
  cases ptr with
  | cap i => rfl
  | tcp a => rfl
  | session port proto =>
    rw [setLinked]
    split <;> rfl

theorem ProtoArr.isNode_input (proto : ProtoArr) (i : ℕ) : (proto.input i).IsNode := by
  cases proto <;> exact trivial

/-- The entry that a session is stored in gets the port of its node. -/
theorem storeSession_port (proto : ProtoArr) (w : Process) (p : RecnoIndex) {u : ProtocolBaseCb}
    {k : ℕ} (hk : u.node = some k) (input : CbPtr) :
    ((storeSession proto w p u input).recno p).port = (w.nodes k).port := by
  cases proto <;> simp [storeSession, linkSessionPorts, ProtoArr.toProto, nodePort, hk,
    Process.setEntry]

section

variable {env : RegisterEnv} {p : RecnoIndex}

/-- `insert_session` keeps the port, and the other entries. -/
theorem insertSessionAt_spec {w w' : Process}
    (h : (insertSessionAt env.mtu env.results env.current w p).process = some w') :
    Process.AgreeExcept p w w' ∧ (w'.recno p).port = (w.recno p).port := by
  rw [insertSessionAt] at h
  split at h
  · obtain rfl := Option.some.inj h
    exact ⟨.refl p w, rfl⟩
  · split at h
    · obtain rfl := Option.some.inj h
      exact ⟨w.agreeExcept_setEntry p _, by rw [w.setEntry_recno_self]⟩
    · cases hcurrent : env.current with
      | none =>
        rw [hcurrent] at h
        obtain rfl := Option.some.inj h
        exact ⟨w.agreeExcept_setEntry p _, by rw [w.setEntry_recno_self]⟩
      | some cursor =>
        rw [hcurrent] at h
        obtain rfl := Option.some.inj h
        exact ⟨w.agreeExcept_setEntry p _, by rw [w.setEntry_recno_self]⟩

/-- The scheduler's insert leaves the sessions to what `insert_session` has made of them. -/
theorem insertBoth_tables {s t : SessionTables} (h : (insertBoth env s p).tables = some t) :
    (insertSessionAt env.mtu env.results env.current s.process p).process = some t.process := by
  rw [insertBoth] at h
  cases hcall : insertSessionAt env.mtu env.results env.current s.process p with
  | returned ret w =>
    rw [hcall] at h
    dsimp only at h
    split at h
    · split at h
      · split at h
        · exact congrArg (Option.map SessionTables.process) h
        · exact congrArg (Option.map SessionTables.process) h
      · cases h
    · exact congrArg (Option.map SessionTables.process) h
  | running w =>
    rw [hcall] at h
    exact congrArg (Option.map SessionTables.process) h
  | fault =>
    rw [hcall] at h
    cases h

/-- **A registration** gives its entry the port that it is the row of, and leaves the others as they
were. -/
theorem registerConnection_tables {link : Bool} {proto : ProtoArr} {s t : SessionTables} {i : ℕ}
    {port : UInt16} (hport : s.process.portOf (proto.input i) = some port)
    (hp : getRecnoSlot port proto = some p)
    (h : (registerConnection link proto env s (proto.input i)).tables = some t) :
    (∀ q, q ≠ p → t.process.recno q = s.process.recno q) ∧ (t.process.recno p).port = port := by
  rw [Process.portOf, Option.map_eq_some_iff] at hport
  obtain ⟨k, hk, rfl⟩ := hport
  obtain ⟨u, hu, hk⟩ := Option.bind_eq_some_iff.1 hk
  rw [registerConnection, hu] at h
  simp only [hk, hp] at h
  -- the assignment to `input->linked` is outside the table
  set w := if link then s.process.setLinked (proto.input i)
    (.session (s.process.nodes k).port proto) else s.process with hw
  have hrecno : w.recno = s.process.recno := by
    cases link with
    | false => rfl
    | true => exact (s.process.relinked_setLinked (proto.isNode_input i) _).recno
  have hnodes : w.nodes = s.process.nodes := by
    cases link with
    | false => rfl
    | true => exact s.process.setLinked_nodes _ _
  obtain ⟨hstore, -⟩ := storeSession_spec proto w p u (proto.input i)
  obtain ⟨hinsert, hkept⟩ := insertSessionAt_spec (insertBoth_tables h)
  refine ⟨fun q hq ↦ ?_, ?_⟩
  · rw [(hstore.trans hinsert).recno q hq, hrecno]
  · rw [hkept]
    exact (storeSession_port proto w p hk _).trans (congrArg (fun f ↦ (f k).port) hnodes)

end

/-! ## Runs -/

namespace SessionRun

theorem memory_address (s : SessionRun) (beyond : RecnoAddress → SessionConnectionPool Node)
    (p : RecnoIndex) : s.memory beyond p.address = s.tables.process.recno p :=
  dif_pos p.1.isLt

/-- The steps that stay in the table: the port of a session has a row, and is not 0, which marks an
entry without a session. -/
def StepOk (s : SessionRun) : RecnoEvent → Prop
  | .insert _ proto _ i =>
    ∀ port, s.tables.process.portOf (proto.input i) = some port → port ≠ 0 ∧ port ≠ 0xFFFF
  | .delete ptr stack =>
    ∀ port arr, getSession s.tables.process ptr stack = some (some (port, arr)) → port ≠ 0xFFFF
  | _ => True

/-- What is kept: every entry is zeroed or has a port. -/
structure Inv (mtu : MtuProfile) (s : SessionRun) : Prop where
  rows : ∀ row ∈ s.rows, row < 0xFFFF
  entries : ∀ p, s.tables.process.recno p = .zero mtu ∨ (s.tables.process.recno p).port ≠ 0

namespace Inv

variable {mtu : MtuProfile} {s t : SessionRun}

theorem start (mtu : MtuProfile) (cb : Bool) (s : SessionTables) :
    (startSessionConnection mtu cb s).Inv mtu :=
  ⟨by simp [startSessionConnection], fun _ ↦ .inl rfl⟩

/-- One more row. -/
theorem rows_append (h : s.Inv mtu) {port : UInt16} {proto : ProtoArr} {p : RecnoIndex}
    (hp : getRecnoSlot port proto = some p) : ∀ row ∈ s.rows ++ [port.toNat], row < 0xFFFF := by
  intro row hrow
  rcases List.mem_append.1 hrow with hrow | hrow
  · exact h.rows row hrow
  · rw [List.mem_singleton.1 hrow]
    by_contra hge
    rw [getRecnoSlot, dif_neg hge] at hp
    cases hp

/-- An entry is replaced by one that is zeroed or has a port. -/
theorem entries_of_agree (h : s.Inv mtu) {w : Process} {p : RecnoIndex}
    (hothers : ∀ q, q ≠ p → w.recno q = s.tables.process.recno q)
    (hp : w.recno p = .zero mtu ∨ (w.recno p).port ≠ 0) :
    ∀ q, w.recno q = .zero mtu ∨ (w.recno q).port ≠ 0 := by
  intro q
  by_cases hq : q = p
  · rw [hq]
    exact hp
  · rw [hothers q hq]
    exact h.entries q

/-- A registration. -/
theorem insert_step (h : s.Inv mtu) {link : Bool} {proto : ProtoArr} {env : RegisterEnv} {i : ℕ}
    (hok : s.StepOk (.insert link proto env i))
    (hs : recnoStep mtu s (.insert link proto env i) = some t) : t.Inv mtu := by
  obtain ⟨port, hport, hs⟩ := Option.bind_eq_some_iff.1 hs
  obtain ⟨hzero, hlast⟩ := hok port hport
  obtain ⟨p, hp⟩ : ∃ p, getRecnoSlot port proto = some p := getRecnoSlot_isSome_iff.2 hlast
  simp only [hp] at hs
  obtain ⟨tables, htables, rfl⟩ := Option.map_eq_some_iff.1 hs
  obtain ⟨hothers, hself⟩ := registerConnection_tables hport hp htables
  exact ⟨h.rows_append hp, h.entries_of_agree hothers (.inr (hself.symm ▸ hzero))⟩

/-- A deletion. -/
theorem delete_step (h : s.Inv mtu) {ptr : CbPtr} {stack : UInt16 × Option ProtoArr}
    (hok : s.StepOk (.delete ptr stack)) (hs : recnoStep mtu s (.delete ptr stack) = some t) :
    t.Inv mtu := by
  obtain ⟨entry, hentry, hs⟩ := Option.bind_eq_some_iff.1 hs
  cases entry with
  | none =>
    obtain rfl := Option.some.inj hs
    exact h
  | some a =>
    obtain ⟨port, arr⟩ := a
    obtain ⟨p, hp⟩ : ∃ p, getRecnoSlot port arr = some p :=
      getRecnoSlot_isSome_iff.2 (hok port arr hentry)
    simp only [hp] at hs
    obtain ⟨slots, -, rfl⟩ := Option.map_eq_some_iff.1 hs
    refine ⟨h.rows_append hp, h.entries_of_agree
      (s.tables.process.agreeExcept_setEntry p _).recno (.inl ?_)⟩
    exact s.tables.process.setEntry_recno_self p _

/-- An entry that runs is not zeroed. -/
theorem port_ne_zero (h : s.Inv mtu) {p : RecnoIndex}
    (hrun : (s.tables.process.recno p).run = true) : (s.tables.process.recno p).port ≠ 0 := by
  rcases h.entries p with hzero | hport
  · rw [hzero] at hrun
    cases hrun
  · exact hport

theorem step (h : s.Inv mtu) (e : RecnoEvent) (hok : s.StepOk e)
    (hs : recnoStep mtu s e = some t) : t.Inv mtu := by
  cases e with
  | insert link proto env i => exact h.insert_step hok hs
  | delete ptr stack => exact h.delete_step hok hs
  | work p poolSize poolCount pool cursor =>
    rw [recnoStep] at hs
    split at hs
    · next hrun =>
      obtain rfl := Option.some.inj hs
      refine ⟨h.rows, h.entries_of_agree
        (s.tables.process.agreeExcept_setEntry p _).recno (.inr ?_)⟩
      show ((s.tables.process.setEntry p _).recno p).port ≠ 0
      rw [s.tables.process.setEntry_recno_self]
      exact h.port_ne_zero hrun
    · cases hs
  | memory nodes tcpPool cap =>
    obtain rfl := Option.some.inj hs
    exact ⟨h.rows, h.entries⟩

/-- A sweep over the rows of the table is what it should be. -/
theorem clean (h : s.Inv mtu) (beyond : RecnoAddress → SessionConnectionPool Node) :
    s.CleanShutdown mtu (stopRows mtu 0xFFFF (s.memory beyond)) where
  rows := h.rows
  read a ha := mem_read_stopRows.1 ha
  once p hrun := by
    refine count_cleared_stopRows p.1.isLt ?_
    rw [memory_address]
    exact h.port_ne_zero hrun
  zeroed p := by
    rw [table_stopRows p.1.isLt, memory_address]
    split
    · rfl
    · next hport =>
      rcases h.entries p with hzero | hne
      · exact hzero
      · exact absurd hne hport

end Inv

end SessionRun

variable {mtu : MtuProfile}

/-- **The sweep over the table.**  In every run whose ports have rows, a sweep that ends with the
last row reads nothing else, deletes each live session once and leaves every entry zeroed. -/
theorem stopRows_clean (cb : Bool) (s : SessionTables) (events : List RecnoEvent)
    (hG : Guarded (recnoStep mtu) SessionRun.StepOk (startSessionConnection mtu cb s) events) :
    Always (recnoStep mtu) (fun t ↦ ∀ beyond : RecnoAddress → SessionConnectionPool Node,
      t.CleanShutdown mtu (stopRows mtu 0xFFFF (t.memory beyond)))
      (startSessionConnection mtu cb s) events :=
  always_of_guarded (SessionRun.Inv mtu) (fun _ h beyond ↦ h.clean beyond)
    (fun _ e _ h hok hs ↦ h.step e hok hs) events (.start mtu cb s) hG

/-- The sweep of the source reads the row 0xFFFF. -/
theorem mem_read_stopSessionConnection (recno : RecnoAddress → SessionConnectionPool Node)
    (arr : ProtoArr) : (0xFFFF, arr) ∈ (stopSessionConnection mtu recno).read :=
  mem_read_stopRows.2 (by decide : 0xFFFF < 0x10000)

/-- **The sweep never stays inside.**  After no run of registrations and deletions, whatever their
ports, is the shutdown clean. -/
theorem stopSessionConnection_not_clean (cb : Bool) (s : SessionTables)
    (events : List RecnoEvent) :
    Always (recnoStep mtu) (fun t ↦ ∀ beyond : RecnoAddress → SessionConnectionPool Node,
      ¬ t.CleanShutdown mtu (stopSessionConnection mtu (t.memory beyond)))
      (startSessionConnection mtu cb s) events := by
  refine always_of_invariant (fun _ ↦ True) (fun t _ beyond hclean ↦ ?_)
    (fun _ _ _ _ _ ↦ trivial) events trivial
  have hlt := hclean.read _ (mem_read_stopSessionConnection (t.memory beyond) .udp)
  exact absurd hlt (by decide)

/-- The tables with a `tcp_node` of the pool for a connection from the port 5000. -/
def oneConnection : SessionTables where
  process :=
    { nodes := fun _ ↦ { Node.zero .mtu1500 with port := 5000 }
      tcpPool := fun _ ↦ { ProtocolBaseCb.zero .mtu1500 with proto := .tcp, node := some 0 }
      cap := fun _ ↦ .zero .mtu1500
      recno := fun _ ↦ .zero .mtu1500
      circleBuffer := true }
  slots := .unallocated

/-- Its callback, with memory for the pool. -/
def acceptOne : RecnoEvent :=
  .insert false .tcp
    { mtu := .mtu1500
      results := ⟨true, 0⟩
      current := none
      realloc := none
      deadline := 0
      socketCreateDispatcherFromUri := id } 0

/-- With this one session the sweep is not clean. -/
theorem acceptOne_not_clean :
    ∃ t, run (recnoStep .mtu1500) (startSessionConnection .mtu1500 true oneConnection)
        [acceptOne] = some t ∧
      (t.tables.process.recno (5000, .tcp)).run = true ∧ t.rows = [5000] ∧
      ∀ beyond, ¬ t.CleanShutdown .mtu1500 (stopSessionConnection .mtu1500 (t.memory beyond)) := by
  refine ⟨_, rfl, rfl, rfl, fun beyond hclean ↦ ?_⟩
  exact absurd (hclean.read _ (mem_read_stopSessionConnection _ .udp)) (by decide)

end DmmrOrbit
