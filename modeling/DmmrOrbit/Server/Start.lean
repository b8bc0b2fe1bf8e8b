import DmmrOrbit.Lib.TryBlock
import DmmrOrbit.Parser.Reload

/-!
# Starting the server

`server_start` of `dmmr_server.c`, with what it calls of its six parts: the constructors, the
`start` functions of the circle buffer and of the scheduler, and the `stop` functions that the
rollback uses.  What the memory allocator, `pthread_create` and `fopen` answer is a `StartEnv`.

`AllOrNothing` is what a start should keep to.  Two things speak against it.  Some failures do not
make `server_start` fail: that of the array of the ring, whose `start` returns 0 all the same, and
those of the threads whose result is not looked at.  And `new_dmmr_socket` creates one socket in the
life of the program; the rollback frees that one and leaves the static that says so.  So a start
that fails after the socket is the last that could have worked
(`serverStart_of_socketThis`), and `serverStart_allOrNothing_iff` says exactly which patterns of
failures do no harm.

`pthread_join` of a thread that cannot be joined returns an error, which `stop` ignores.  What
`plugin->load` does is left out: it returns nothing and changes nothing that is modelled here.
-/

set_option autoImplicit false

namespace DmmrOrbit

open TryBlock

/-! ## The parts -/

/-- What a start gets when it asks: memory and threads, the file's text at the two times that it is
opened, and whether the scanner has all the memory it needs. -/
structure StartEnv where
  dmmrParser : Bool
  atSetup : Option (List UInt8)
  yylex : Bool
  atCrc : Option (List UInt8)
  logThread : Bool
  dmmrCircleBuffer : Bool
  buffer : Bool
  fifoThread : Bool
  dmmrSocket : Bool
  cap : Bool
  nbuff : Bool
  dmmrScheduler : Bool
  slots : Bool
  reorderThread : Bool
  sendThread : Bool
  manager : Bool
  dmmrPlugin : Bool

/-- `struct dmmr_circle_buffer`: the entries that are linked, by their index in the array, and which
of them the cursor is at.  Of a thread the field says whether it has been created. -/
structure DmmrCircleBuffer where
  head : List ℕ
  cursor : Option ℕ
  fifoThread : Bool

/-- `struct dmmr_scheduler`. -/
structure DmmrScheduler where
  reorderThread : Bool
  sendThread : Bool

/-- The statics of the server and of its parts.  For a pointer there is a flag that says whether it
is set, or what it points at where that is looked into: a `Bool` in the server and the object in the
module that made it. -/
structure DmmrServer where
  this : Bool
  parser : Bool
  circleBuffer : Bool
  sock : Bool
  scheduler : Bool
  sessionManager : Bool
  plugin : Bool
  dmmrParser : DmmrParser
  logThread : Bool
  circleBufferThis : Option DmmrCircleBuffer
  socketThis : Bool
  schedulerThis : Option DmmrScheduler
  slots : Bool
  managerThis : Bool
  pluginThis : Bool

namespace DmmrServer

/-- After `new_dmmr_server`. -/
def new (cfg : CfgServerServer) : DmmrServer where
  this := true
  parser := false
  circleBuffer := false
  sock := false
  scheduler := false
  sessionManager := false
  plugin := false
  dmmrParser := .zero cfg
  logThread := false
  circleBufferThis := none
  socketThis := false
  schedulerThis := none
  slots := false
  managerThis := false
  pluginThis := false

variable (env : StartEnv) (s : DmmrServer)

/-- `parser = new_dmmr_parser(..)`. -/
def newDmmrParser : DmmrServer := { s with parser := env.dmmrParser }

/-- `parser->load`, when it returns. -/
def load : ℤ × DmmrServer :=
  let (ret, p, _) := parserLoadConfig s.dmmrParser env.atSetup env.atCrc
  (ret, { s with dmmrParser := p })

/-- `rb_log_init`. -/
def rbLogInit : DmmrServer := { s with logThread := env.logThread }

/-- `circle_buffer = new_circle_buffer(..)`. -/
def newCircleBuffer : DmmrServer :=
  if env.dmmrCircleBuffer then
    { s with circleBuffer := true, circleBufferThis := some ⟨[], none, false⟩ }
  else { s with circleBuffer := false }

/-- `start` of the circle buffer. -/
def circleBufferStart : ℤ × DmmrServer :=
  match s.circleBufferThis with
  | none => (eof, s)
  | some cb =>
    if env.buffer then
      -- the loop links one entry before it looks at the size
      let head := List.range (max 1 s.dmmrParser.console.cfgServer.circleBufferSize.toNat)
      (0, { s with
        circleBufferThis :=
          some { cb with head := head, cursor := head.head?, fifoThread := env.fifoThread } })
    else (0, s)

/-- `stop` of the circle buffer. -/
def circleBufferStop : DmmrServer := { s with circleBufferThis := none }

/-- `sock = new_dmmr_socket(..)`, which asks for three pieces of memory. -/
def newDmmrSocket : DmmrServer :=
  if s.socketThis then { s with sock := false }
  else if env.dmmrSocket && env.cap && env.nbuff then { s with sock := true, socketThis := true }
  else { s with sock := false }

/-- `scheduler = new_dmmr_scheduler(..)`. -/
def newDmmrScheduler : DmmrServer :=
  if s.sock && env.dmmrScheduler then
    { s with scheduler := true, schedulerThis := some ⟨false, false⟩ }
  else { s with scheduler := false }

/-- `sched_start`.  `pthread_create` returns 1, say, when it fails. -/
def schedStart : ℤ × DmmrServer :=
  match s.schedulerThis with
  | none => (eof, s)
  | some p =>
    if !env.slots then (eof, { s with slots := false })
    else if !env.reorderThread then (1, { s with slots := true })
    else
      (0, { s with
        slots := true
        schedulerThis := some { p with reorderThread := true, sendThread := env.sendThread } })

/-- `sched_stop`. -/
def schedStop : DmmrServer := { s with slots := false }

/-- `session_manager = new_session_connection_manager(..)`, in which `start_session_connection`
returns 0. -/
def newSessionConnectionManager : DmmrServer :=
  if s.circleBuffer && s.scheduler && s.sock && env.manager then
    { s with sessionManager := true, managerThis := true }
  else { s with sessionManager := false, managerThis := false }

/-- `plugin = new_dmmr_plugin(..)`. -/
def newDmmrPlugin : DmmrServer :=
  if s.sessionManager then { s with plugin := env.dmmrPlugin, pluginThis := env.dmmrPlugin }
  else { s with plugin := s.pluginThis }

/-! ## The start -/

/-- The `RB_TRY` block of `server_start`. -/
def tryBlock : Command DmmrServer :=
  block [
    create (newDmmrParser env) parser,
    -- in `load`, the scanner ends the process when it gets no memory
    exitIf (env.atSetup.isSome && !env.yylex),
    call (load env),
    assign (rbLogInit env),
    create (newCircleBuffer env) circleBuffer,
    call (circleBufferStart env),
    create (newDmmrSocket env) sock,
    create (newDmmrScheduler env) scheduler,
    call (schedStart env),
    create (newSessionConnectionManager env) sessionManager,
    create (newDmmrPlugin env) plugin]

/-- The `RB_CATCH` block. -/
def rollback : DmmrServer :=
  let s := if s.plugin then { s with plugin := false } else s
  let s := if s.sessionManager then { s with sessionManager := false } else s
  let s := if s.scheduler then { s.schedStop with scheduler := false } else s
  let s := if s.sock then { s with sock := false } else s
  let s := if s.circleBuffer then { s.circleBufferStop with circleBuffer := false } else s
  if s.parser then { s with parser := false } else s

end DmmrServer

/-- `server_start`: what it returns, if the process has not ended. -/
def serverStart (env : StartEnv) (s : DmmrServer) : Option (ℤ × DmmrServer) :=
  if !s.this then some (eof, s)
  else match DmmrServer.tryBlock env s with
    | .done s => some (0, s)
    | .thrown s => some (eof, s.rollback)
    | .exited => none

/-- The ring has been built, and its thread created. -/
def DmmrServer.RingBuilt (s : DmmrServer) : Prop :=
  ∃ cb, s.circleBufferThis = some cb ∧ cb.cursor ≠ none ∧ cb.fifoThread = true

/-- The threads of the scheduler have been created. -/
def DmmrServer.ThreadsCreated (s : DmmrServer) : Prop :=
  ∃ p, s.schedulerThis = some p ∧ p.reorderThread = true ∧ p.sendThread = true

/-- The server has all it needs. -/
structure DmmrServer.Started (s : DmmrServer) : Prop where
  ring : s.RingBuilt
  threads : s.ThreadsCreated
  sessionManager : s.sessionManager = true
  plugin : s.plugin = true

/-- The start gets as far as the socket. -/
structure StartEnv.ReachesSocket (env : StartEnv) : Prop where
  dmmrParser : env.dmmrParser = true
  atSetup : env.atSetup.isSome = true
  yylex : env.yylex = true
  dmmrCircleBuffer : env.dmmrCircleBuffer = true
  dmmrSocket : env.dmmrSocket = true
  cap : env.cap = true
  nbuff : env.nbuff = true

/-- What makes a start fail after the socket does not. -/
structure StartEnv.Completes (env : StartEnv) : Prop where
  dmmrScheduler : env.dmmrScheduler = true
  slots : env.slots = true
  reorderThread : env.reorderThread = true
  manager : env.manager = true
  dmmrPlugin : env.dmmrPlugin = true

/-- Nor is anything else missing. -/
structure StartEnv.Granted (env : StartEnv) : Prop extends env.Completes where
  buffer : env.buffer = true
  fifoThread : env.fifoThread = true
  sendThread : env.sendThread = true

/-- Nothing fails. -/
structure StartEnv.Ok (env : StartEnv) : Prop extends env.ReachesSocket, env.Granted where
  atCrc : env.atCrc.isSome = true
  logThread : env.logThread = true

/-- An environment where everything is there. -/
def StartEnv.all (text : List UInt8) : StartEnv :=
  ⟨true, some text, true, some text, true, true, true, true, true, true, true, true, true, true,
    true, true, true⟩

theorem StartEnv.ok_all (text : List UInt8) : (StartEnv.all text).Ok :=
  ⟨⟨rfl, rfl, rfl, rfl, rfl, rfl, rfl⟩, ⟨⟨rfl, rfl, rfl, rfl, rfl⟩, rfl, rfl, rfl⟩, rfl, rfl⟩

/-- A start in this environment either provides everything and returns 0, or it returns `EOF` and
does not keep a later one from working. -/
def AllOrNothing (env : StartEnv) (s : DmmrServer) : Prop :=
  ∀ ret t, serverStart env s = some (ret, t) →
    (ret = 0 → t.Started) ∧
      (ret = eof → ∀ env' : StartEnv, env'.Ok → ∃ u, serverStart env' t = some (0, u))

/-! ## The socket is made once -/

namespace DmmrServer

variable {env : StartEnv} {s t : DmmrServer} {made : Bool} {E : Prop}

/-- The server is there, and the static of `dmmr_socket.c` says whether a socket has been made. -/
structure Socket (made : Bool) (s : DmmrServer) : Prop where
  this : s.this = true
  socketThis : s.socketThis = made

namespace Socket

/-! Only `new_dmmr_socket` looks at that static. -/

theorem newCircleBuffer (h : Socket made s) : Socket made (s.newCircleBuffer env) := by
  rw [DmmrServer.newCircleBuffer]
  split
  · exact ⟨h.this, h.socketThis⟩
  · exact ⟨h.this, h.socketThis⟩

theorem circleBufferStart (h : Socket made s) : Socket made (s.circleBufferStart env).2 := by
  rw [DmmrServer.circleBufferStart]
  split
  · exact h
  · split
    · exact ⟨h.this, h.socketThis⟩
    · exact h

theorem newDmmrScheduler (h : Socket made s) : Socket made (s.newDmmrScheduler env) := by
  rw [DmmrServer.newDmmrScheduler]
  split
  · exact ⟨h.this, h.socketThis⟩
  · exact ⟨h.this, h.socketThis⟩

theorem schedStart (h : Socket made s) : Socket made (s.schedStart env).2 := by
  rw [DmmrServer.schedStart]
  split
  · exact h
  · split
    · exact ⟨h.this, h.socketThis⟩
    · split
      · exact ⟨h.this, h.socketThis⟩
      · exact ⟨h.this, h.socketThis⟩

theorem newSessionConnectionManager (h : Socket made s) :
    Socket made (s.newSessionConnectionManager env) := by
  rw [DmmrServer.newSessionConnectionManager]
  split
  · exact ⟨h.this, h.socketThis⟩
  · exact ⟨h.this, h.socketThis⟩

theorem newDmmrPlugin (h : Socket made s) : Socket made (s.newDmmrPlugin env) := by
  rw [DmmrServer.newDmmrPlugin]
  split
  · exact ⟨h.this, h.socketThis⟩
  · exact ⟨h.this, h.socketThis⟩

theorem ite {c : Bool} (h : Socket made s) (ht : Socket made t) :
    Socket made (if c then t else s) := by
  cases c with
  | true => exact ht
  | false => exact h

theorem rollback (h : Socket made s) : Socket made s.rollback := by
  unfold DmmrServer.rollback
  extract_lets s₁ s₂ _ s₃ s₄ _ s₅
  have h₁ : Socket made s₁ := h.ite (by exact ⟨h.this, h.socketThis⟩)
  have h₂ : Socket made s₂ := h₁.ite (by exact ⟨h₁.this, h₁.socketThis⟩)
  have h₃ : Socket made s₃ := h₂.ite (by exact ⟨h₂.this, h₂.socketThis⟩)
  have h₄ : Socket made s₄ := h₃.ite (by exact ⟨h₃.this, h₃.socketThis⟩)
  have h₅ : Socket made s₅ := h₄.ite (by exact ⟨h₄.this, h₄.socketThis⟩)
  exact h₅.ite (by exact ⟨h₅.this, h₅.socketThis⟩)

/-- As far as the socket. -/
theorem untilSocket {fs : List (Command DmmrServer)} {Q R : DmmrServer → Prop}
    (hmade : ∀ s, Socket made s → R s) (h : Triple (Socket made) (block fs) Q R True) :
    Triple (Socket made) (block (
      create (newDmmrParser env) parser :: exitIf (env.atSetup.isSome && !env.yylex) ::
        call (load env) :: assign (rbLogInit env) ::
        create (DmmrServer.newCircleBuffer env) circleBuffer ::
        call (DmmrServer.circleBufferStart env) :: fs)) Q R True := by
  refine .cons (Q := Socket made) (.create (fun _ h _ ↦ ⟨h.this, h.socketThis⟩)
    (fun _ h _ ↦ hmade _ ⟨h.this, h.socketThis⟩)) ?_
  refine .cons (Q := Socket made) (.exitIf (fun _ _ h ↦ h) fun _ ↦ trivial) ?_
  refine .cons (Q := Socket made) (.call (fun _ h _ ↦ ⟨h.this, h.socketThis⟩)
    (fun _ h _ ↦ hmade _ ⟨h.this, h.socketThis⟩)) ?_
  refine .cons (Q := Socket made) (.assign fun _ h ↦ ⟨h.this, h.socketThis⟩) ?_
  refine .cons (Q := Socket made) (.create (fun _ h _ ↦ h.newCircleBuffer)
    fun _ h _ ↦ hmade _ h.newCircleBuffer) ?_
  exact .cons (.call (fun _ h _ ↦ h.circleBufferStart) fun _ h _ ↦ hmade _ h.circleBufferStart) h

end Socket

/-- A second socket is not made. -/
theorem triple_tryBlock_true :
    Triple (Socket true) (tryBlock env) (fun _ ↦ False) (Socket true) True := by
  refine Socket.untilSocket (fun _ h ↦ h) (.cons_throws (.create ?_ ?_))
  · intro s h hsock
    rw [newDmmrSocket, if_pos h.socketThis] at hsock
    exact Bool.noConfusion hsock
  · intro s h _
    rw [newDmmrSocket, if_pos h.socketThis]
    exact ⟨h.this, h.socketThis⟩

theorem eof_ne_zero : eof ≠ 0 := by decide

theorem load_none (h : env.atSetup = none) : (s.load env).1 = eof := by
  rw [load, h, (parserLoadConfig_none s.dmmrParser env.atCrc).choose_spec]

theorem load_some (h : env.atSetup.isSome = true) : (s.load env).1 = 0 := by
  obtain ⟨text, htext⟩ := Option.isSome_iff_exists.1 h
  rw [load, htext, (parserLoadConfig_some s.dmmrParser text env.atCrc).choose_spec.1]

/-- A start that does not reach the socket leaves it to the next one. -/
theorem triple_tryBlock_of_not_reachesSocket (h : ¬ env.ReachesSocket) :
    Triple (Socket false) (tryBlock env) (fun _ ↦ False) (Socket false) True := by
  by_cases hsocket : (env.dmmrSocket && env.cap && env.nbuff) = true
  · refine .cons (Q := fun s ↦ Socket false s ∧ env.dmmrParser = true)
      (.create (fun _ h hmade ↦ ⟨⟨h.this, h.socketThis⟩, hmade⟩)
        fun _ h _ ↦ ⟨h.this, h.socketThis⟩) ?_
    refine .cons (Q := fun s ↦ Socket false s ∧ env.dmmrParser = true ∧
      (env.atSetup.isSome = true → env.yylex = true))
      (.exitIf (fun hyylex s hs ↦ ⟨hs.1, hs.2, by simpa using hyylex⟩) fun _ ↦ trivial) ?_
    refine .cons (Q := fun s ↦ Socket false s ∧ env.dmmrParser = true ∧
      env.atSetup.isSome = true ∧ env.yylex = true)
      (.call (fun s hs hret ↦ ?_) fun _ hs _ ↦ ⟨hs.1.this, hs.1.socketThis⟩) ?_
    · have hsetup : env.atSetup.isSome = true := by
        by_contra hnone
        rw [load_none (by simpa using hnone)] at hret
        exact eof_ne_zero hret
      exact ⟨⟨hs.1.this, hs.1.socketThis⟩, hs.2.1, hsetup, hs.2.2 hsetup⟩
    refine .cons (Q := fun s ↦ Socket false s ∧ env.dmmrParser = true ∧
      env.atSetup.isSome = true ∧ env.yylex = true)
      (.assign fun _ hs ↦ ⟨⟨hs.1.this, hs.1.socketThis⟩, hs.2⟩) ?_
    refine .cons_throws (.create (fun s hs hmade ↦ ?_) fun s hs _ ↦ hs.1.newCircleBuffer)
    have hcircle : env.dmmrCircleBuffer = true := by
      by_contra hnone
      rw [newCircleBuffer, if_neg hnone] at hmade
      exact Bool.noConfusion hmade
    rw [Bool.and_eq_true, Bool.and_eq_true] at hsocket
    exact h ⟨hs.2.1, hs.2.2.1, hs.2.2.2, hcircle, hsocket.1.1, hsocket.1.2, hsocket.2⟩
  · have hnone (s : DmmrServer) (hs : Socket false s) :
        s.newDmmrSocket env = { s with sock := false } := by
      rw [newDmmrSocket, if_neg (by simp [hs.socketThis]), if_neg hsocket]
    refine Socket.untilSocket (fun _ h ↦ h) (.cons_throws (.create ?_ ?_))
    · intro s hs hsock
      rw [hnone s hs] at hsock
      exact Bool.noConfusion hsock
    · intro s hs _
      rw [hnone s hs]
      exact ⟨hs.this, hs.socketThis⟩

/-! ## After the socket -/

/-- The circle buffer has been started. -/
structure AfterRing (env : StartEnv) (s : DmmrServer) : Prop extends Socket false s where
  circleBuffer : s.circleBuffer = true
  ring : s.RingBuilt ↔ env.buffer = true ∧ env.fifoThread = true

/-- The socket has been made. -/
structure AfterSocket (env : StartEnv) (s : DmmrServer) : Prop extends Socket true s where
  circleBuffer : s.circleBuffer = true
  ring : s.RingBuilt ↔ env.buffer = true ∧ env.fifoThread = true
  sock : s.sock = true

/-- The scheduler has been started. -/
structure AfterScheduler (env : StartEnv) (s : DmmrServer) : Prop extends AfterSocket env s where
  scheduler : s.scheduler = true
  threads : s.ThreadsCreated ↔ env.sendThread = true

/-- `start` of a new circle buffer. -/
theorem AfterRing.circleBufferStart (hs : Socket false s) (hc : s.circleBuffer = true)
    (hcb : s.circleBufferThis = some ⟨[], none, false⟩) :
    (s.circleBufferStart env).1 = 0 ∧ AfterRing env (s.circleBufferStart env).2 := by
  rw [DmmrServer.circleBufferStart, hcb]
  dsimp only
  by_cases hbuffer : env.buffer = true
  · rw [if_pos hbuffer]
    refine ⟨rfl, ⟨hs.this, hs.socketThis⟩, hc, ?_⟩
    simp [RingBuilt, hbuffer, List.head?_eq_none_iff]
  · rw [if_neg hbuffer]
    refine ⟨rfl, hs, hc, ?_⟩
    simp [RingBuilt, hbuffer, hcb]

theorem AfterRing.newDmmrSocket (h : env.ReachesSocket) (hs : AfterRing env s) :
    AfterSocket env (s.newDmmrSocket env) := by
  rw [DmmrServer.newDmmrSocket, hs.socketThis, h.dmmrSocket, h.cap, h.nbuff]
  exact ⟨⟨hs.this, rfl⟩, hs.circleBuffer, hs.ring, rfl⟩

/-- As far as the socket, when nothing fails before. -/
theorem triple_untilSocket (h : env.ReachesSocket) {fs : List (Command DmmrServer)}
    {Q R : DmmrServer → Prop} (hfs : Triple (AfterSocket env) (block fs) Q R E) :
    Triple (Socket false) (block (
      create (newDmmrParser env) parser :: exitIf (env.atSetup.isSome && !env.yylex) ::
        call (load env) :: assign (rbLogInit env) ::
        create (newCircleBuffer env) circleBuffer :: call (circleBufferStart env) ::
        create (newDmmrSocket env) sock :: fs)) Q R E := by
  refine .cons (Q := Socket false) (.create (fun _ hs _ ↦ ⟨hs.this, hs.socketThis⟩) ?_) ?_
  · exact fun _ _ hmade ↦ absurd (h.dmmrParser.symm.trans hmade) Bool.noConfusion
  refine .cons (Q := Socket false) (.exitIf (fun _ _ hs ↦ hs) ?_) ?_
  · simp [h.yylex]
  refine .cons (Q := Socket false) (.call (fun _ hs _ ↦ ⟨hs.this, hs.socketThis⟩) ?_) ?_
  · exact fun _ _ hret ↦ absurd (load_some h.atSetup) hret
  refine .cons (Q := Socket false) (.assign fun _ hs ↦ ⟨hs.this, hs.socketThis⟩) ?_
  refine .cons (Q := fun s ↦ Socket false s ∧ s.circleBuffer = true ∧
    s.circleBufferThis = some ⟨[], none, false⟩) (.create ?_ ?_) ?_
  · intro s hs _
    rw [newCircleBuffer, if_pos h.dmmrCircleBuffer]
    exact ⟨⟨hs.this, hs.socketThis⟩, rfl, rfl⟩
  · intro s hs hmade
    rw [newCircleBuffer, if_pos h.dmmrCircleBuffer] at hmade
    exact Bool.noConfusion hmade
  refine .cons (Q := AfterRing env) (.call ?_ ?_) ?_
  · exact fun s hs _ ↦ (AfterRing.circleBufferStart hs.1 hs.2.1 hs.2.2).2
  · exact fun s hs hret ↦ absurd (AfterRing.circleBufferStart hs.1 hs.2.1 hs.2.2).1 hret
  refine .cons (.create (fun s hs _ ↦ hs.newDmmrSocket h) ?_) hfs
  exact fun s hs hmade ↦ absurd ((hs.newDmmrSocket h).sock.symm.trans hmade) Bool.noConfusion

theorem AfterSocket.newDmmrScheduler (h : env.dmmrScheduler = true) (hs : AfterSocket env s) :
    s.newDmmrScheduler env =
      { s with scheduler := true, schedulerThis := some ⟨false, false⟩ } := by
  rw [DmmrServer.newDmmrScheduler, hs.sock, h]
  rfl

theorem schedStart_of_some {p : DmmrScheduler} (hthis : s.schedulerThis = some p)
    (hslots : env.slots = true) (hreorder : env.reorderThread = true) :
    s.schedStart env = (0, { s with
      slots := true
      schedulerThis := some { p with reorderThread := true, sendThread := env.sendThread } }) := by
  rw [schedStart, hthis, hslots, hreorder]
  rfl

/-- Without the array of the slots or the first thread, `sched_start` fails. -/
theorem schedStart_ne_zero (h : ¬ (env.slots = true ∧ env.reorderThread = true)) :
    (s.schedStart env).1 ≠ 0 := by
  rw [schedStart]
  split
  · exact eof_ne_zero
  · split
    · exact eof_ne_zero
    · next hslots =>
      split
      · exact one_ne_zero
      · next hreorder => exact absurd ⟨by simpa using hslots, by simpa using hreorder⟩ h

/-- When nothing fails after the socket, there is a server; what it may lack are threads and the
ring. -/
theorem triple_afterSocket (h : env.Completes) :
    Triple (AfterSocket env)
      (block [create (newDmmrScheduler env) scheduler, call (schedStart env),
        create (newSessionConnectionManager env) sessionManager,
        create (newDmmrPlugin env) plugin])
      (fun t ↦ t.Started ↔ env.Granted) (fun _ ↦ False) False := by
  refine .cons (Q := fun s ↦ AfterSocket env s ∧ s.scheduler = true ∧
    s.schedulerThis = some ⟨false, false⟩) (.create ?_ ?_) ?_
  · intro s hs _
    rw [hs.newDmmrScheduler h.dmmrScheduler]
    exact ⟨⟨⟨hs.this, hs.socketThis⟩, hs.circleBuffer, hs.ring, hs.sock⟩, rfl, rfl⟩
  · intro s hs hmade
    rw [hs.newDmmrScheduler h.dmmrScheduler] at hmade
    exact Bool.noConfusion hmade
  refine .cons (Q := AfterScheduler env) (.call ?_ ?_) ?_
  · rintro s ⟨hs, hscheduler, hthis⟩ _
    rw [schedStart_of_some hthis h.slots h.reorderThread]
    exact ⟨⟨⟨hs.this, hs.socketThis⟩, hs.circleBuffer, hs.ring, hs.sock⟩, hscheduler,
      by simp [ThreadsCreated]⟩
  · rintro s ⟨hs, hscheduler, hthis⟩ hret
    rw [schedStart_of_some hthis h.slots h.reorderThread] at hret
    exact absurd rfl hret
  have hmanager (s : DmmrServer) (hs : AfterScheduler env s) :
      s.newSessionConnectionManager env =
        { s with sessionManager := true, managerThis := true } := by
    rw [newSessionConnectionManager, hs.circleBuffer, hs.scheduler, hs.sock, h.manager]
    rfl
  refine .cons (Q := fun s ↦ AfterScheduler env s ∧ s.sessionManager = true) (.create ?_ ?_) ?_
  · intro s hs _
    rw [hmanager s hs]
    exact ⟨⟨⟨⟨hs.this, hs.socketThis⟩, hs.circleBuffer, hs.ring, hs.sock⟩, hs.scheduler,
      hs.threads⟩, rfl⟩
  · intro s hs hmade
    rw [hmanager s hs] at hmade
    exact Bool.noConfusion hmade
  refine .cons (.create ?_ ?_) .nil
  · rintro s ⟨hs, hsession⟩ -
    rw [newDmmrPlugin, if_pos hsession]
    constructor
    · intro ht
      obtain ⟨hbuffer, hfifo⟩ := hs.ring.1 ht.ring
      exact ⟨h, hbuffer, hfifo, hs.threads.1 ht.threads⟩
    · intro hg
      exact ⟨hs.ring.2 ⟨hg.buffer, hg.fifoThread⟩, hs.threads.2 hg.sendThread, hsession,
        h.dmmrPlugin⟩
  · rintro s ⟨hs, hsession⟩ hmade
    rw [newDmmrPlugin, if_pos hsession] at hmade
    exact absurd (h.dmmrPlugin.symm.trans hmade) Bool.noConfusion

/-- When something fails after the socket, there is none. -/
theorem triple_afterSocket_of_not_completes (h : ¬ env.Completes) :
    Triple (Socket true)
      (block [create (newDmmrScheduler env) scheduler, call (schedStart env),
        create (newSessionConnectionManager env) sessionManager,
        create (newDmmrPlugin env) plugin])
      (fun _ ↦ False) (Socket true) False := by
  by_cases hsched : env.slots = true ∧ env.reorderThread = true
  · refine .cons (Q := fun s ↦ Socket true s ∧ env.dmmrScheduler = true) (.create ?_ ?_) ?_
    · intro s hs hmade
      refine ⟨hs.newDmmrScheduler, ?_⟩
      by_contra hnone
      rw [newDmmrScheduler, if_neg (by simp [hnone])] at hmade
      exact Bool.noConfusion hmade
    · exact fun s hs _ ↦ hs.newDmmrScheduler
    refine .cons (Q := fun s ↦ Socket true s ∧ env.dmmrScheduler = true)
      (.call (fun s hs _ ↦ ⟨hs.1.schedStart, hs.2⟩) fun s hs _ ↦ hs.1.schedStart) ?_
    refine .cons (Q := fun s ↦ Socket true s ∧ s.sessionManager = true ∧
      env.dmmrScheduler = true ∧ env.manager = true) (.create ?_ ?_) ?_
    · intro s hs hmade
      refine ⟨hs.1.newSessionConnectionManager, hmade, hs.2, ?_⟩
      by_contra hnone
      rw [newSessionConnectionManager, if_neg (by simp [hnone])] at hmade
      exact Bool.noConfusion hmade
    · exact fun s hs _ ↦ hs.1.newSessionConnectionManager
    refine .cons_throws (.create ?_ fun s hs _ ↦ hs.1.newDmmrPlugin)
    intro s hs hmade
    rw [newDmmrPlugin, if_pos hs.2.1] at hmade
    exact h ⟨hs.2.2.1, hsched.1, hsched.2, hs.2.2.2, hmade⟩
  · refine .cons (Q := Socket true)
      (.create (fun s hs _ ↦ hs.newDmmrScheduler) fun s hs _ ↦ hs.newDmmrScheduler) ?_
    exact .cons_throws (.call (fun s _ hret ↦ schedStart_ne_zero hsched hret)
      fun s hs _ ↦ hs.schedStart)

end DmmrServer

open DmmrServer

/-! ## Two starts -/

section

variable {env : StartEnv} {s t : DmmrServer} {ret : ℤ}

/-- What a triple for the `RB_TRY` block says about the start. -/
theorem serverStart_of_triple {P Q R : DmmrServer → Prop} {E : Prop}
    (h : Triple P (tryBlock env) Q R E) (hs : P s) (hthis : s.this = true) :
    (∃ t, serverStart env s = some (0, t) ∧ Q t) ∨
      (∃ t, serverStart env s = some (eof, t.rollback) ∧ R t) ∨
      serverStart env s = none ∧ E := by
  have htry := h s hs
  rw [serverStart, hthis]
  cases hres : tryBlock env s with
  | done t =>
    rw [hres] at htry
    exact .inl ⟨t, rfl, htry⟩
  | thrown t =>
    rw [hres] at htry
    exact .inr (.inl ⟨t, rfl, htry⟩)
  | exited =>
    rw [hres] at htry
    exact .inr (.inr ⟨rfl, htry⟩)

/-- When the `RB_TRY` block cannot come to its end, the start fails. -/
theorem serverStart_of_throws {P : DmmrServer → Prop} {made : Bool}
    (h : Triple P (tryBlock env) (fun _ ↦ False) (Socket made) True) (hs : P s)
    (hthis : s.this = true) (ht : serverStart env s = some (ret, t)) :
    ret = eof ∧ Socket made t := by
  rcases serverStart_of_triple h hs hthis with ⟨u, _, hfalse⟩ | ⟨u, hu, hmade⟩ | ⟨hnone, -⟩
  · exact hfalse.elim
  · obtain ⟨rfl, rfl⟩ := Prod.mk.inj (Option.some.inj (hu.symm.trans ht))
    exact ⟨rfl, hmade.rollback⟩
  · exact absurd (hnone.symm.trans ht) (Option.some_ne_none _).symm

/-- Once there is a socket, no start works. -/
theorem serverStart_of_socketThis (hs : Socket true s) (ht : serverStart env s = some (ret, t)) :
    ret = eof ∧ Socket true t :=
  serverStart_of_throws triple_tryBlock_true hs hs.this ht

/-- A start that does not reach the socket changes nothing for the next one. -/
theorem serverStart_of_not_reachesSocket (h : ¬ env.ReachesSocket) (hs : Socket false s)
    (ht : serverStart env s = some (ret, t)) : ret = eof ∧ Socket false t :=
  serverStart_of_throws (triple_tryBlock_of_not_reachesSocket h) hs hs.this ht

/-- A start that fails after the socket leaves it behind. -/
theorem serverStart_of_not_completes (h : env.ReachesSocket) (hc : ¬ env.Completes)
    (hs : Socket false s) : ∃ t, serverStart env s = some (eof, t) ∧ Socket true t := by
  have hafter := (triple_afterSocket_of_not_completes hc).mono
    (fun s (hs : AfterSocket env s) ↦ hs.toSocket) (fun _ h ↦ h) (fun _ h ↦ h) id
  rcases serverStart_of_triple (triple_untilSocket h hafter) hs hs.this with
    ⟨_, _, hfalse⟩ | ⟨t, ht, hsocket⟩ | ⟨_, hfalse⟩
  · exact hfalse.elim
  · exact ⟨_, ht, hsocket.rollback⟩
  · exact hfalse.elim

/-- A start in which nothing makes it fail. -/
theorem serverStart_of_completes (h : env.ReachesSocket) (hc : env.Completes)
    (hs : Socket false s) :
    ∃ t, serverStart env s = some (0, t) ∧ (t.Started ↔ env.Granted) := by
  rcases serverStart_of_triple (triple_untilSocket h (triple_afterSocket hc)) hs hs.this with
    hdone | ⟨_, _, hfalse⟩ | ⟨_, hfalse⟩
  · exact hdone
  · exact hfalse.elim
  · exact hfalse.elim

end

/-- **A start is all or nothing** exactly when what it needs after the socket is there, if it gets
that far. -/
theorem serverStart_allOrNothing_iff (env : StartEnv) (cfg : CfgServerServer) :
    AllOrNothing env (.new cfg) ↔ (env.ReachesSocket → env.Granted) := by
  have hnew : Socket false (.new cfg) := ⟨rfl, rfl⟩
  by_cases hreach : env.ReachesSocket
  · by_cases hc : env.Completes
    · obtain ⟨t, ht, hstarted⟩ := serverStart_of_completes hreach hc hnew
      constructor
      · exact fun hall _ ↦ hstarted.1 ((hall 0 t ht).1 rfl)
      · intro hg ret u hu
        obtain ⟨rfl, rfl⟩ := Prod.mk.inj (Option.some.inj (ht.symm.trans hu))
        exact ⟨fun _ ↦ hstarted.2 (hg hreach), fun h ↦ absurd h.symm eof_ne_zero⟩
    · obtain ⟨t, ht, hsocket⟩ := serverStart_of_not_completes hreach hc hnew
      refine iff_of_false (fun hall ↦ ?_) fun hg ↦ hc (hg hreach).toCompletes
      obtain ⟨u, hu⟩ := (hall eof t ht).2 rfl (.all []) (StartEnv.ok_all [])
      exact eof_ne_zero (serverStart_of_socketThis hsocket hu).1.symm
  · refine iff_of_true (fun ret t ht ↦ ?_) fun h ↦ absurd h hreach
    obtain ⟨rfl, hsocket⟩ := serverStart_of_not_reachesSocket hreach hnew ht
    refine ⟨fun h ↦ absurd h eof_ne_zero, fun _ env' hok ↦ ?_⟩
    obtain ⟨u, hu, -⟩ := serverStart_of_completes hok.toReachesSocket hok.toCompletes hsocket
    exact ⟨u, hu⟩

/-- Only the last piece of memory, that of the plugin, is not there: the next start fails too. -/
theorem serverStart_not_allOrNothing :
    ¬ ∀ (env : StartEnv) (cfg : CfgServerServer), AllOrNothing env (.new cfg) := by
  intro h
  let env : StartEnv := { StartEnv.all [] with dmmrPlugin := false }
  have hreach : env.ReachesSocket := ⟨rfl, rfl, rfl, rfl, rfl, rfl, rfl⟩
  have hc : ¬ env.Completes := fun hc ↦ Bool.noConfusion hc.dmmrPlugin
  have hnew : Socket false (.new .zero) := ⟨rfl, rfl⟩
  obtain ⟨t, ht, hsocket⟩ := serverStart_of_not_completes hreach hc hnew
  obtain ⟨u, hu⟩ := (h env .zero eof t ht).2 rfl (.all []) (StartEnv.ok_all [])
  exact eof_ne_zero (serverStart_of_socketThis hsocket hu).1.symm

end DmmrOrbit
