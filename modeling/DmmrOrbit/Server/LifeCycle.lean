import DmmrOrbit.Server.Start

/-!
# The life of the program

`main` of `main.c` with `run_foreground`, and `dmmr_daemon.c`.  In the foreground the server is
created and started, and then it runs turn after turn, where a turn is a sleep and a call of
`parser->run`, until a signal has cleared `run`.  As a daemon it is created in a second child and
then runs one turn.

A step is one of these calls, or a signal at any point between them.  `main_law` says what comes of
it: the program only serves in the foreground, after a `server_start` that has returned 0; where it
was asked to run without one, it goes through the null pointer `parser` in its first turn; and it
returns 0 only after a signal that came when the loop had begun.  As long as it runs, its parser is
one that has loaded the configuration once and reloads it in each turn, so that what holds over the
runs of `parserStep` holds over the life of the server.

What the forks leave in the other processes is not followed, and the texts that go to `stderr` and
to the log are left out.
-/

set_option autoImplicit false

namespace DmmrOrbit

open Transition TryBlock

/-! ## One turn of the server -/

/-- What a turn finds: the file at its two opens, and whether the scanner gets the memory it asks
for. -/
structure Turn where
  atCrc : Option (List UInt8)
  atSetup : Option (List UInt8)
  yylex : Bool

/-- How a turn ends: it goes through a null pointer, the scanner ends the process, or it returns. -/
inductive TurnEnd
  | fault
  | exited
  | returned (status : ℤ) (s : DmmrServer)

/-- `server_run`, with `this` set, and `server_proc`. -/
def serverRun (s : DmmrServer) (turn : Turn) : TurnEnd :=
  if !s.parser then .fault
  else
    let (p, text) := parserReloadConfig s.dmmrParser turn.atCrc turn.atSetup
    if text.isSome && !turn.yylex then .exited else .returned 0 { s with dmmrParser := p }

/-! ## The daemon -/

/-- What `fork` returns: in the child, in the parent, or an error. -/
inductive Fork
  | child
  | parent
  | error
  deriving DecidableEq, Repr

/-- What `main` gets when it asks, as a daemon and in the foreground: the memory of the daemon, its
two forks and its session, the two signal handlers, and the memory of the server. -/
structure MainEnv where
  dmmrDaemon : Bool
  fork : Fork
  setsid : Bool
  fork' : Fork
  handlers : Bool
  dmmrServer : Bool

/-- `daemonize`: the process goes on, it throws, or it ends. -/
def daemonize (env : MainEnv) : Outcome Unit :=
  match env.fork with
  | .parent => .exited
  | .error => .thrown ()
  | .child =>
    if !env.setsid then .thrown ()
    else
      match env.fork' with
      | .parent => .exited
      | .error => .thrown ()
      | .child => .done ()

/-- `daemon_start`: what it returns and whether there is a server, if the process goes on.  The
`RB_CATCH` block returns 0 as well. -/
def daemonStart (env : MainEnv) : Option (ℤ × Bool) :=
  match daemonize env with
  | .exited => none
  | .thrown _ => some (0, false)
  | .done _ => some (0, env.dmmrServer)

/-! ## The program -/

/-- Where the program is: at the beginning, before `server->start`, before `run = !0`, before
`server->run`, before the test of `run`, in `daemon->run`; or it has returned from `main`, ended
elsewhere, or gone through a null pointer. -/
inductive MainPc
  | entry
  | starting
  | entering
  | turning
  | testing
  | daemonRun (srv : Bool)
  | returned (ret : ℤ)
  | exited
  | fault
  deriving DecidableEq, Repr

/-- The program, with the `run` of `main.c`.  The last three fields are the history: what
`server->start` has returned, the calls of the parser, and whether a signal has come since `run` was
set. -/
structure Program where
  pc : MainPc
  run : Bool
  server : DmmrServer
  started : Option ℤ
  calls : List ParserEvent
  signalled : Bool

def Program.start (cfg : CfgServerServer) : Program := ⟨.entry, false, .new cfg, none, [], false⟩

inductive MainEvent
  | boot (env : MainEnv)
  | start (env : StartEnv)
  | enter
  | turn (turn : Turn)
  | test
  /-- `SIGINT` or `SIGTERM`. -/
  | signal

/-- The handlers are there, and nothing has taken them away. -/
def MainPc.Handles : MainPc → Prop
  | .starting | .entering | .turning | .testing => True
  | _ => False

instance : DecidablePred MainPc.Handles := fun pc ↦ by
  cases pc <;> unfold MainPc.Handles <;> infer_instance

/-- `main`, after `process_args` has set `cfg.daemonize`. -/
def mainStep (daemon : Bool) (s : Program) : MainEvent → Option Program
  | .boot env =>
    if s.pc = .entry then
      if daemon then
        if !env.dmmrDaemon then some { s with pc := .exited }
        else
          match daemonStart env with
          | none => some { s with pc := .exited }
          | some (ret, srv) => some { s with pc := if ret ≠ 0 then .exited else .daemonRun srv }
      else if !env.handlers || !env.dmmrServer then some { s with pc := .returned eof }
      else some { s with pc := .starting }
    else none
  | .start env =>
    if s.pc = .starting then
      let calls := if env.dmmrParser then [.load env.atSetup env.atCrc] else []
      match serverStart env s.server with
      | none => some { s with pc := .exited }
      | some (ret, t) =>
        some { s with pc := .entering, server := t, started := some ret, calls := s.calls ++ calls }
    else none
  | .enter =>
    if s.pc = .entering then some { s with pc := .turning, run := true, signalled := false }
    else none
  | .turn turn =>
    let calls := s.calls ++ [.reload turn.atCrc turn.atSetup]
    match s.pc with
    | .turning =>
      match serverRun s.server turn with
      | .fault => some { s with pc := .fault }
      | .exited => some { s with pc := .exited }
      | .returned status t =>
        if status ≠ 0 then some { s with pc := .returned 0, server := t, calls := calls }
        else some { s with pc := .testing, server := t, calls := calls }
    | .daemonRun srv =>
      if !srv then some { s with pc := .returned eof }
      else
        match serverRun s.server turn with
        | .fault => some { s with pc := .fault }
        | .exited => some { s with pc := .exited }
        | .returned status t => some { s with pc := .returned status, server := t, calls := calls }
    | _ => none
  | .test =>
    if s.pc = .testing then
      -- out of the loop the server is stopped and freed, and `run_foreground` returns 0
      some { s with pc := if s.run then .turning else .returned 0 }
    else none
  | .signal => if s.pc.Handles then some { s with run := false, signalled := true } else none

/-! ## What the start leaves to the parser -/

/-- What `load` makes of the parser of a new server. -/
def StartEnv.loaded (env : StartEnv) (cfg : CfgServerServer) : DmmrParser :=
  (parserLoadConfig (.zero cfg) env.atSetup env.atCrc).2.1

namespace DmmrServer

variable {env : StartEnv} {s : DmmrServer} {p : DmmrParser}

/-- There is a parser, and these are its statics. -/
structure Loaded (p : DmmrParser) (s : DmmrServer) : Prop where
  parser : s.parser = true
  dmmrParser : s.dmmrParser = p

namespace Loaded

/-! Nothing behind `parser->load` looks at the parser. -/

theorem newCircleBuffer (h : Loaded p s) : Loaded p (s.newCircleBuffer env) := by
  rw [DmmrServer.newCircleBuffer]
  split <;> exact ⟨h.parser, h.dmmrParser⟩

theorem circleBufferStart (h : Loaded p s) : Loaded p (s.circleBufferStart env).2 := by
  rw [DmmrServer.circleBufferStart]
  split
  · exact h
  · split <;> exact ⟨h.parser, h.dmmrParser⟩

theorem newDmmrSocket (h : Loaded p s) : Loaded p (s.newDmmrSocket env) := by
  rw [DmmrServer.newDmmrSocket]
  split
  · exact ⟨h.parser, h.dmmrParser⟩
  · split <;> exact ⟨h.parser, h.dmmrParser⟩

theorem newDmmrScheduler (h : Loaded p s) : Loaded p (s.newDmmrScheduler env) := by
  rw [DmmrServer.newDmmrScheduler]
  split <;> exact ⟨h.parser, h.dmmrParser⟩

theorem schedStart (h : Loaded p s) : Loaded p (s.schedStart env).2 := by
  rw [DmmrServer.schedStart]
  split
  · exact h
  · split
    · exact ⟨h.parser, h.dmmrParser⟩
    · split <;> exact ⟨h.parser, h.dmmrParser⟩

theorem newSessionConnectionManager (h : Loaded p s) :
    Loaded p (s.newSessionConnectionManager env) := by
  rw [DmmrServer.newSessionConnectionManager]
  split <;> exact ⟨h.parser, h.dmmrParser⟩

theorem newDmmrPlugin (h : Loaded p s) : Loaded p (s.newDmmrPlugin env) := by
  rw [DmmrServer.newDmmrPlugin]
  split <;> exact ⟨h.parser, h.dmmrParser⟩

end Loaded

/-- The rollback takes away the parser, and leaves its statics. -/
theorem rollback_loses (s : DmmrServer) :
    s.rollback.parser = false ∧ s.rollback.dmmrParser = s.dmmrParser := by
  have hite {c : Bool} {u t : DmmrServer} (ht : t.dmmrParser = s.dmmrParser)
      (hu : u.dmmrParser = s.dmmrParser) : (if c then t else u).dmmrParser = s.dmmrParser := by
    cases c with
    | true => exact ht
    | false => exact hu
  unfold rollback
  extract_lets s₁ s₂ _ s₃ s₄ _ s₅
  have h₁ : s₁.dmmrParser = s.dmmrParser := hite (by rfl) rfl
  have h₂ : s₂.dmmrParser = s.dmmrParser := hite (by exact h₁) h₁
  have h₃ : s₃.dmmrParser = s.dmmrParser := hite (by exact h₂) h₂
  have h₄ : s₄.dmmrParser = s.dmmrParser := hite (by exact h₃) h₃
  have h₅ : s₅.dmmrParser = s.dmmrParser := hite (by exact h₄) h₄
  cases hparser : s₅.parser with
  | true => exact ⟨rfl, h₅⟩
  | false => exact ⟨hparser, h₅⟩

/-- A new server that has got its parser. -/
def GotParser (env : StartEnv) (cfg : CfgServerServer) (s : DmmrServer) : Prop :=
  env.dmmrParser = true ∧ s = { new cfg with parser := true }

/-- One whose parser has loaded the file. -/
def HasLoaded (env : StartEnv) (cfg : CfgServerServer) (s : DmmrServer) : Prop :=
  env.dmmrParser = true ∧ env.atSetup.isSome = true ∧ Loaded (env.loaded cfg) s

/-- One whose start has thrown: the parser has loaded the file if there is one. -/
def ThrownAt (env : StartEnv) (cfg : CfgServerServer) (s : DmmrServer) : Prop :=
  s.dmmrParser = if env.dmmrParser then env.loaded cfg else .zero cfg

theorem HasLoaded.thrownAt {cfg : CfgServerServer} {s : DmmrServer} (h : HasLoaded env cfg s) :
    ThrownAt env cfg s := by
  rw [ThrownAt, if_pos h.1]
  exact h.2.2.dmmrParser

theorem HasLoaded.imp {cfg : CfgServerServer} {s t : DmmrServer} (h : HasLoaded env cfg s)
    (ht : Loaded (env.loaded cfg) s → Loaded (env.loaded cfg) t) : HasLoaded env cfg t :=
  ⟨h.1, h.2.1, ht h.2.2⟩

/-- The start as far as the parser goes: it is loaded or thrown at. -/
theorem triple_tryBlock_load (cfg : CfgServerServer) :
    Triple (fun s ↦ s = .new cfg) (tryBlock env) (HasLoaded env cfg) (ThrownAt env cfg) True := by
  refine .cons (Q := GotParser env cfg) (.create ?_ ?_) ?_
  · rintro s rfl hmade
    have hparser : env.dmmrParser = true := hmade
    exact ⟨hparser, by rw [newDmmrParser, hparser]⟩
  · rintro s rfl hmade
    have hparser : env.dmmrParser = false := hmade
    rw [ThrownAt, hparser]
    rfl
  refine .cons (Q := GotParser env cfg) (.exitIf (fun _ _ h ↦ h) fun _ ↦ trivial) ?_
  refine .cons (Q := HasLoaded env cfg) (.call ?_ ?_) ?_
  · rintro s ⟨hparser, rfl⟩ hret
    refine ⟨hparser, ?_, rfl, rfl⟩
    by_contra hnone
    rw [load_none (by simpa using hnone)] at hret
    exact eof_ne_zero hret
  · rintro s ⟨hparser, rfl⟩ -
    rw [ThrownAt, if_pos hparser]
    rfl
  refine .cons (Q := HasLoaded env cfg) (.assign fun s h ↦
    h.imp fun h ↦ ⟨h.parser, h.dmmrParser⟩) ?_
  refine .cons (Q := HasLoaded env cfg) (.create (fun s h _ ↦ h.imp Loaded.newCircleBuffer)
    fun s h _ ↦ (h.imp Loaded.newCircleBuffer).thrownAt) ?_
  refine .cons (Q := HasLoaded env cfg) (.call (fun s h _ ↦ h.imp Loaded.circleBufferStart)
    fun s h _ ↦ (h.imp Loaded.circleBufferStart).thrownAt) ?_
  refine .cons (Q := HasLoaded env cfg) (.create (fun s h _ ↦ h.imp Loaded.newDmmrSocket)
    fun s h _ ↦ (h.imp Loaded.newDmmrSocket).thrownAt) ?_
  refine .cons (Q := HasLoaded env cfg) (.create (fun s h _ ↦ h.imp Loaded.newDmmrScheduler)
    fun s h _ ↦ (h.imp Loaded.newDmmrScheduler).thrownAt) ?_
  refine .cons (Q := HasLoaded env cfg) (.call (fun s h _ ↦ h.imp Loaded.schedStart)
    fun s h _ ↦ (h.imp Loaded.schedStart).thrownAt) ?_
  refine .cons (Q := HasLoaded env cfg) (.create
    (fun s h _ ↦ h.imp Loaded.newSessionConnectionManager)
    fun s h _ ↦ (h.imp Loaded.newSessionConnectionManager).thrownAt) ?_
  exact .cons (.create (fun s h _ ↦ h.imp Loaded.newDmmrPlugin)
    fun s h _ ↦ (h.imp Loaded.newDmmrPlugin).thrownAt) .nil

end DmmrServer

/-- What `server_start` of a new server leaves: a parser that has loaded the file, or no parser. -/
theorem serverStart_new {env : StartEnv} {cfg : CfgServerServer} {ret : ℤ} {t : DmmrServer}
    (h : serverStart env (.new cfg) = some (ret, t)) :
    (t.dmmrParser = if env.dmmrParser then (parserLoadConfig (.zero cfg) env.atSetup env.atCrc).2.1
      else .zero cfg) ∧
    (ret = 0 ∧ t.parser = true ∧ env.dmmrParser = true ∧ env.atSetup.isSome = true ∨
      ret = eof ∧ t.parser = false) := by
  rcases serverStart_of_triple (DmmrServer.triple_tryBlock_load cfg) rfl rfl with
    ⟨u, hu, hparser, hsetup, hloaded⟩ | ⟨u, hu, hthrown⟩ | ⟨hnone, -⟩
  · obtain ⟨rfl, rfl⟩ := Prod.mk.inj (Option.some.inj (hu.symm.trans h))
    exact ⟨by rw [if_pos hparser]; exact hloaded.dmmrParser,
      .inl ⟨rfl, hloaded.parser, hparser, hsetup⟩⟩
  · obtain ⟨rfl, rfl⟩ := Prod.mk.inj (Option.some.inj (hu.symm.trans h))
    obtain ⟨hparser, hstatics⟩ := u.rollback_loses
    exact ⟨hstatics.trans hthrown, .inr ⟨rfl, hparser⟩⟩
  · exact absurd (hnone.symm.trans h) (Option.some_ne_none _).symm

/-! ## Every run -/

namespace Program

/-- The parser has loaded and reloaded as in a run of its own. -/
def ParserRuns (cfg : CfgServerServer) (s : Program) : Prop :=
  ∃ p, Transition.run parserStep (.start cfg) s.calls = some p ∧
    p.parser = s.server.dmmrParser ∧ (s.started = some 0 → p.phase = .loaded)

/-- The start has provided a parser, or it has failed and there is none. -/
def StartedWell (s : Program) : Prop :=
  s.started = some 0 ∧ s.server.parser = true ∨ s.started = some eof ∧ s.server.parser = false

/-- What holds where the program is. -/
def At (cfg : CfgServerServer) (daemon : Bool) (s : Program) : MainPc → Prop
  | .entry => s.server = .new cfg ∧ s.calls = [] ∧ s.started = none
  | .starting => daemon = false ∧ s.server = .new cfg ∧ s.calls = [] ∧ s.started = none
  | .entering => daemon = false ∧ s.StartedWell
  | .turning => daemon = false ∧ s.StartedWell ∧ (s.run = false → s.signalled = true)
  | .testing => daemon = false ∧ s.started = some 0 ∧ s.server.parser = true ∧
    (s.run = false → s.signalled = true)
  | .daemonRun _ => daemon = true ∧ s.server = .new cfg ∧ s.calls = [] ∧ s.started = none
  | .returned ret => ret = 0 ∧ daemon = false ∧ s.started = some 0 ∧ s.signalled = true ∨
    ret = eof ∧ s.calls = [] ∧ s.started = none
  | .exited => daemon = true → s.calls = [] ∧ s.started = none
  | .fault => daemon = true ∧ s.calls = [] ∧ s.started = none ∨
    daemon = false ∧ s.started = some eof

structure Inv (cfg : CfgServerServer) (daemon : Bool) (s : Program) : Prop where
  parser : s.ParserRuns cfg
  at_ : s.At cfg daemon s.pc

/-- What holds in every state of a run. -/
structure Law (cfg : CfgServerServer) (daemon : Bool) (s : Program) : Prop where
  parser : s.ParserRuns cfg
  serves : s.pc = .testing → daemon = false ∧ s.started = some 0
  faults : s.pc = .fault → daemon = true ∨ s.started = some eof
  zero : s.pc = .returned 0 → daemon = false ∧ s.started = some 0 ∧ s.signalled = true
  notZero : ∀ ret, s.pc = .returned ret → ret ≠ 0 → ret = eof ∧ s.calls = []
  never : daemon = true → s.calls = [] ∧ s.started = none
  goesOn : s.pc = .turning → s.started = some 0 → ∀ turn, turn.yylex = true →
    ∃ t, mainStep daemon s (.turn turn) = some t ∧ t.pc = .testing
  fails : s.pc = .turning → s.started ≠ some 0 → ∀ turn,
    ∃ t, mainStep daemon s (.turn turn) = some t ∧ t.pc = .fault

variable {cfg : CfgServerServer} {daemon : Bool} {s t : Program}

theorem inv_start (cfg : CfgServerServer) (daemon : Bool) : (start cfg).Inv cfg daemon where
  parser := ⟨.start cfg, rfl, rfl, fun h ↦ absurd h (by simp [start])⟩
  at_ := ⟨rfl, rfl, rfl⟩

/-- A turn with a parser returns 0, if the scanner has its memory. -/
theorem serverRun_of_some {u : DmmrServer} (h : u.parser = true) (turn : Turn) :
    serverRun u turn = .exited ∧ turn.yylex = false ∨
      serverRun u turn = .returned 0 { u with
        dmmrParser := (parserReloadConfig u.dmmrParser turn.atCrc turn.atSetup).1 } := by
  rw [serverRun, h]
  dsimp only
  rw [if_neg (by simp)]
  split
  · next hexit =>
    rw [Bool.and_eq_true, Bool.not_eq_true'] at hexit
    exact .inl ⟨rfl, hexit.2⟩
  · exact .inr rfl

theorem serverRun_of_none {u : DmmrServer} (h : u.parser = false) (turn : Turn) :
    serverRun u turn = .fault := by
  rw [serverRun, h]
  rfl

/-- A turn is a reload. -/
theorem ParserRuns.reload (h : s.ParserRuns cfg) (h0 : s.started = some 0) (pc : MainPc)
    (turn : Turn) : ParserRuns cfg { s with
      pc := pc
      server := { s.server with
        dmmrParser := (parserReloadConfig s.server.dmmrParser turn.atCrc turn.atSetup).1 }
      calls := s.calls ++ [.reload turn.atCrc turn.atSetup] } := by
  obtain ⟨p, hp, hparser, hphase⟩ := h
  have hloaded := hphase h0
  refine ⟨⟨(parserReloadConfig p.parser turn.atCrc turn.atSetup).1, p.phase,
    (parserReloadConfig p.parser turn.atCrc turn.atSetup).2.or p.parsedFrom⟩, ?_, ?_,
    fun _ ↦ hloaded⟩
  · rw [run_append, hp, Option.bind_some, Transition.run, parserStep, if_pos hloaded]
    rfl
  · rw [← hparser]

/-- The start is a load, or nothing. -/
theorem ParserRuns.load {env : StartEnv} {ret : ℤ} {u : DmmrServer}
    (h : serverStart env (.new cfg) = some (ret, u)) (pc : MainPc) (run signalled : Bool) :
    ParserRuns cfg ⟨pc, run, u, some ret,
      if env.dmmrParser then [.load env.atSetup env.atCrc] else [], signalled⟩ := by
  obtain ⟨hstatics, hret⟩ := serverStart_new h
  cases hparser : env.dmmrParser with
  | false =>
    rw [hparser] at hstatics
    refine ⟨.start cfg, rfl, hstatics.symm, fun h0 ↦ ?_⟩
    obtain rfl : ret = 0 := Option.some.inj h0
    rcases hret with ⟨-, -, htrue, -⟩ | ⟨heof, -⟩
    · exact absurd (htrue.symm.trans hparser) (by simp)
    · exact absurd heof.symm DmmrServer.eof_ne_zero
  | true =>
    rw [hparser, if_pos rfl] at hstatics
    obtain ⟨p, hp, hpp⟩ : ∃ p, parserStep (.start cfg) (.load env.atSetup env.atCrc) = some p ∧
      p.parser = (parserLoadConfig (.zero cfg) env.atSetup env.atCrc).2.1 := ⟨_, rfl, rfl⟩
    refine ⟨p, ?_, hpp.trans hstatics.symm, fun h0 ↦ ?_⟩
    · rw [if_pos rfl, Transition.run, hp]
      rfl
    · obtain rfl : ret = 0 := Option.some.inj h0
      obtain ⟨-, ⟨-, hnone, -⟩ | ⟨_, -, hphase, -⟩⟩ := parserStep_load hp
      · rcases hret with ⟨-, -, -, hsetup⟩ | ⟨heof, -⟩
        · exact absurd hsetup (by rw [hnone]; simp)
        · exact absurd heof.symm DmmrServer.eof_ne_zero
      · exact hphase

namespace Inv

theorem boot (h : s.Inv cfg daemon) {env : MainEnv} (hs : mainStep daemon s (.boot env) = some t) :
    t.Inv cfg daemon := by
  rw [mainStep, Option.ite_none_right_eq_some] at hs
  obtain ⟨hpc, hs⟩ := hs
  obtain ⟨hnew, hcalls, hstarted⟩ : s.At cfg daemon .entry := hpc ▸ h.at_
  cases daemon with
  | true =>
    rw [if_pos rfl] at hs
    split at hs
    · obtain rfl := Option.some.inj hs
      exact ⟨h.parser, fun _ ↦ ⟨hcalls, hstarted⟩⟩
    · split at hs
      · obtain rfl := Option.some.inj hs
        exact ⟨h.parser, fun _ ↦ ⟨hcalls, hstarted⟩⟩
      · obtain rfl := Option.some.inj hs
        refine ⟨h.parser, ?_⟩
        dsimp only
        split
        · exact fun _ ↦ ⟨hcalls, hstarted⟩
        · exact ⟨rfl, hnew, hcalls, hstarted⟩
  | false =>
    rw [if_neg (by simp)] at hs
    split at hs
    · obtain rfl := Option.some.inj hs
      exact ⟨h.parser, .inr ⟨rfl, hcalls, hstarted⟩⟩
    · obtain rfl := Option.some.inj hs
      exact ⟨h.parser, rfl, hnew, hcalls, hstarted⟩

theorem starting (h : s.Inv cfg daemon) {env : StartEnv}
    (hs : mainStep daemon s (.start env) = some t) : t.Inv cfg daemon := by
  rw [mainStep, Option.ite_none_right_eq_some] at hs
  obtain ⟨hpc, hs⟩ := hs
  obtain ⟨hfore, hnew, hcalls, hstarted⟩ : s.At cfg daemon .starting := hpc ▸ h.at_
  cases hu : serverStart env s.server with
  | none =>
    rw [hu] at hs
    obtain rfl := Option.some.inj hs
    exact ⟨h.parser, fun hdaemon ↦ absurd (hdaemon.symm.trans hfore) (by simp)⟩
  | some out =>
    obtain ⟨ret, u⟩ := out
    rw [hu] at hs
    rw [hnew] at hu
    obtain rfl := Option.some.inj hs
    refine ⟨?_, hfore, ?_⟩
    · rw [hcalls, List.nil_append]
      exact .load hu _ _ _
    · obtain ⟨-, ⟨rfl, hparser, -⟩ | ⟨rfl, hparser⟩⟩ := serverStart_new hu
      · exact .inl ⟨rfl, hparser⟩
      · exact .inr ⟨rfl, hparser⟩

theorem enter (h : s.Inv cfg daemon) (hs : mainStep daemon s .enter = some t) :
    t.Inv cfg daemon := by
  rw [mainStep, Option.ite_none_right_eq_some] at hs
  obtain ⟨hpc, hs⟩ := hs
  obtain ⟨hfore, hwell⟩ : s.At cfg daemon .entering := hpc ▸ h.at_
  obtain rfl := Option.some.inj hs
  exact ⟨h.parser, hfore, hwell, fun hrun ↦ absurd hrun (by simp)⟩

/-- A turn of the loop: without a parser it faults, and with one it is a reload. -/
theorem turning (h : s.Inv cfg daemon) (hpc : s.pc = .turning) {turn : Turn}
    (hs : mainStep daemon s (.turn turn) = some t) : t.Inv cfg daemon := by
  obtain ⟨hfore, hwell, hsignal⟩ : s.At cfg daemon .turning := hpc ▸ h.at_
  rw [mainStep, hpc] at hs
  dsimp only at hs
  rcases hwell with ⟨h0, hparser⟩ | ⟨heof, hparser⟩
  · rcases serverRun_of_some hparser turn with ⟨hend, -⟩ | hend
    · rw [hend] at hs
      obtain rfl := Option.some.inj hs
      exact ⟨h.parser, fun hdaemon ↦ absurd (hdaemon.symm.trans hfore) (by simp)⟩
    · rw [hend] at hs
      obtain rfl := Option.some.inj hs
      exact ⟨h.parser.reload h0 _ turn, hfore, h0, hparser, hsignal⟩
  · rw [serverRun_of_none hparser] at hs
    obtain rfl := Option.some.inj hs
    exact ⟨h.parser, .inr ⟨hfore, heof⟩⟩

/-- The turn of the daemon. -/
theorem daemonRun (h : s.Inv cfg daemon) {srv : Bool} (hpc : s.pc = .daemonRun srv) {turn : Turn}
    (hs : mainStep daemon s (.turn turn) = some t) : t.Inv cfg daemon := by
  obtain ⟨hdaemon, hnew, hcalls, hstarted⟩ : s.At cfg daemon (.daemonRun srv) := hpc ▸ h.at_
  rw [mainStep, hpc] at hs
  dsimp only at hs
  split at hs
  · obtain rfl := Option.some.inj hs
    exact ⟨h.parser, .inr ⟨rfl, hcalls, hstarted⟩⟩
  · rw [serverRun_of_none (by rw [hnew]; rfl)] at hs
    obtain rfl := Option.some.inj hs
    exact ⟨h.parser, .inl ⟨hdaemon, hcalls, hstarted⟩⟩

theorem turn (h : s.Inv cfg daemon) {turn : Turn} (hs : mainStep daemon s (.turn turn) = some t) :
    t.Inv cfg daemon := by
  cases hpc : s.pc with
  | turning => exact h.turning hpc hs
  | daemonRun srv => exact h.daemonRun hpc hs
  | _ =>
    rw [mainStep, hpc] at hs
    exact absurd hs (by simp)

theorem test (h : s.Inv cfg daemon) (hs : mainStep daemon s .test = some t) : t.Inv cfg daemon := by
  rw [mainStep, Option.ite_none_right_eq_some] at hs
  obtain ⟨hpc, hs⟩ := hs
  obtain ⟨hfore, h0, hparser, hsignal⟩ : s.At cfg daemon .testing := hpc ▸ h.at_
  obtain rfl := Option.some.inj hs
  refine ⟨h.parser, ?_⟩
  cases hrun : s.run with
  | true => exact ⟨hfore, .inl ⟨h0, hparser⟩, fun hstop ↦ absurd hstop (by simp)⟩
  | false => exact .inl ⟨rfl, hfore, h0, hsignal hrun⟩

theorem signal (h : s.Inv cfg daemon) (hs : mainStep daemon s .signal = some t) :
    t.Inv cfg daemon := by
  rw [mainStep, Option.ite_none_right_eq_some] at hs
  obtain ⟨hhandles, hs⟩ := hs
  obtain rfl := Option.some.inj hs
  refine ⟨h.parser, ?_⟩
  have hat := h.at_
  dsimp only
  cases hpc : s.pc with
  | starting => rw [hpc] at hat; exact hat
  | entering => rw [hpc] at hat; exact hat
  | turning => rw [hpc] at hat; exact ⟨hat.1, hat.2.1, fun _ ↦ rfl⟩
  | testing => rw [hpc] at hat; exact ⟨hat.1, hat.2.1, hat.2.2.1, fun _ ↦ rfl⟩
  | _ => rw [hpc] at hhandles; exact hhandles.elim

theorem step (h : s.Inv cfg daemon) {e : MainEvent} (hs : mainStep daemon s e = some t) :
    t.Inv cfg daemon := by
  cases e with
  | boot env => exact h.boot hs
  | start env => exact h.starting hs
  | enter => exact h.enter hs
  | turn turn => exact h.turn hs
  | test => exact h.test hs
  | signal => exact h.signal hs

theorem law (h : s.Inv cfg daemon) : s.Law cfg daemon where
  parser := h.parser
  serves hpc := by
    obtain ⟨hfore, h0, -⟩ : s.At cfg daemon .testing := hpc ▸ h.at_
    exact ⟨hfore, h0⟩
  faults hpc := by
    rcases (hpc ▸ h.at_ : s.At cfg daemon .fault) with ⟨hdaemon, -⟩ | ⟨-, heof⟩
    · exact .inl hdaemon
    · exact .inr heof
  zero hpc := by
    rcases (hpc ▸ h.at_ : s.At cfg daemon (.returned 0)) with ⟨-, h0⟩ | ⟨heof, -⟩
    · exact h0
    · exact absurd heof.symm DmmrServer.eof_ne_zero
  notZero ret hpc hne := by
    rcases (hpc ▸ h.at_ : s.At cfg daemon (.returned ret)) with ⟨h0, -⟩ | ⟨heof, hcalls, -⟩
    · exact absurd h0 hne
    · exact ⟨heof, hcalls⟩
  never hdaemon := by
    have hnot {p : Prop} (hfore : daemon = false) : p :=
      absurd (hdaemon.symm.trans hfore) (by simp)
    have hat := h.at_
    cases hpc : s.pc with
    | entry => rw [hpc] at hat; exact hat.2
    | starting => rw [hpc] at hat; exact hnot hat.1
    | entering => rw [hpc] at hat; exact hnot hat.1
    | turning => rw [hpc] at hat; exact hnot hat.1
    | testing => rw [hpc] at hat; exact hnot hat.1
    | daemonRun srv => rw [hpc] at hat; exact hat.2.2
    | returned ret =>
      rw [hpc] at hat
      rcases hat with ⟨-, hfore, -⟩ | ⟨-, hnone⟩
      · exact hnot hfore
      · exact hnone
    | exited => rw [hpc] at hat; exact hat hdaemon
    | fault =>
      rw [hpc] at hat
      rcases hat with ⟨-, hnone⟩ | ⟨hfore, -⟩
      · exact hnone
      · exact hnot hfore
  goesOn hpc h0 turn hyylex := by
    obtain ⟨-, ⟨-, hparser⟩ | ⟨heof, -⟩, -⟩ : s.At cfg daemon .turning := hpc ▸ h.at_
    · rw [mainStep, hpc]
      rcases serverRun_of_some hparser turn with ⟨-, hno⟩ | hend
      · exact absurd (hno.symm.trans hyylex) (by simp)
      · rw [hend]
        exact ⟨_, rfl, rfl⟩
    · exact absurd (Option.some.inj (heof.symm.trans h0)) DmmrServer.eof_ne_zero
  fails hpc hne turn := by
    obtain ⟨-, ⟨h0, -⟩ | ⟨-, hparser⟩, -⟩ : s.At cfg daemon .turning := hpc ▸ h.at_
    · exact absurd h0 hne
    · rw [mainStep, hpc]
      dsimp only
      rw [serverRun_of_none hparser]
      exact ⟨_, rfl, rfl⟩

end Inv

end Program

/-- **The life of the program.**  In both modes, for every course of the calls and the signals, in
every state:

* the statics of the parser are those of a run of `parserStep`, a load and a reload for each turn;
* a turn has returned only in the foreground, after a `server_start` that has returned 0;
* where `server_start` has failed, the next turn goes through a null pointer, and otherwise it
  returns if the scanner gets its memory; nothing else but the daemon goes through one;
* `main` returns 0 only after a signal that has come since `run` was set, and otherwise `EOF`, with
  nothing loaded;
* the daemon never loads a configuration. -/
theorem main_law (cfg : CfgServerServer) (daemon : Bool) (es : List MainEvent) :
    Always (mainStep daemon) (Program.Law cfg daemon) (.start cfg) es :=
  always_of_invariant (Program.Inv cfg daemon) (fun _ h ↦ h.law) (fun _ _ _ h hs ↦ h.step hs) es
    (Program.inv_start cfg daemon)

end DmmrOrbit
