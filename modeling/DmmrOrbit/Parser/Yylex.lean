import DmmrOrbit.Parser.Tables

/-!
# The generated scanner

`yylex` of `scanner.c`, with the buffer it reads from.  The buffer holds a part of the text, then
two NUL characters; when the automaton meets a NUL, `yylex` finds out whether it belongs to the text
or is the end of the buffer, and in the second case `yy_get_next_buffer` moves the token it is in
the middle of to the front and reads on.  `yylex` jumps between three labels, so one call of
`yyStep` is what happens between two of them.  An access outside of the buffer or of a table, a
fatal error and an `int` that overflows are `none`.

`console_run` calls `yylex` until it returns 0, and every call goes on where the last one has
returned; in `yyStep` a return with another code leads back to the first label.
-/

set_option autoImplicit false

namespace DmmrOrbit

/-! ## The return codes of `l_tokens.h` -/

def tokenError : ℤ := -1
def tokenIdent : ℤ := 100
def tokenNumber : ℤ := 101
def tokenComma : ℤ := 102
def tokenSemicolon : ℤ := 103
def tokenSymbol : ℤ := 104
def tokenString : ℤ := 105

namespace Scanner

/-! ## State -/

/-- `yy_buffer_status`. -/
inductive BufferStatus
  | new
  | normal
  | eofPending
  deriving DecidableEq, Repr

/-- The automaton in the buffer: `yy_current_state` and `yy_cp`, and the last accepting state with
its `yy_cp`. -/
structure YyCursor where
  state : ℕ
  cp : ℕ
  lastState : ℕ
  lastCpos : ℕ
  deriving DecidableEq, Repr

/-- The statics of `scanner.c` with the current buffer, the locals of `yylex`, and what `yyin` has
not yet given.  Pointers into `yy_ch_buf` are offsets. -/
structure Yy where
  chBuf : List UInt8
  bufSize : ℕ
  bufNChars : ℕ
  status : BufferStatus
  nChars : ℕ
  cBufP : ℕ
  textPtr : ℕ
  holdChar : UInt8
  bp : ℕ
  cursor : YyCursor
  yyin : List UInt8
  deriving DecidableEq, Repr

/-- What the scanner does not decide: whether it reads a terminal, and what is in memory that
`yyrealloc` has added. -/
structure YyEnv where
  isInteractive : Bool
  junk : UInt8

def put (buf : List UInt8) (i : ℕ) (b : UInt8) : Option (List UInt8) :=
  if i < buf.length then some (buf.set i b) else none

/-! ## The automaton -/

/-- One transition; the state that is left is remembered if it accepts. -/
def YyCursor.move (k : YyCursor) (c : ℕ) : Option YyCursor := do
  let accept ← yyAccept[k.state]?
  let k := if accept ≠ 0 then { k with lastState := k.state, lastCpos := k.cp } else k
  let s ← yyTables.nextState k.state c
  some { k with state := s, cp := k.cp + 1 }

/-- `yy_match`, on the buffer from `yy_cp` on. -/
def yyMatch : YyCursor → List UInt8 → Option YyCursor
  | _, [] => none
  | k, b :: rest => do
    let c ← yyEc[b.toNat]?
    let k ← k.move c
    let base ← yyBase[k.state]?
    if base ≠ 188 then yyMatch k rest else some k

/-- `yy_get_previous_state`, over so many characters of the buffer. -/
def yyGetPreviousState : YyCursor → ℕ → List UInt8 → Option YyCursor
  | k, 0, _ => some k
  | _, _ + 1, [] => none
  | k, n + 1, b :: rest => do
    let c ← if b ≠ 0 then yyEc[b.toNat]? else some 1
    let k ← k.move c
    yyGetPreviousState k n rest

/-- The call of `yy_get_previous_state` in `yylex`: from `yytext_ptr` up to `yy_c_buf_p`. -/
def Yy.previousState (y : Yy) : Option Yy := do
  let k ← yyGetPreviousState { y.cursor with state := 1, cp := y.textPtr } (y.cBufP - y.textPtr)
    (y.chBuf.drop y.textPtr)
  some { y with cursor := k, bp := y.textPtr }

/-! ## The buffer -/

/-- `YY_INPUT`: a line of a terminal, or as much of a file as there is room for. -/
def yyInput (env : YyEnv) (maxSize : ℕ) (yyin : List UInt8) : List UInt8 :=
  if env.isInteractive then
    let line := (yyin.take maxSize).takeWhile (· ≠ newline)
    if (yyin.take maxSize)[line.length]? = some newline then line ++ [newline] else line
  else yyin.take maxSize

/-- `for (i = 0; i < number_to_move; ++i) *(dest++) = *(source++);` -/
def yyMoveDown (source : ℕ) : ℕ → ℕ → List UInt8 → Option (List UInt8)
  | 0, _, buf => some buf
  | n + 1, i, buf => do
    let b ← buf[source + i]?
    let buf ← put buf i b
    yyMoveDown source n (i + 1) buf

/-- `while (num_to_read <= 0)`: the size of the buffer that has room for one character more. -/
def yyGrow (numberToMove : ℕ) : ℕ → ℕ → Option ℕ
  | 0, _ => none
  | rounds + 1, size =>
    if numberToMove + 1 < size then some size
    else if 2 ^ 31 ≤ 2 * size then none
    else yyGrow numberToMove rounds (2 * size)

/-- Characters into the buffer, from `i` on. -/
def putAll : List UInt8 → ℕ → List UInt8 → Option (List UInt8)
  | [], _, buf => some buf
  | b :: bs, i, buf => do
    let buf ← put buf i b
    putAll bs (i + 1) buf

/-- `yyrestart`: `yy_flush_buffer`, then `yy_load_buffer_state`. -/
def yyRestart (y : Yy) : Option Yy := do
  let buf ← put y.chBuf 0 0
  let buf ← put buf 1 0
  let hold ← buf[0]?
  some { y with
    chBuf := buf, bufNChars := 0, status := .new, nChars := 0, cBufP := 0, textPtr := 0,
    holdChar := hold }

/-- What `yy_get_next_buffer` returns. -/
inductive EobAct
  | continueScan
  | endOfFile
  | lastMatch
  deriving DecidableEq, Repr

/-- The read of `yy_get_next_buffer`, unless the end of the file is known. -/
def yyRead (env : YyEnv) (y : Yy) (numberToMove : ℕ) : Option Yy :=
  if y.status = .eofPending then some { y with bufNChars := 0, nChars := 0 }
  else do
    let size ← yyGrow numberToMove (numberToMove + 2) y.bufSize
    let buf := y.chBuf ++ List.replicate (size - y.bufSize) env.junk
    let chunk := yyInput env (min 8192 (size - numberToMove - 1)) y.yyin
    let buf ← putAll chunk numberToMove buf
    some { y with
      chBuf := buf, bufSize := size, bufNChars := chunk.length, nChars := chunk.length,
      yyin := y.yyin.drop chunk.length }

/-- The return value of `yy_get_next_buffer`. -/
def Yy.eobAct (y : Yy) (numberToMove : ℕ) : Option (EobAct × Yy) :=
  if y.nChars = 0 then
    if numberToMove = 0 then (yyRestart y).map (.endOfFile, ·)
    else some (.lastMatch, { y with status := .eofPending })
  else some (.continueScan, y)

/-- The end of `yy_get_next_buffer`: the buffer is extended if need be, and its end is marked. -/
def Yy.markEnd (env : YyEnv) (y : Yy) (numberToMove : ℕ) : Option Yy := do
  let y :=
    if y.bufSize < y.nChars + numberToMove then
      let newSize := y.nChars + numberToMove + y.nChars / 2
      { y with
        chBuf := y.chBuf.take newSize ++ List.replicate (newSize - y.chBuf.length) env.junk,
        bufSize := newSize - 2 }
    else y
  let n := y.nChars + numberToMove
  let buf ← put y.chBuf n 0
  let buf ← put buf (n + 1) 0
  some { y with chBuf := buf, nChars := n, textPtr := 0 }

/-- `yy_get_next_buffer`. -/
def yyGetNextBuffer (env : YyEnv) (y : Yy) : Option (EobAct × Yy) := do
  if y.nChars + 1 < y.cBufP then none
  let numberToMove := y.cBufP - y.textPtr - 1
  let buf ← yyMoveDown y.textPtr numberToMove 0 y.chBuf
  let y ← yyRead env { y with chBuf := buf } numberToMove
  let (act, y) ← y.eobAct numberToMove
  let y ← y.markEnd env numberToMove
  some (act, y)

/-! ## `yylex` -/

/-- Where `yylex` is: at the head of its loop, at `yy_match`, at `yy_find_action`, or back in
`console_run` with a 0. -/
inductive YyLabel
  | loop
  | yyMatch
  | findAction
  | returned
  deriving DecidableEq, Repr

/-- The actions of the rules: the call of `handle_token`, and the code that is returned. -/
def yyAction (yytext : List UInt8) : ℕ → Option (Option Token × Option ℤ)
  | 1 => some (some ⟨.keyword, Keyword.sessionSize.text⟩, some tokenIdent)
  | 2 => some (some ⟨.keyword, Keyword.sleepTime.text⟩, some tokenIdent)
  | 3 => some (some ⟨.keyword, Keyword.circleBufferSize.text⟩, some tokenIdent)
  | 4 => some (some ⟨.keyword, Keyword.maxPorts.text⟩, some tokenIdent)
  | 5 => some (some ⟨.keyword, Keyword.realTimeDeadLine.text⟩, some tokenIdent)
  | 6 => some (some ⟨.keyword, Keyword.realTimeUserDefined.text⟩, some tokenIdent)
  | 7 => some (some ⟨.keyword, Keyword.trunkAcceptUri.text⟩, some tokenIdent)
  | 8 => some (some ⟨.keyword, Keyword.trunkDispatchUri.text⟩, some tokenIdent)
  | 9 => some (some ⟨.keyword, Keyword.schedulerPreemptiveDeadline.text⟩, some tokenIdent)
  | 10 => some (some ⟨.keyword, Keyword.rbLogLevel.text⟩, some tokenIdent)
  | 11 => some (some ⟨.number, yytext⟩, some tokenNumber)
  | 12 => some (some ⟨.comma, yytext⟩, some tokenComma)
  | 13 => some (some ⟨.semicolon, yytext⟩, some tokenSemicolon)
  | 14 => some (some ⟨.dash, yytext⟩, some tokenSymbol)
  | 15 => some (some ⟨.ident, yytext⟩, some tokenIdent)
  | 16 => some (some ⟨.string, yytext⟩, some tokenString)
  | 17 => some (none, none)
  | 18 => some (none, none)
  | 19 => some (some ⟨.invalid, yytext⟩, some tokenError)
  | 20 => some (none, none)
  | _ => none

/-- `YY_END_OF_BUFFER`. -/
def yyEndOfBuffer : ℕ := 21

/-- `yy_find_action` and `YY_DO_BEFORE_ACTION`: the number of the action, and the state with the
token cut off. -/
def Yy.findAction (y : Yy) : Option (ℕ × Yy) := do
  let accept ← yyAccept[y.cursor.state]?
  let k := if accept ≠ 0 then y.cursor
    else { y.cursor with state := y.cursor.lastState, cp := y.cursor.lastCpos }
  let act ← yyAccept[k.state]?
  let hold ← y.chBuf[k.cp]?
  let buf ← put y.chBuf k.cp 0
  some (act, { y with
    chBuf := buf, textPtr := y.bp, holdChar := hold, cBufP := k.cp, cursor := k })

/-- The branch of a NUL that belongs to the text, with `yy_try_NUL_trans`. -/
def Yy.nul (y : Yy) : Option (YyLabel × Yy) := do
  let y ← y.previousState
  let k ← YyCursor.move { y.cursor with cp := y.cBufP } 1
  if k.state ≠ yyJam then
    some (.yyMatch, { y with cBufP := y.cBufP + 1, cursor := { k with cp := y.cBufP + 1 } })
  else
    some (.findAction, { y with cursor := { k with state := y.cursor.state, cp := y.cBufP } })

/-- The branch of the end of the buffer: what becomes of the return value of
`yy_get_next_buffer`. -/
def Yy.refill (env : YyEnv) (y : Yy) (amount : ℕ) : Option (YyLabel × Yy) := do
  match ← yyGetNextBuffer env y with
  | (.endOfFile, y) => some (.returned, { y with cBufP := y.textPtr })
  | (.continueScan, y) =>
    let y ← Yy.previousState { y with cBufP := y.textPtr + amount }
    some (.yyMatch, { y with cursor := { y.cursor with cp := y.cBufP } })
  | (.lastMatch, y) =>
    let y ← Yy.previousState { y with cBufP := y.nChars }
    some (.findAction, { y with cursor := { y.cursor with cp := y.cBufP } })

/-- `if (yy_buffer_status == YY_BUFFER_NEW)`: the first read of a file is to come. -/
def Yy.bufferNormal (y : Yy) : Yy :=
  if y.status = .new then { y with nChars := y.bufNChars, status := .normal } else y

/-- `case YY_END_OF_BUFFER`. -/
def Yy.endOfBuffer (env : YyEnv) (y : Yy) : Option (YyLabel × Yy) := do
  let amount := y.cursor.cp - y.textPtr - 1
  let buf ← put y.chBuf y.cursor.cp y.holdChar
  let y := Yy.bufferNormal { y with chBuf := buf }
  if y.cBufP ≤ y.nChars then Yy.nul { y with cBufP := y.textPtr + amount } else y.refill env amount

/-- From one label to the next, with the call of `handle_token` made on the way. -/
def yyStep (env : YyEnv) (y : Yy) : YyLabel → Option (YyLabel × Yy × Option Token)
  | .loop => do
    let buf ← put y.chBuf y.cBufP y.holdChar
    some (.yyMatch, { y with
      chBuf := buf, bp := y.cBufP, cursor := { y.cursor with state := 1, cp := y.cBufP } }, none)
  | .yyMatch => do
    let k ← yyMatch y.cursor (y.chBuf.drop y.cursor.cp)
    some (.findAction, { y with cursor := k }, none)
  | .findAction => do
    let (act, y) ← y.findAction
    if act = yyEndOfBuffer then
      let (label, y) ← y.endOfBuffer env
      some (label, y, none)
    else
      let yytext := (y.chBuf.drop y.textPtr).take (y.cursor.cp - y.textPtr)
      let (token, code) ← yyAction yytext act
      some (if code = some 0 then .returned else .loop, y, token)
  | .returned => none

/-- So many steps, with all the calls of `handle_token`. -/
def yySteps (env : YyEnv) : ℕ → YyLabel → Yy → Option (YyLabel × Yy × List Token)
  | 0, label, y => some (label, y, [])
  | n + 1, label, y => do
    let (label, y, token) ← yyStep env y label
    let (label, y, tokens) ← yySteps env n label y
    some (label, y, token.toList ++ tokens)

/-- `YY_BUF_SIZE`. -/
def yyBufSize : ℕ := 16384

/-- The scanner that `yy_create_buffer` and `yy_load_buffer_state` leave, in memory that `yyalloc`
has not cleared. -/
def Yy.create (memory : List UInt8) : Yy where
  chBuf := 0 :: 0 :: memory
  bufSize := memory.length
  bufNChars := 0
  status := .new
  nChars := 0
  cBufP := 0
  textPtr := 0
  holdChar := 0
  bp := 0
  cursor := ⟨0, 0, 0, 0⟩
  yyin := []

/-- `yyin = fopen(..)` in `console_setup`. -/
def Yy.open (y : Yy) (text : List UInt8) : Yy := { y with yyin := text }

end Scanner

end DmmrOrbit
