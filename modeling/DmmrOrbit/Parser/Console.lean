import DmmrOrbit.CString
import DmmrOrbit.Parser.Scanner
import Mathlib.Data.Int.Basic

/-!
# The console

`console.c`: what `handle_token` makes of the tokens of the scanner.  A keyword selects a field of
`cfg_server_server`, a number or a string is stored into the selected field when it is of the
field's kind, and either of them ends the selection; nothing else does anything.

The library functions the values go through, `strtoull`, `atoi` and `strncpy`, are defined here with
their documented meaning — `atoi` is `(int) strtol(..)` with a 64-bit `long`, whose value is the
nearest one when the numeral does not fit.

`CfgServerServer.get` reads the field of a keyword.  `get_storeNumber` and `get_storeString` say
what the two `switch` statements of `handle_token` do to the fields: the selected one gets the
value, the others keep theirs.
-/

set_option autoImplicit false

namespace DmmrOrbit

/-! ## Strings -/

/-- `strncpy` of `k` bytes: a string that is shorter is filled up with NULs. -/
def strncpy {n : ℕ} (dest : Bytes n) (s : List UInt8) (k : ℕ) : Bytes n :=
  dest.write ((cstr s).take k ++ List.replicate (k - (cstr s).length) 0)

/-- `unquote_string`. -/
def unquoteString {n : ℕ} (dest : Bytes n) (input : List UInt8) : Bytes n :=
  if n = 0 then dest
  else
    let len := (cstr input).length
    if 2 ≤ len ∧ (cstr input).head? = some Scanner.quote ∧
        (cstr input).getLast? = some Scanner.quote then
      let innerLen := if n ≤ len - 2 then n - 1 else len - 2
      dest.write (((cstr input).drop 1).take innerLen ++ [0])
    else
      let copied := strncpy dest input (n - 1)
      copied.write (copied.toList.take (n - 1) ++ [0])

/-- Of a quoted text, what fits in front of a NUL is stored. -/
theorem cstr_unquoteString {n : ℕ} (dest : Bytes n) (hn : 0 < n) {t : List UInt8}
    (ht : ∀ b ∈ t, b ≠ 0) :
    cstr (unquoteString dest (Scanner.quote :: (t ++ [Scanner.quote]))).toList =
      t.take (n - 1) := by
  have hq : ∀ b ∈ Scanner.quote :: (t ++ [Scanner.quote]), b ≠ 0 := by
    intro b hb
    rw [List.mem_cons, List.mem_append, List.mem_singleton] at hb
    rcases hb with rfl | hb | rfl
    · decide
    · exact ht b hb
    · decide
  have hlen : (Scanner.quote :: (t ++ [Scanner.quote])).length = t.length + 2 := by simp
  have hlast : (Scanner.quote :: (t ++ [Scanner.quote])).getLast? = some Scanner.quote := by
    rw [← List.cons_append, List.getLast?_concat]
  rw [unquoteString, if_neg hn.ne', cstr_of_ne_nul hq]
  dsimp only
  rw [if_pos ⟨by rw [hlen]; omega, rfl, hlast⟩, hlen, List.drop_one, List.tail_cons,
    Nat.add_sub_cancel]
  have hinner : (t ++ [Scanner.quote]).take (if n ≤ t.length then n - 1 else t.length) =
      t.take (n - 1) := by
    split
    · exact List.take_append_of_le_length (by omega)
    · rw [List.take_append_of_le_length le_rfl, List.take_length, List.take_of_length_le (by omega)]
  rw [hinner, Bytes.cstr_write dest (fun c hc ↦ ht c (List.mem_of_mem_take hc))]
  rw [List.length_take]; omega

/-! ## Numerals -/

/-- The value of a string of decimal digits. -/
def decimal (ds : List UInt8) : ℕ := ds.foldl (fun n d ↦ 10 * n + (d.toNat - 0x30)) 0

/-- What `isspace` accepts. -/
def isspace (b : UInt8) : Bool := b = 0x20 || (0x09 ≤ b && b ≤ 0x0d)

/-- What `strtol` and `strtoull` read in base ten: blanks, a sign, digits.  The flag is the minus
sign. -/
def strtoDecimal (s : List UInt8) : Bool × ℕ :=
  let digits (s : List UInt8) := decimal (s.takeWhile (· ∈ Scanner.digit))
  match s.dropWhile isspace with
  | 0x2d :: s => (true, digits s)
  | 0x2b :: s => (false, digits s)
  | s => (false, digits s)

/-- `strtoull(s, NULL, 10)`. -/
def strtoull (s : List UInt8) : UInt64 :=
  let (neg, n) := strtoDecimal s
  if n < 2 ^ 64 then (if neg then -UInt64.ofNat n else UInt64.ofNat n)
  else UInt64.ofNat (2 ^ 64 - 1)

/-- `strtol(s, NULL, 10)` for a 64-bit `long`. -/
def strtol (s : List UInt8) : ℤ :=
  let (neg, n) := strtoDecimal s
  max (-2 ^ 63) (min (2 ^ 63 - 1) (if neg then -n else n))

/-- `atoi`: `(int) strtol(s, NULL, 10)`. -/
def atoi (s : List UInt8) : ℤ := (strtol s).bmod (2 ^ 32)

theorem strtoDecimal_of_digits {ds : List UInt8} (h : ∀ d ∈ ds, d ∈ Scanner.digit) :
    strtoDecimal ds = (false, decimal ds) := by
  have hself : ds.takeWhile (· ∈ Scanner.digit) = ds :=
    List.takeWhile_eq_self_iff.2 fun d hd ↦ decide_eq_true (h d hd)
  cases ds with
  | nil => rfl
  | cons d ds =>
    have hd : ∀ d ∈ Scanner.digit, isspace d = false ∧ d ≠ 0x2d ∧ d ≠ 0x2b := by
      decide +kernel
    obtain ⟨hs, hm, hp⟩ := hd d (h d List.mem_cons_self)
    rw [strtoDecimal, List.dropWhile_cons_of_neg (by simp [hs])]
    dsimp only
    split
    · next heq => exact absurd (List.cons.inj heq).1 hm
    · next heq => exact absurd (List.cons.inj heq).1 hp
    · rw [hself]

theorem strtoull_of_digits {ds : List UInt8} (h : ∀ d ∈ ds, d ∈ Scanner.digit)
    (hlt : decimal ds < 2 ^ 64) : (strtoull ds).toNat = decimal ds := by
  rw [strtoull, strtoDecimal_of_digits h]
  dsimp only
  rw [if_pos hlt]
  exact UInt64.toNat_ofNat_of_lt' hlt

theorem atoi_of_digits {ds : List UInt8} (h : ∀ d ∈ ds, d ∈ Scanner.digit)
    (hlt : decimal ds < 2 ^ 31) : atoi ds = decimal ds := by
  have hl : strtol ds = decimal ds := by
    rw [strtol, strtoDecimal_of_digits h]
    dsimp only
    rw [if_neg (by decide)]
    omega
  rw [atoi, hl]
  exact Int.bmod_eq_of_le_mul_two (by omega) (by omega)

/-! ## The configuration -/

/-- `struct cfg_server_server`. -/
structure CfgServerServer where
  schedulerPreemptiveDeadline : UInt64
  realTimeDeadLine : UInt64
  realTimeUserDefined : UInt64
  circleBufferSize : UInt32
  sleepTime : UInt16
  sessionSize : UInt16
  maxPorts : UInt16
  logLevel : UInt8
  trunkAcceptUri : Bytes 0x40
  trunkDispatchUri : Bytes 0x40
  deriving DecidableEq, Repr

/-- The configuration in zeroed memory. -/
def CfgServerServer.zero : CfgServerServer where
  schedulerPreemptiveDeadline := 0
  realTimeDeadLine := 0
  realTimeUserDefined := 0
  circleBufferSize := 0
  sleepTime := 0
  sessionSize := 0
  maxPorts := 0
  logLevel := 0
  trunkAcceptUri := .zero 0x40
  trunkDispatchUri := .zero 0x40

/-- The contents of a field. -/
inductive FieldValue
  | number (n : ℕ)
  | uri (b : Bytes 0x40)
  deriving DecidableEq, Repr

namespace CfgServerServer

/-- The field that a keyword selects. -/
def get (cfg : CfgServerServer) : Keyword → FieldValue
  | .schedulerPreemptiveDeadline => .number cfg.schedulerPreemptiveDeadline.toNat
  | .sleepTime => .number cfg.sleepTime.toNat
  | .sessionSize => .number cfg.sessionSize.toNat
  | .circleBufferSize => .number cfg.circleBufferSize.toNat
  | .maxPorts => .number cfg.maxPorts.toNat
  | .realTimeDeadLine => .number cfg.realTimeDeadLine.toNat
  | .realTimeUserDefined => .number cfg.realTimeUserDefined.toNat
  | .trunkAcceptUri => .uri cfg.trunkAcceptUri
  | .trunkDispatchUri => .uri cfg.trunkDispatchUri
  | .rbLogLevel => .number cfg.logLevel.toNat

/-- The `switch` of the branch for a `NUMBER`. -/
def storeNumber (cfg : CfgServerServer) (value : List UInt8) : Keyword → CfgServerServer
  | .schedulerPreemptiveDeadline => { cfg with schedulerPreemptiveDeadline := strtoull value }
  | .sleepTime => { cfg with sleepTime := UInt16.ofInt (atoi value) }
  | .sessionSize => { cfg with sessionSize := UInt16.ofInt (atoi value) }
  | .circleBufferSize => { cfg with circleBufferSize := UInt32.ofInt (atoi value) }
  | .maxPorts => { cfg with maxPorts := UInt16.ofInt (atoi value) }
  | .realTimeDeadLine => { cfg with realTimeDeadLine := strtoull value }
  | .realTimeUserDefined => { cfg with realTimeUserDefined := strtoull value }
  | .rbLogLevel => { cfg with logLevel := UInt8.ofInt (atoi value) }
  | .trunkAcceptUri | .trunkDispatchUri => cfg

/-- The `switch` of the branch for a `STRING`. -/
def storeString (cfg : CfgServerServer) (value : List UInt8) : Keyword → CfgServerServer
  | .trunkAcceptUri => { cfg with trunkAcceptUri := unquoteString cfg.trunkAcceptUri value }
  | .trunkDispatchUri => { cfg with trunkDispatchUri := unquoteString cfg.trunkDispatchUri value }
  | _ => cfg

end CfgServerServer

namespace Keyword

/-- The two keywords whose field is a string. -/
def IsUri : Keyword → Prop
  | trunkAcceptUri | trunkDispatchUri => True
  | _ => False

instance : DecidablePred IsUri := fun k ↦ by
  cases k <;> first | exact .isTrue trivial | exact .isFalse id

/-- The numerals below this bound fit the field of a keyword and the conversion to it.  `atoi`
goes through an `int`, which the 32 bits of `circle_buffer_size` exceed. -/
def bound : Keyword → ℕ
  | schedulerPreemptiveDeadline | realTimeDeadLine | realTimeUserDefined => 2 ^ 64
  | sleepTime | sessionSize | maxPorts => 2 ^ 16
  | circleBufferSize => 2 ^ 31
  | rbLogLevel => 2 ^ 8
  | trunkAcceptUri | trunkDispatchUri => 0

end Keyword

namespace CfgServerServer

theorem get_storeNumber_of_ne {k l : Keyword} (h : l ≠ k) (cfg : CfgServerServer)
    (value : List UInt8) : (cfg.storeNumber value k).get l = cfg.get l := by
  cases k <;> cases l <;> first | rfl | exact absurd rfl h

theorem get_storeString_of_ne {k l : Keyword} (h : l ≠ k) (cfg : CfgServerServer)
    (value : List UInt8) : (cfg.storeString value k).get l = cfg.get l := by
  cases k <;> cases l <;> first | rfl | exact absurd rfl h

/-- A numeral that fits is stored as it is written. -/
theorem get_storeNumber {k : Keyword} {ds : List UInt8} (h : ∀ d ∈ ds, d ∈ Scanner.digit)
    (hlt : decimal ds < k.bound) (cfg : CfgServerServer) :
    (cfg.storeNumber ds k).get k = .number (decimal ds) := by
  have h64 (hlt : decimal ds < 2 ^ 64) : (strtoull ds).toNat = decimal ds :=
    strtoull_of_digits h hlt
  have h32 (hlt : decimal ds < 2 ^ 31) : (UInt32.ofInt (atoi ds)).toNat = decimal ds := by
    rw [atoi_of_digits h hlt, UInt32.ofInt, UInt32.toNat_ofNat']
    omega
  have h16 (hlt : decimal ds < 2 ^ 16) : (UInt16.ofInt (atoi ds)).toNat = decimal ds := by
    rw [atoi_of_digits h (by omega), UInt16.ofInt, UInt16.toNat_ofNat']
    omega
  have h8 (hlt : decimal ds < 2 ^ 8) : (UInt8.ofInt (atoi ds)).toNat = decimal ds := by
    rw [atoi_of_digits h (by omega), UInt8.ofInt, UInt8.toNat_ofNat']
    omega
  cases k with
  | schedulerPreemptiveDeadline => exact congrArg _ (h64 hlt)
  | realTimeDeadLine => exact congrArg _ (h64 hlt)
  | realTimeUserDefined => exact congrArg _ (h64 hlt)
  | sleepTime => exact congrArg _ (h16 hlt)
  | sessionSize => exact congrArg _ (h16 hlt)
  | maxPorts => exact congrArg _ (h16 hlt)
  | circleBufferSize => exact congrArg _ (h32 hlt)
  | rbLogLevel => exact congrArg _ (h8 hlt)
  | trunkAcceptUri => exact absurd hlt (Nat.not_lt_zero _)
  | trunkDispatchUri => exact absurd hlt (Nat.not_lt_zero _)

/-- A quoted text is stored as far as it fits. -/
theorem get_storeString {k : Keyword} (hk : k.IsUri) {t : List UInt8} (ht : ∀ b ∈ t, b ≠ 0)
    (cfg : CfgServerServer) :
    ∃ b, (cfg.storeString (Scanner.quote :: (t ++ [Scanner.quote])) k).get k = .uri b ∧
      cstr b.toList = t.take 63 := by
  cases k with
  | trunkAcceptUri => exact ⟨_, rfl, cstr_unquoteString _ (by decide) ht⟩
  | trunkDispatchUri => exact ⟨_, rfl, cstr_unquoteString _ (by decide) ht⟩
  | _ => exact hk.elim

end CfgServerServer

/-! ## The console -/

/-- `struct console_state`, and the record its `cfg` points at when it is set. -/
structure Console where
  cfg : Bool
  /-- `current_setting`; `none` is `CONFIG_NONE`. -/
  currentSetting : Option Keyword
  /-- `input_file`: what is still to be read of the open file. -/
  inputFile : Option (List UInt8)
  cfgServer : CfgServerServer

/-- `handle_token`. -/
def handleToken (c : Console) (t : Token) : Console :=
  if c.cfg = false then c
  else match t.type with
    | .keyword => match Keyword.all.find? fun k ↦ cstr t.value = k.text with
      | some k => { c with currentSetting := some k }
      | none => c
    | .number =>
      { c with
        cfgServer := (c.currentSetting.map (c.cfgServer.storeNumber t.value)).getD c.cfgServer
        currentSetting := none }
    | .string =>
      { c with
        cfgServer := (c.currentSetting.map (c.cfgServer.storeString t.value)).getD c.cfgServer
        currentSetting := none }
    | _ => c

/-- The calls of `handle_token` for a list of tokens. -/
def handleTokens (c : Console) (ts : List Token) : Console := ts.foldl handleToken c

@[simp] theorem handleTokens_nil (c : Console) : handleTokens c [] = c := rfl

@[simp] theorem handleTokens_cons (c : Console) (t : Token) (ts : List Token) :
    handleTokens c (t :: ts) = handleTokens (handleToken c t) ts := rfl

theorem handleTokens_append (c : Console) (ts us : List Token) :
    handleTokens c (ts ++ us) = handleTokens (handleTokens c ts) us :=
  List.foldl_append

/-- A keyword is found by its text. -/
theorem Keyword.find_text (k : Keyword) :
    (Keyword.all.find? fun l ↦ cstr k.text = l.text) = some k := by
  have hall : ∀ k ∈ Keyword.all, (Keyword.all.find? fun l ↦ cstr k.text = l.text) = some k := by
    decide +kernel
  exact hall k (Keyword.mem_all k)

theorem handleToken_keyword {c : Console} (hc : c.cfg = true) (k : Keyword) :
    handleToken c ⟨.keyword, k.text⟩ = { c with currentSetting := some k } := by
  rw [handleToken, if_neg (by rw [hc]; decide)]
  dsimp only
  rw [k.find_text]

theorem handleToken_semicolon (c : Console) (v : List UInt8) :
    handleToken c ⟨.semicolon, v⟩ = c := by
  rw [handleToken]
  split
  · rfl
  · rfl

/-- `console_setup`, for a file name and a configuration that are there; the file has the given
text, or it cannot be opened. -/
def consoleSetup (c : Console) (file : Option (List UInt8)) : ℤ × Console :=
  (if file.isSome then 0 else eof,
    { cfg := true, currentSetting := none, inputFile := file, cfgServer := c.cfgServer })

/-- `console_run`: `yylex` until the end of the file.  No rule of the scanner returns the zero that
would end the loop before. -/
def consoleRun (c : Console) : ℤ × Console :=
  match c.inputFile with
  | none => (eof, c)
  | some text =>
    if c.cfg then (0, { handleTokens c (Scanner.tokens text) with inputFile := some [] })
    else (eof, c)

/-- `console_cleanup`. -/
def consoleCleanup (c : Console) : Console :=
  { cfg := false, currentSetting := none, inputFile := none, cfgServer := c.cfgServer }

/-- What the configuration is after a text has been parsed into it. -/
def parsed (cfg : CfgServerServer) (text : List UInt8) : CfgServerServer :=
  (handleTokens ⟨true, none, some text, cfg⟩ (Scanner.tokens text)).cfgServer

theorem consoleRun_consoleSetup (c : Console) (text : List UInt8) :
    (consoleRun (consoleSetup c (some text)).2).2.cfgServer = parsed c.cfgServer text := rfl

end DmmrOrbit
