import DmmrOrbit.Lib.Transition
import DmmrOrbit.Parser.Console
import DmmrOrbit.Parser.Crc

/-!
# Loading and reloading the configuration

`dmmr_parser.c`: `parser_load_config` parses the configuration file and then takes its checksum,
`parser_reload_config` takes the checksum and parses the file if the checksum is a new one.  Either
opens the file twice, and what it finds may differ from one time to the next: the file may have been
edited in between, and either `fopen` may fail.

`parserStep` is a run of the two: an event is a call with what its two opens find.  The history
`parsedFrom` is the text that the configuration was last parsed from.  `NoEditMissed` says of a
state that a call of `parser_reload_config` made there parses the file, if the file can be opened,
does not change during the call and has a checksum that is neither zero nor that of `parsedFrom`.

`parserStep_noEditMissed_iff` is the result: no edit is missed throughout a run exactly when every
call leaves the checksum of the parsed text behind, or zero (`ParserEvent.Faithful`).  The calls
that do not are a load that sees the file change between its two opens, and a reload that notices a
new checksum and then cannot open the file, or finds it changed once more: `last_crc` has been
written by then.  `not_noEditMissed` is the plainest of these runs.
-/

set_option autoImplicit false

open Transition

namespace DmmrOrbit

/-! ## The two calls -/

/-- The statics of `dmmr_parser.c`, with the checksum table and the console.  `last_crc` is an
`unsigned long` that is only ever given 32-bit values. -/
structure DmmrParser where
  crc32Table : CrcTable
  lastCrc : UInt32
  console : Console

/-- The statics before the first call. -/
def DmmrParser.zero (cfg : CfgServerServer) : DmmrParser where
  crc32Table := fun _ ↦ 0
  lastCrc := 0
  console := ⟨false, none, none, cfg⟩

/-- `parser_load_config`, with what it finds when it opens the file for the console and for
`crc32_file`.  The last component is the text that has been parsed, if any. -/
def parserLoadConfig (p : DmmrParser) (atSetup atCrc : Option (List UInt8)) :
    ℤ × DmmrParser × Option (List UInt8) :=
  let (ret, c) := consoleSetup p.console atSetup
  if ret ≠ 0 then (eof, { p with console := c }, none)
  else
    let (ret, c') := consoleRun c
    if ret ≠ 0 then (eof, { p with console := c' }, none)
    else
      (0, { crc32Table := generateCrc32Table, lastCrc := crc32File generateCrc32Table atCrc,
            console := c' }, c.inputFile)

/-- `parser_reload_config`, with what it finds when it opens the file for `crc32_file` and for the
console.  The last component is the text that has been parsed, if any. -/
def parserReloadConfig (p : DmmrParser) (atCrc atSetup : Option (List UInt8)) :
    DmmrParser × Option (List UInt8) :=
  let crc := crc32File p.crc32Table atCrc
  if crc ≠ 0 ∧ crc ≠ p.lastCrc then
    let (ret, c) := consoleSetup (consoleCleanup p.console) atSetup
    if ret = 0 then ({ p with lastCrc := crc, console := (consoleRun c).2 }, c.inputFile)
    else ({ p with lastCrc := crc, console := c }, none)
  else (p, none)

section

variable (p : DmmrParser)

theorem parserLoadConfig_none (atCrc : Option (List UInt8)) :
    ∃ c, parserLoadConfig p none atCrc = (eof, { p with console := c }, none) :=
  ⟨_, rfl⟩

theorem parserLoadConfig_some (text : List UInt8) (atCrc : Option (List UInt8)) :
    ∃ c, parserLoadConfig p (some text) atCrc =
      (0, ⟨generateCrc32Table, crc32File generateCrc32Table atCrc, c⟩, some text) ∧
        c.cfgServer = parsed p.console.cfgServer text :=
  ⟨_, rfl, rfl⟩

theorem parserReloadConfig_same (atCrc atSetup : Option (List UInt8))
    (h : ¬ (crc32File p.crc32Table atCrc ≠ 0 ∧ crc32File p.crc32Table atCrc ≠ p.lastCrc)) :
    parserReloadConfig p atCrc atSetup = (p, none) := by
  rw [parserReloadConfig]; exact if_neg h

/-- A new checksum is kept, whatever becomes of the file. -/
theorem parserReloadConfig_new {atCrc : Option (List UInt8)} (atSetup : Option (List UInt8))
    (h : crc32File p.crc32Table atCrc ≠ 0 ∧ crc32File p.crc32Table atCrc ≠ p.lastCrc) :
    ∃ c, parserReloadConfig p atCrc atSetup =
      (⟨p.crc32Table, crc32File p.crc32Table atCrc, c⟩, atSetup) ∧
        ∀ text, atSetup = some text → c.cfgServer = parsed p.console.cfgServer text := by
  rw [parserReloadConfig]
  dsimp only
  rw [if_pos h]
  cases atSetup with
  | none => exact ⟨_, rfl, nofun⟩
  | some text => exact ⟨_, rfl, fun _ ht ↦ Option.some.inj ht ▸ rfl⟩

end

/-! ## Runs -/

/-- Where the server is: it loads the configuration once, and goes on only if that has worked. -/
inductive ParserPhase
  | fresh
  | loaded
  | failed
  deriving DecidableEq, Repr

/-- The parser, and the text that the configuration was last parsed from. -/
structure ParserSystem where
  parser : DmmrParser
  phase : ParserPhase
  parsedFrom : Option (List UInt8)

def ParserSystem.start (cfg : CfgServerServer) : ParserSystem := ⟨.zero cfg, .fresh, none⟩

/-- A call, with what its two opens find, in their order. -/
inductive ParserEvent
  | load (atSetup atCrc : Option (List UInt8))
  | reload (atCrc atSetup : Option (List UInt8))
  deriving DecidableEq, Repr

def parserStep (s : ParserSystem) : ParserEvent → Option ParserSystem
  | .load atSetup atCrc =>
    if s.phase = .fresh then
      let (ret, p, text) := parserLoadConfig s.parser atSetup atCrc
      some ⟨p, if ret = 0 then .loaded else .failed, text⟩
    else none
  | .reload atCrc atSetup =>
    if s.phase = .loaded then
      let (p, text) := parserReloadConfig s.parser atCrc atSetup
      some ⟨p, s.phase, text.or s.parsedFrom⟩
    else none

/-- The checksum of a text, as `crc32_file` computes it now. -/
def ParserSystem.crc (s : ParserSystem) (text : List UInt8) : UInt32 :=
  crc32File s.parser.crc32Table (some text)

/-- If the file now had a text whose checksum is neither zero nor that of the text last parsed, a
reload that finds this text at both opens would parse it. -/
def NoEditMissed (s : ParserSystem) : Prop :=
  ∀ text last, s.parsedFrom = some last → s.crc text ≠ 0 → s.crc text ≠ s.crc last →
    ∀ t, parserStep s (.reload (some text) (some text)) = some t →
      t.parsedFrom = some text ∧
        t.parser.console.cfgServer = parsed s.parser.console.cfgServer text

/-- The call leaves the checksum of the parsed text behind.  For a load: the second open fails, or
finds a text with the same checksum as the first, or with the checksum zero.  For a reload that
finds a new checksum: this is the checksum of the text that the second open finds or, if that fails,
of the text parsed before. -/
def ParserEvent.Faithful (s : ParserSystem) : ParserEvent → Prop
  | .load atSetup atCrc => crc32File generateCrc32Table atCrc ≠ 0 → ∀ text, atSetup = some text →
      crc32File generateCrc32Table atCrc = crc32File generateCrc32Table (some text)
  | .reload atCrc atSetup => crc32File s.parser.crc32Table atCrc ≠ 0 →
      crc32File s.parser.crc32Table atCrc ≠ s.parser.lastCrc →
        ∀ text, atSetup.or s.parsedFrom = some text →
          crc32File s.parser.crc32Table atCrc = s.crc text

/-- What faithful calls keep: there is a text the configuration was parsed from, and `last_crc` is
its checksum or zero. -/
def ParserSystem.Inv (s : ParserSystem) : Prop :=
  match s.phase with
  | .loaded => ∃ last, s.parsedFrom = some last ∧
      (s.parser.lastCrc = 0 ∨ s.parser.lastCrc = s.crc last)
  | _ => s.parsedFrom = none

section

variable {s t : ParserSystem}

/-- What a load does. -/
theorem parserStep_load {atSetup atCrc : Option (List UInt8)}
    (h : parserStep s (.load atSetup atCrc) = some t) :
    s.phase = .fresh ∧ (t.phase = .failed ∧ atSetup = none ∧ t.parsedFrom = none ∨
      ∃ text, atSetup = some text ∧ t.phase = .loaded ∧ t.parsedFrom = some text ∧
        t.parser.crc32Table = generateCrc32Table ∧
        t.parser.lastCrc = crc32File generateCrc32Table atCrc ∧
        t.parser.console.cfgServer = parsed s.parser.console.cfgServer text) := by
  rw [parserStep, Option.ite_none_right_eq_some] at h
  obtain ⟨hp, h⟩ := h
  refine ⟨hp, ?_⟩
  cases atSetup with
  | none =>
    obtain ⟨c, hc⟩ := parserLoadConfig_none s.parser atCrc
    rw [hc] at h
    obtain rfl := Option.some.inj h
    exact Or.inl ⟨rfl, rfl, rfl⟩
  | some text =>
    obtain ⟨c, hc, hcfg⟩ := parserLoadConfig_some s.parser text atCrc
    rw [hc] at h
    obtain rfl := Option.some.inj h
    exact Or.inr ⟨text, rfl, rfl, rfl, rfl, rfl, hcfg⟩

/-- What a reload does that finds no new checksum. -/
theorem parserStep_reload_same {atCrc atSetup : Option (List UInt8)}
    (h : parserStep s (.reload atCrc atSetup) = some t)
    (hcrc : ¬ (crc32File s.parser.crc32Table atCrc ≠ 0 ∧
      crc32File s.parser.crc32Table atCrc ≠ s.parser.lastCrc)) : t = s := by
  rw [parserStep, parserReloadConfig_same _ _ _ hcrc, Option.ite_none_right_eq_some] at h
  exact (Option.some.inj h.2).symm

/-- What a reload does that finds a new checksum. -/
theorem parserStep_reload_new {atCrc atSetup : Option (List UInt8)}
    (h : parserStep s (.reload atCrc atSetup) = some t)
    (hcrc : crc32File s.parser.crc32Table atCrc ≠ 0 ∧
      crc32File s.parser.crc32Table atCrc ≠ s.parser.lastCrc) :
    s.phase = .loaded ∧ t.phase = .loaded ∧ t.parsedFrom = atSetup.or s.parsedFrom ∧
      t.parser.crc32Table = s.parser.crc32Table ∧
      t.parser.lastCrc = crc32File s.parser.crc32Table atCrc ∧
      ∀ text, atSetup = some text →
        t.parser.console.cfgServer = parsed s.parser.console.cfgServer text := by
  obtain ⟨c, hc, hcfg⟩ := parserReloadConfig_new s.parser atSetup hcrc
  rw [parserStep, hc, Option.ite_none_right_eq_some] at h
  obtain ⟨hp, h⟩ := h
  obtain rfl := Option.some.inj h
  exact ⟨hp, hp, rfl, rfl, rfl, hcfg⟩

theorem ParserSystem.inv_start (cfg : CfgServerServer) : (ParserSystem.start cfg).Inv := rfl

theorem ParserSystem.Inv.noEditMissed (h : s.Inv) : NoEditMissed s := by
  intro text last hlast h0 hne t ht
  have hcrc : crc32File s.parser.crc32Table (some text) ≠ 0 ∧
      crc32File s.parser.crc32Table (some text) ≠ s.parser.lastCrc := by
    refine ⟨h0, fun heq ↦ ?_⟩
    rw [Inv] at h
    split at h
    · obtain ⟨last', hlast', hl⟩ := h
      obtain rfl := Option.some.inj (hlast.symm.trans hlast')
      rcases hl with hl | hl
      · exact h0 (heq.trans hl)
      · exact hne (heq.trans hl)
    · exact absurd (h.symm.trans hlast) (by simp)
  obtain ⟨-, -, hfrom, -, -, hcfg⟩ := parserStep_reload_new ht hcrc
  exact ⟨hfrom, hcfg text rfl⟩

/-- A faithful call keeps the invariant. -/
theorem ParserSystem.Inv.step (h : s.Inv) {e : ParserEvent} (hok : e.Faithful s)
    (ht : parserStep s e = some t) : t.Inv := by
  cases e with
  | load atSetup atCrc =>
    obtain ⟨-, ⟨hp, -, hfrom⟩ | ⟨text, rfl, hp, hfrom, htable, hlast, -⟩⟩ := parserStep_load ht
    · rw [Inv, hp]; exact hfrom
    · rw [Inv, hp]
      refine ⟨text, hfrom, ?_⟩
      rw [crc, htable, hlast]
      by_cases h0 : crc32File generateCrc32Table atCrc = 0
      · exact Or.inl h0
      · exact Or.inr (hok h0 text rfl)
  | reload atCrc atSetup =>
    by_cases hcrc : crc32File s.parser.crc32Table atCrc ≠ 0 ∧
        crc32File s.parser.crc32Table atCrc ≠ s.parser.lastCrc
    · obtain ⟨hs, hp, hfrom, htable, hlast, -⟩ := parserStep_reload_new ht hcrc
      rw [Inv, hs] at h
      obtain ⟨last, hs', -⟩ := h
      obtain ⟨text, htext⟩ : ∃ text, atSetup.or s.parsedFrom = some text := by
        rw [hs']; cases atSetup with
        | none => exact ⟨last, rfl⟩
        | some text => exact ⟨text, rfl⟩
      rw [Inv, hp]
      refine ⟨text, hfrom.trans htext, Or.inr ?_⟩
      rw [crc, htable, hlast]
      exact hok hcrc.1 hcrc.2 text htext
    · rw [parserStep_reload_same ht hcrc]; exact h

/-- A text whose checksum is in `last_crc` is not parsed. -/
theorem not_noEditMissed_of_lastCrc (text : List UInt8) {last : List UInt8} (hp : s.phase = .loaded)
    (hlast : s.parsedFrom = some last) (h0 : s.crc text ≠ 0) (hne : s.crc text ≠ s.crc last)
    (hcrc : s.parser.lastCrc = s.crc text) : ¬ NoEditMissed s := by
  intro h
  have hsame := parserReloadConfig_same s.parser (some text) (some text) fun hn ↦
    hn.2 hcrc.symm
  have hstep : parserStep s (.reload (some text) (some text)) = some s := by
    rw [parserStep, hsame, if_pos hp]; rfl
  have htext := (h text last hlast h0 hne s hstep).1
  rw [Option.some.inj (htext.symm.trans hlast)] at hne
  exact hne rfl

/-- After a call that is not faithful, the text whose checksum it has kept is missed. -/
theorem not_noEditMissed_of_not_faithful {e : ParserEvent} (hok : ¬ e.Faithful s)
    (ht : parserStep s e = some t) : ¬ NoEditMissed t := by
  cases e with
  | load atSetup atCrc =>
    simp only [ParserEvent.Faithful, not_forall] at hok
    obtain ⟨h0, last, rfl, hne⟩ := hok
    obtain ⟨-, ⟨-, hnone, -⟩ | ⟨_, hl, hp, hfrom, htable, hlast, -⟩⟩ := parserStep_load ht
    · exact absurd hnone (by simp)
    · obtain rfl := Option.some.inj hl
      cases atCrc with
      | none => exact absurd rfl h0
      | some text =>
        have hcrc (u : List UInt8) : t.crc u = crc32File generateCrc32Table (some u) := by
          rw [ParserSystem.crc, htable]
        refine not_noEditMissed_of_lastCrc text hp hfrom ?_ ?_ ?_
        · rw [hcrc]; exact h0
        · rw [hcrc, hcrc]; exact hne
        · rw [hcrc]; exact hlast
  | reload atCrc atSetup =>
    simp only [ParserEvent.Faithful, not_forall] at hok
    obtain ⟨h0, hl, last, hlast', hne⟩ := hok
    obtain ⟨-, hp, hfrom, htable, hlast, -⟩ := parserStep_reload_new ht ⟨h0, hl⟩
    cases atCrc with
    | none => exact absurd rfl h0
    | some text =>
      have hcrc (u : List UInt8) : t.crc u = s.crc u := by
        rw [ParserSystem.crc, htable, ParserSystem.crc]
      refine not_noEditMissed_of_lastCrc text hp (hfrom.trans hlast') ?_ ?_ ?_
      · rw [hcrc]; exact h0
      · rw [hcrc, hcrc]; exact hne
      · rw [hcrc]; exact hlast

end

/-- **No edit is missed** throughout a run exactly when every call of the run leaves the checksum of
the parsed text behind, or zero. -/
theorem parserStep_noEditMissed_iff (cfg : CfgServerServer) (es : List ParserEvent) :
    Always parserStep NoEditMissed (.start cfg) es ↔
      Guarded parserStep (fun s e ↦ e.Faithful s) (.start cfg) es :=
  always_iff_guarded ParserSystem.Inv (fun _ h ↦ h.noEditMissed)
    (fun _ _ _ h hok ht ↦ h.step hok ht)
    (fun _ _ _ _ hok ht ↦ not_noEditMissed_of_not_faithful hok ht) es
    (ParserSystem.inv_start cfg)

/-- The file is edited from `1` to `2`; the reload that notices the edit cannot open the file a
second time.  From then on the text `2` is not parsed. -/
theorem not_noEditMissed : ¬ ∀ (cfg : CfgServerServer) (es : List ParserEvent),
    Always parserStep NoEditMissed (.start cfg) es := by
  intro h
  obtain ⟨s, hs⟩ : ∃ s, run parserStep (.start .zero) [.load (some [0x31]) (some [0x31]),
      .reload (some [0x32]) none] = some s := ⟨_, rfl⟩
  have hrun : (run parserStep (.start .zero) [.load (some [0x31]) (some [0x31]),
      .reload (some [0x32]) none]).map (fun s ↦ (s.phase, s.parsedFrom, s.parser.lastCrc,
        s.crc [0x31], s.crc [0x32])) =
      some (.loaded, some [0x31], 0x1ad5be0d, 0x83dcefb7, 0x1ad5be0d) := by decide +kernel
  rw [hs, Option.map_some, Option.some_inj] at hrun
  simp only [Prod.mk.injEq] at hrun
  obtain ⟨hp, hfrom, hlast, h1, h2⟩ := hrun
  refine not_noEditMissed_of_lastCrc [0x32] hp hfrom ?_ ?_ ?_ ((h .zero _).of_run hs)
  · rw [h2]; decide
  · rw [h1, h2]; decide
  · rw [hlast, h2]

end DmmrOrbit
