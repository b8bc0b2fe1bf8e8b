import Mathlib.Data.List.ReduceOption
import Mathlib.Tactic.NormNum.Prime
import DmmrOrbit.Lib.CrcErrors
import DmmrOrbit.Parser.Reload

/-!
# Small edits of the configuration

`parser_reload_config` looks at the checksum of the configuration file and at nothing else, so that
an edit is noticed when it changes the checksum.  The polynomial of `generate_crc32_table` has its
highest bit, and the period of the shift is the largest there is, `2 ^ 32 - 1`
(`iterate_shift_polynomial_ne`).  `crc32FileBlocks_detects` concludes that `crc32_file` tells two
contents of one length apart if they differ in no more than 32 bits in a row, or in two bits that
are less than `2 ^ 32 - 1` bits apart.

`reloads_follow_edits` is what this means for the server: it loads a file and then looks at it again
and again, while the file stays as it is or is edited in this small way from one look to the next.
`parseLog` is what each of the calls parses: it is the text of the file where the file has been
edited since the look before, and nothing where it has not.
-/

set_option autoImplicit false

open Transition

namespace DmmrOrbit

/-! ## The polynomial -/

theorem msb_polynomial : (0xEDB88320#32).msb = true := rfl

/-- The prime factors of the period. -/
theorem eq_of_prime_dvd {p : ℕ} (hp : p.Prime) (h : p ∣ 2 ^ 32 - 1) :
    p = 3 ∨ p = 5 ∨ p = 17 ∨ p = 257 ∨ p = 65537 := by
  have hfactor : 2 ^ 32 - 1 = 3 * (5 * (17 * (257 * 65537))) := rfl
  rw [hfactor, hp.dvd_mul, hp.dvd_mul, hp.dvd_mul, hp.dvd_mul] at h
  have heq {q : ℕ} (hq : q.Prime) (hdvd : p ∣ q) : p = q :=
    (Nat.prime_dvd_prime_iff_eq hp hq).1 hdvd
  exact h.imp (heq (by norm_num)) <| Or.imp (heq (by norm_num)) <| Or.imp (heq (by norm_num)) <|
    Or.imp (heq (by norm_num)) (heq (by norm_num))

/-- **The period is maximal.** -/
theorem iterate_shift_polynomial_ne {n : ℕ} (hn : 0 < n) (hlt : n < 2 ^ 32 - 1) :
    (Crc.shift 0xEDB88320#32)^[n] 1#32 ≠ 1#32 := by
  have hpower {n : ℕ} (h : n < 2 ^ 32) := Crc.power_eq 0xEDB88320#32 (by decide) h
  refine Crc.iterate_shift_one_ne msb_polynomial (Crc.iterate_ne_of_maximal ?_ ?_ hn hlt)
  · rw [← hpower (by norm_num)]
    decide +kernel
  · intro p hp hdvd
    rw [← hpower ((Nat.div_le_self _ _).trans_lt (by norm_num))]
    rcases eq_of_prime_dvd hp hdvd with rfl | rfl | rfl | rfl | rfl <;> decide +kernel

/-! ## Edits -/

/-- The bit `j` of a file is not what it was. -/
def BitChanged (a b : List UInt8) (j : ℕ) : Prop := (Crc.bits a)[j]? ≠ (Crc.bits b)[j]?

/-- A file is edited, without a change of its length, in no more than 32 bits in a row or in two
bits that are not too far from each other. -/
structure SmallEdit (a b : List UInt8) : Prop where
  length_eq : a.length = b.length
  ne : a ≠ b
  near : (∃ i, ∀ j, BitChanged a b j → i ≤ j ∧ j < i + 32) ∨
    ∃ i j, i ≤ j ∧ j - i < 2 ^ 32 - 1 ∧ ∀ l, BitChanged a b l → l = i ∨ l = j

/-- Small edits change the checksum. -/
theorem SmallEdit.crc32File_ne {a b : List UInt8} (h : SmallEdit a b) :
    crc32File generateCrc32Table (some a) ≠ crc32File generateCrc32Table (some b) := by
  have hbits (data : List UInt8) :
      (crc32File generateCrc32Table (some data)).toBitVec =
        Crc.checksum 0xEDB88320#32 0xFFFFFFFF#32 0xFFFFFFFF#32 data :=
    congrArg UInt32.toBitVec (crc32Buffer_eq data)
  intro heq
  rw [← UInt32.toBitVec_inj, hbits, hbits] at heq
  rcases h.near with ⟨i, hwin⟩ | ⟨i, j, hij, hlt, htwo⟩
  · exact Crc.checksum_ne_of_burst msb_polynomial h.length_eq h.ne hwin _ _ heq
  · refine Crc.checksum_ne_of_two_bits msb_polynomial h.length_eq h.ne hij htwo (fun n hn hle ↦ ?_)
      _ _ heq
    exact iterate_shift_polynomial_ne hn (by omega)

/-- **Small edits are detected**, however `fread` returns the two files. -/
theorem crc32FileBlocks_detects {a b : List UInt8} (h : SmallEdit a b) (fa : Freads a)
    (fb : Freads b) : crc32FileBlocks generateCrc32Table (some fa.blocks) ≠
      crc32FileBlocks generateCrc32Table (some fb.blocks) := by
  rw [crc32FileBlocks_eq, crc32FileBlocks_eq]
  exact h.crc32File_ne

/-- From `1` to `2`, two bits next to each other change. -/
theorem smallEdit_digit : SmallEdit [0x31] [0x32] where
  length_eq := rfl
  ne := by decide
  near := by
    refine Or.inl ⟨0, fun j hj ↦ ⟨Nat.zero_le j, ?_⟩⟩
    by_contra hle
    refine hj ?_
    rw [List.getElem?_eq_none (by rw [Crc.length_bits, List.length_singleton]; omega),
      List.getElem?_eq_none (by rw [Crc.length_bits, List.length_singleton]; omega)]

/-- Two bits that are more than 32 bits apart. -/
theorem smallEdit_ends : SmallEdit [0x31, 0x30, 0x30, 0x30, 0x30, 0x31]
    [0x30, 0x30, 0x30, 0x30, 0x30, 0x30] where
  length_eq := rfl
  ne := by decide
  near := by
    have hends : ∀ l < 48, (Crc.bits [0x31, 0x30, 0x30, 0x30, 0x30, 0x31])[l]? ≠
        (Crc.bits [0x30, 0x30, 0x30, 0x30, 0x30, 0x30])[l]? → l = 0 ∨ l = 40 := by decide +kernel
    refine Or.inr ⟨0, 40, by decide, by decide, fun l hl ↦ ?_⟩
    by_cases hlt : l < 48
    · exact hends l hlt hl
    · refine absurd ?_ hl
      rw [List.getElem?_eq_none (by rw [Crc.length_bits, List.length_cons]; simp; omega),
        List.getElem?_eq_none (by rw [Crc.length_bits, List.length_cons]; simp; omega)]

/-- One digit, and the two ends of a file that is read in other blocks the second time. -/
theorem crc32FileBlocks_detects_digit :
    (SmallEdit [0x31] [0x32] ∧ crc32FileBlocks generateCrc32Table (some [[0x31]]) ≠
      crc32FileBlocks generateCrc32Table (some [[0x32]])) ∧
    crc32FileBlocks generateCrc32Table (some [[0x31, 0x30], [0x30, 0x30, 0x30], [0x31]]) ≠
      crc32FileBlocks generateCrc32Table (some [[0x30, 0x30, 0x30, 0x30], [0x30, 0x30]]) :=
  ⟨⟨smallEdit_digit, crc32FileBlocks_detects smallEdit_digit ⟨[[0x31]], rfl, by simp, by simp⟩
    ⟨[[0x32]], rfl, by simp, by simp⟩⟩,
    crc32FileBlocks_detects smallEdit_ends
      ⟨[[0x31, 0x30], [0x30, 0x30, 0x30], [0x31]], rfl, by simp, by simp⟩
      ⟨[[0x30, 0x30, 0x30, 0x30], [0x30, 0x30]], rfl, by simp, by simp⟩⟩

/-! ## Looking at the file -/

/-- The text that a call parses, if it parses one. -/
def ParserEvent.parses (s : ParserSystem) : ParserEvent → Option (List UInt8)
  | .load atSetup atCrc => (parserLoadConfig s.parser atSetup atCrc).2.2
  | .reload atCrc atSetup => (parserReloadConfig s.parser atCrc atSetup).2

/-- What the calls of a run parse, one entry for each call. -/
def parseLog : ParserSystem → List ParserEvent → List (Option (List UInt8))
  | _, [] => []
  | s, e :: es =>
    match parserStep s e with
    | none => []
    | some t => e.parses s :: parseLog t es

/-- What there is to parse at a look: a text that is not the one before. -/
def edited (before text : List UInt8) : Option (List UInt8) :=
  if text = before then none else some text

/-- From one look to the next the file stays as it is, or is edited in a small way to a text whose
checksum is not zero. -/
def Followed (a b : List UInt8) : Prop :=
  b = a ∨ SmallEdit a b ∧ crc32File generateCrc32Table (some b) ≠ 0

/-- The parser is up to date with a text. -/
structure UpToDate (s : ParserSystem) (current : List UInt8) : Prop where
  phase_eq : s.phase = .loaded
  table_eq : s.parser.crc32Table = generateCrc32Table
  lastCrc_eq : s.parser.lastCrc = crc32File generateCrc32Table (some current)
  parsedFrom_eq : s.parsedFrom = some current

section

variable {s : ParserSystem} {current text : List UInt8}

/-- A look at a file that has not been edited changes nothing. -/
theorem UpToDate.same (h : UpToDate s current) :
    parserStep s (.reload (some current) (some current)) = some s ∧
      ParserEvent.parses s (.reload (some current) (some current)) = none := by
  have hsame := parserReloadConfig_same s.parser (some current) (some current) fun hn ↦
    hn.2 (h.table_eq ▸ h.lastCrc_eq.symm)
  rw [parserStep, ParserEvent.parses, hsame, if_pos h.phase_eq]
  exact ⟨rfl, rfl⟩

/-- A small edit is parsed. -/
theorem UpToDate.edit (h : UpToDate s current) (hedit : SmallEdit current text)
    (h0 : crc32File generateCrc32Table (some text) ≠ 0) :
    ∃ t, parserStep s (.reload (some text) (some text)) = some t ∧
      ParserEvent.parses s (.reload (some text) (some text)) = some text ∧ UpToDate t text ∧
      t.parser.console.cfgServer = parsed s.parser.console.cfgServer text := by
  have hnew : crc32File s.parser.crc32Table (some text) ≠ 0 ∧
      crc32File s.parser.crc32Table (some text) ≠ s.parser.lastCrc := by
    rw [h.table_eq, h.lastCrc_eq]
    exact ⟨h0, hedit.crc32File_ne.symm⟩
  obtain ⟨c, hc, hcfg⟩ := parserReloadConfig_new s.parser (some text) hnew
  refine ⟨⟨⟨s.parser.crc32Table, crc32File s.parser.crc32Table (some text), c⟩, s.phase, some text⟩,
    ?_, ?_, ⟨h.phase_eq, h.table_eq, ?_, rfl⟩, hcfg text rfl⟩
  · rw [parserStep, hc, if_pos h.phase_eq]
    rfl
  · rw [ParserEvent.parses, hc]
  · rw [h.table_eq]

/-- Any number of looks. -/
theorem UpToDate.run (h : UpToDate s current) {texts : List (List UInt8)}
    (hchain : List.IsChain Followed (current :: texts)) :
    ∃ t, run parserStep s (texts.map fun text ↦ .reload (some text) (some text)) = some t ∧
      UpToDate t ((current :: texts).getLast (by simp)) ∧
      parseLog s (texts.map fun text ↦ .reload (some text) (some text)) =
        List.zipWith edited (current :: texts) texts ∧
      t.parser.console.cfgServer =
        (List.zipWith edited (current :: texts) texts).reduceOption.foldl parsed
          s.parser.console.cfgServer := by
  induction texts generalizing s current with
  | nil => exact ⟨s, rfl, h, rfl, rfl⟩
  | cons text texts ih =>
    obtain ⟨hfol, hchain⟩ := List.isChain_cons_cons.1 hchain
    rw [List.map_cons, Transition.run, List.getLast_cons (by simp), List.zipWith_cons_cons,
      parseLog]
    by_cases heq : text = current
    · rw [heq] at hchain ⊢
      obtain ⟨t, ht, hup, hlog, hcfg⟩ := ih h hchain
      rw [h.same.1, h.same.2, edited, if_pos rfl, List.reduceOption_cons_of_none]
      exact ⟨t, ht, hup, congrArg (none :: ·) hlog, hcfg⟩
    · obtain ⟨hedit, h0⟩ := hfol.resolve_left heq
      obtain ⟨u, hu, hparses, hup, hcfg⟩ := h.edit hedit h0
      obtain ⟨t, ht, hup, hlog, hcfg'⟩ := ih hup hchain
      rw [hu, hparses, edited, if_neg heq, List.reduceOption_cons_of_some, List.foldl_cons, ← hcfg]
      exact ⟨t, ht, hup, congrArg (some text :: ·) hlog, hcfg'⟩

end

/-- **Every small edit is followed.**  The server loads a file and looks at it again any number of
times, and from one look to the next the file is as it was or has been edited in a small way.  Then
the load parses its text, and each look parses the text it finds exactly if that is not the text of
the look before: every edit is parsed once, in its turn, and nothing else is.  The configuration is
that of the texts parsed, one after the other. -/
theorem reloads_follow_edits (cfg : CfgServerServer) (text : List UInt8) (texts : List (List UInt8))
    (hchain : List.IsChain Followed (text :: texts)) :
    let es : List ParserEvent := .load (some text) (some text) ::
      texts.map fun text ↦ .reload (some text) (some text)
    parseLog (.start cfg) es = some text :: List.zipWith edited (text :: texts) texts ∧
      ∃ t, run parserStep (.start cfg) es = some t ∧
        t.parsedFrom = some ((text :: texts).getLast (by simp)) ∧
        t.parser.console.cfgServer = (parseLog (.start cfg) es).reduceOption.foldl parsed cfg := by
  intro es
  obtain ⟨c, hc, hcfg⟩ := parserLoadConfig_some (.zero cfg) text (some text)
  have hload : parserStep (.start cfg) (.load (some text) (some text)) =
      some ⟨⟨generateCrc32Table, crc32File generateCrc32Table (some text), c⟩, .loaded,
        some text⟩ := by
    rw [parserStep, ParserSystem.start, if_pos rfl, hc]
    rfl
  have hparses : ParserEvent.parses (.start cfg) (.load (some text) (some text)) = some text := by
    rw [ParserEvent.parses, ParserSystem.start, hc]
  obtain ⟨t, ht, hup, hlog, hfollow⟩ := UpToDate.run (s := ⟨⟨generateCrc32Table,
    crc32File generateCrc32Table (some text), c⟩, .loaded, some text⟩) ⟨rfl, rfl, rfl, rfl⟩ hchain
  have hwhole : parseLog (.start cfg) es =
      some text :: List.zipWith edited (text :: texts) texts := by
    rw [parseLog, hload, hparses]
    exact congrArg (some text :: ·) hlog
  refine ⟨hwhole, t, ?_, hup.parsedFrom_eq, ?_⟩
  · rw [run, hload]
    exact ht
  · rw [hwhole, List.reduceOption_cons_of_some, List.foldl_cons, hfollow, hcfg]
    rfl

/-- The file is looked at twice, and edited from `1` to `2` before the second look. -/
theorem reloads_follow_edits_digit :
    parseLog (.start .zero) [.load (some [0x31]) (some [0x31]),
        .reload (some [0x31]) (some [0x31]), .reload (some [0x32]) (some [0x32])] =
      [some [0x31], none, some [0x32]] := by
  have hchain : List.IsChain Followed [[0x31], [0x31], [0x32]] := by
    refine .cons_cons (Or.inl rfl) (.cons_cons (Or.inr ⟨smallEdit_digit, ?_⟩) (.singleton _))
    decide +kernel
  exact (reloads_follow_edits .zero [0x31] [[0x31], [0x32]] hchain).1

end DmmrOrbit
