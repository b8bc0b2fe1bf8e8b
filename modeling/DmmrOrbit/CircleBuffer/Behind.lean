import DmmrOrbit.CircleBuffer.Lap
import DmmrOrbit.Lib.Transition
import DmmrOrbit.Parser.Reload

/-!
# Behind the cursor

A session worker waits until the writer has left the entry it wants to read, which it asks
`is_behind_cursor`.  The test compares the distance to the cursor, round the ring, with the size of
the ring, but it takes that size from the configuration, which `parser_reload_config` may change
while the array of the ring stays as it is.  `isBehindCursorIn` is the test with that size apart,
and `isBehindCursorIn_link` is the case where it is still the number of entries.

A `RingSystem` is the ring with the parser, `ringStep` a forward step of the writer or a reload.
`Released` says of a state that the entries behind the cursor are all but the one it is on, and
`ringStep_released_iff` is the result: this holds throughout a run exactly when every step leaves
the cursor on the first entry, or on one with an index below the configured size.
-/

set_option autoImplicit false

namespace DmmrOrbit

open CircleQueue Transition

/-! ## The test -/

/-- The address a link points to. -/
def RingLayout.linkAddr (l : RingLayout) : Link ℕ → ℤ
  | .elm i => l.buffer + i * l.entrySize
  | .head => l.head

/-- `__is_behind_cursor`, with `this->cursor` as its last argument. -/
def isBehindCursorIn (l : RingLayout) (circleBufferSize : ℕ) (cur cursor : Link ℕ) : Bool :=
  let a := l.linkAddr cur
  let b := l.linkAddr cursor
  let base := l.buffer
  let last := l.buffer + circleBufferSize * l.entrySize
  if a = b then false
  else if a < b then b - a < last - base
  else (last - a) + (b - base) < last - base

/-- With the configured size equal to the number of entries this is the test of the ring. -/
theorem isBehindCursorIn_link {N : ℕ} (l : RingLayout) (cur cursor : Elm N) :
    isBehindCursorIn l N cur.link cursor.link = isBehindCursor l cur cursor := by
  have haddr (e : Elm N) : l.linkAddr e.link = l.addr e := by cases e <;> rfl
  rw [isBehindCursorIn, isBehindCursor, haddr, haddr]

/-- An entry behind the cursor's is behind it; one in front of it in the array only if it is nearer
than the configured size. -/
theorem isBehindCursorIn_iff (l : RingLayout) (m i j : ℕ) :
    isBehindCursorIn l m (.elm i) (.elm j) = true ↔ j < i ∨ i < j ∧ j - i < m := by
  have hpos : (0 : ℤ) < l.entrySize := by exact_mod_cast l.entrySize_pos
  have haddr (k : ℕ) : l.linkAddr (.elm k) = l.buffer + (k : ℤ) * l.entrySize := rfl
  rw [isBehindCursorIn, haddr, haddr]
  rcases Nat.lt_trichotomy i j with hij | rfl | hij
  · have hlt : (i : ℤ) * l.entrySize < j * l.entrySize :=
      mul_lt_mul_of_pos_right (by exact_mod_cast hij) hpos
    have hdist : ((j : ℤ) - i) * l.entrySize < m * l.entrySize ↔ (j : ℤ) - i < m :=
      mul_lt_mul_iff_left₀ hpos
    rw [sub_mul] at hdist
    rw [if_neg (by omega), if_pos (by omega)]
    simp only [decide_eq_true_eq]
    constructor
    · intro h
      have := hdist.1 (by omega)
      omega
    · intro h
      have := hdist.2 (by omega)
      omega
  · simp
  · have hlt : (j : ℤ) * l.entrySize < i * l.entrySize :=
      mul_lt_mul_of_pos_right (by exact_mod_cast hij) hpos
    rw [if_neg (by omega), if_neg (by omega)]
    simp only [decide_eq_true_eq]
    exact iff_of_true (by omega) (Or.inl hij)

/-! ## The writer and the configuration -/

/-- The ring that `start` has built, the writer's cursor, and the parser with the configuration.
`size` is the number of entries allocated. -/
structure RingSystem where
  size : ℕ
  head : CircleqHead
  cursor : Link ℕ
  parser : DmmrParser

namespace RingSystem

/-- `circle_buffer_size`, as the configuration has it now. -/
def circleBufferSize (s : RingSystem) : ℕ := s.parser.console.cfgServer.circleBufferSize.toNat

/-- After `start`, with the queue head and the links of the entries as they were in memory. -/
def start (memory : CircleqHead) (p : DmmrParser) : RingSystem :=
  let size := p.console.cfgServer.circleBufferSize.toNat
  let head := CircleqHead.start size memory
  { size, head, cursor := head.first, parser := p }

/-- The entries behind the cursor are all but the cursor's. -/
def Released (l : RingLayout) (s : RingSystem) : Prop :=
  ∀ i < s.size,
    (isBehindCursorIn l s.circleBufferSize (.elm i) s.cursor = true ↔ .elm i ≠ s.cursor)

end RingSystem

/-- A forward step of the writer, or a reload with what its two opens find. -/
inductive RingEvent
  | foward
  | reload (atCrc atSetup : Option (List UInt8))
  deriving DecidableEq, Repr

def ringStep (s : RingSystem) : RingEvent → Option RingSystem
  | .foward => some { s with cursor := s.head.fowardCurrentNode s.cursor }
  | .reload atCrc atSetup => some { s with parser := (parserReloadConfig s.parser atCrc atSetup).1 }

/-- The step leaves the cursor on the first entry, or on one with an index below the configured
size.  From the entry before the last one, the writer goes on to the first. -/
def RingEvent.Near (s : RingSystem) : RingEvent → Prop
  | .foward => ∀ j, s.cursor = .elm j → j + 2 = s.size ∨ j + 1 < s.circleBufferSize
  | .reload atCrc atSetup => ∀ j, s.cursor = .elm j → j = 0 ∨
      j < (parserReloadConfig s.parser atCrc atSetup).1.console.cfgServer.circleBufferSize.toNat

/-! ## Runs -/

/-- What every step keeps: the ring is the one that was built, and the cursor is on an entry, not
the last one. -/
structure RingSystem.Built (s : RingSystem) : Prop where
  holds : Holds s.head (List.range s.size)
  cursor : ∃ j, s.cursor = .elm j ∧ j + 1 < s.size

/-- A forward step from an entry that is not the last one. -/
theorem fowardCurrentNode_elm {N : ℕ} {q : CircleqHead} (h : Holds q (List.range N)) {j : ℕ}
    (hj : j + 1 < N) :
    q.fowardCurrentNode (.elm j) = if j + 2 = N then .elm 0 else .elm (j + 1) := by
  have hN : 2 ≤ N := by omega
  have : NeZero N := ⟨by omega⟩
  have hslot : ((slot hN j : Fin N) : ℕ) = j := Nat.mod_eq_of_lt (by omega)
  have hlink : (Elm.entry (slot hN j)).link = .elm j := by rw [Elm.link, hslot]
  rw [← hlink, fowardCurrentNode_link h, foward_slot, Elm.link]
  split
  · next hwrap =>
    have hmod : (j + 1) % (N - 1) = 0 := by
      rw [show j + 1 = N - 1 by omega, Nat.mod_self]
    exact congrArg Link.elm hmod
  · exact congrArg Link.elm (Nat.mod_eq_of_lt (by omega))

namespace RingSystem.Built

variable {s t : RingSystem}

theorem start (memory : CircleqHead) {p : DmmrParser}
    (hN : 2 ≤ p.console.cfgServer.circleBufferSize.toNat) :
    (RingSystem.start memory p).Built ∧ (RingSystem.start memory p).cursor = .elm 0 := by
  have hholds := start_holds (Nat.le_of_succ_le hN) memory
  have : NeZero p.console.cfgServer.circleBufferSize.toNat := ⟨by omega⟩
  have hcursor : (RingSystem.start memory p).cursor = .elm 0 := first_eq_link hholds
  exact ⟨⟨hholds, 0, hcursor, hN⟩, hcursor⟩

theorem step (h : s.Built) {e : RingEvent} (hs : ringStep s e = some t) : t.Built := by
  cases e with
  | foward =>
    obtain rfl := Option.some.inj hs
    obtain ⟨j, hj, hlt⟩ := h.cursor
    refine ⟨h.holds, ?_⟩
    show ∃ i, s.head.fowardCurrentNode s.cursor = .elm i ∧ i + 1 < s.size
    rw [hj, fowardCurrentNode_elm h.holds hlt]
    split
    · exact ⟨0, rfl, by omega⟩
    · exact ⟨j + 1, rfl, by omega⟩
  | reload atCrc atSetup =>
    obtain rfl := Option.some.inj hs
    exact ⟨h.holds, h.cursor⟩

/-- All entries but the cursor's are released exactly when the first one is. -/
theorem released_iff (h : s.Built) (l : RingLayout) {j : ℕ} (hj : s.cursor = .elm j) :
    s.Released l ↔ j = 0 ∨ j < s.circleBufferSize := by
  obtain ⟨j', hj', hlt⟩ := h.cursor
  obtain rfl : j' = j := Link.elm.inj (hj'.symm.trans hj)
  simp only [RingSystem.Released, hj, isBehindCursorIn_iff, ne_eq, Link.elm.injEq]
  constructor
  · intro hrel
    have := hrel 0 (by omega)
    omega
  · intro hnear i hi
    omega

/-- A step leads to a state with the entries released exactly when it is a near one. -/
theorem released_step (h : s.Built) (l : RingLayout) {e : RingEvent} (hs : ringStep s e = some t) :
    t.Released l ↔ e.Near s := by
  have ht := h.step hs
  obtain ⟨j, hj, hlt⟩ := h.cursor
  have hall {p : ℕ → Prop} : (∀ i, s.cursor = .elm i → p i) ↔ p j := by
    rw [hj]
    exact ⟨fun hp ↦ hp j rfl, fun hp i hi ↦ Link.elm.inj hi ▸ hp⟩
  cases e with
  | foward =>
    obtain rfl := Option.some.inj hs
    have hcursor := fowardCurrentNode_elm h.holds hlt
    rw [← hj] at hcursor
    rw [RingEvent.Near, hall]
    split at hcursor
    · next hwrap =>
      rw [ht.released_iff l hcursor]
      exact iff_of_true (Or.inl rfl) (Or.inl hwrap)
    · next hne =>
      rw [ht.released_iff l hcursor, or_iff_right (Nat.succ_ne_zero j), or_iff_right hne]
      rfl
  | reload atCrc atSetup =>
    obtain rfl := Option.some.inj hs
    rw [ht.released_iff l (j := j) hj, RingEvent.Near, hall]
    rfl

end RingSystem.Built

/-- **Every entry the writer has left is released** throughout a run exactly when every step of the
run leaves the cursor on the first entry, or on one with an index below the size that the
configuration has then. -/
theorem ringStep_released_iff (l : RingLayout) (memory : CircleqHead) (p : DmmrParser)
    (hN : 2 ≤ p.console.cfgServer.circleBufferSize.toNat) (es : List RingEvent) :
    Always ringStep (RingSystem.Released l) (.start memory p) es ↔
      Guarded ringStep (fun s e ↦ e.Near s) (.start memory p) es := by
  obtain ⟨hbuilt, hcursor⟩ := RingSystem.Built.start memory hN
  refine always_iff_guarded (fun s : RingSystem ↦ s.Built ∧ s.Released l) (fun _ h ↦ h.2) ?_ ?_ es
    ⟨hbuilt, (hbuilt.released_iff l hcursor).2 (Or.inl rfl)⟩
  · rintro s e t ⟨hs, -⟩ hok ht
    exact ⟨hs.step ht, (hs.released_step l ht).2 hok⟩
  · rintro s e t ⟨hs, -⟩ hok ht hrel
    exact hok ((hs.released_step l ht).1 hrel)

/-! ## A configured size below the cursor -/

/-- `CIRCLE_BUFFER_SIZE` with a size of one digit. -/
def sizeText (d : UInt8) : List UInt8 :=
  Keyword.circleBufferSize.text ++ ([0x20] ++ ([d] ++ []))

theorem parsed_sizeText {d : UInt8} (hd : d ∈ Scanner.digit) (cfg : CfgServerServer) :
    parsed cfg (sizeText d) = cfg.storeNumber [d] .circleBufferSize := by
  have hspace : Scanner.IsSpace 0x20 := Or.inl List.mem_cons_self
  have htokens : Scanner.tokens (sizeText d) =
      [⟨.keyword, Keyword.circleBufferSize.text⟩, ⟨.number, [d]⟩] := by
    rw [sizeText, Scanner.tokens_keyword _
        (by rintro a ⟨⟩; exact Scanner.not_identTail_of_isSpace hspace),
      Scanner.tokens_spaces (fun b hb ↦ List.mem_singleton.1 hb ▸ hspace),
      Scanner.tokens_number (List.cons_ne_nil _ _) (by simpa using hd) (by simp),
      Scanner.tokens_nil]
  rw [parsed, htokens, handleTokens_cons, handleToken_keyword rfl]
  rfl

/-- The parser after it has loaded a ring size of one digit. -/
def loadedSize (d : UInt8) : DmmrParser :=
  (parserLoadConfig (.zero .zero) (some (sizeText d)) (some (sizeText d))).2.1

theorem loadedSize_eq {d : UInt8} (hd : d ∈ Scanner.digit) :
    ∃ c, loadedSize d = ⟨generateCrc32Table, crc32File generateCrc32Table (some (sizeText d)), c⟩ ∧
      c.cfgServer = CfgServerServer.zero.storeNumber [d] .circleBufferSize := by
  obtain ⟨c, hc, hcfg⟩ := parserLoadConfig_some (.zero .zero) (sizeText d) (some (sizeText d))
  exact ⟨c, by rw [loadedSize, hc], hcfg.trans (parsed_sizeText hd .zero)⟩

theorem loadedSize_four : (loadedSize 0x34).console.cfgServer.circleBufferSize.toNat = 4 := by
  obtain ⟨c, hc, hcfg⟩ := loadedSize_eq (d := 0x34) (by decide)
  rw [hc, hcfg]
  decide

/-- A ring at the address zero, for definite addresses. -/
def someLayout : RingLayout := ⟨0, -64, 64, by decide⟩

/-- The head of a queue in zeroed memory. -/
def someHead : CircleqHead := ⟨.head, .head, fun _ ↦ .head, fun _ ↦ .head⟩

/-- A ring of four entries, and one forward step. -/
theorem ringStep_released_four :
    2 ≤ (loadedSize 0x34).console.cfgServer.circleBufferSize.toNat ∧
      (Always ringStep (RingSystem.Released someLayout) (.start someHead (loadedSize 0x34))
        [.foward] ↔
      Guarded ringStep (fun s e ↦ e.Near s) (.start someHead (loadedSize 0x34)) [.foward]) := by
  have hN : 2 ≤ (loadedSize 0x34).console.cfgServer.circleBufferSize.toNat := by
    rw [loadedSize_four]; decide
  exact ⟨hN, ringStep_released_iff someLayout someHead _ hN [.foward]⟩

/-- A reload that finds the size of one digit in the file, after another one was loaded. -/
theorem reload_sizeText {d d' : UInt8} (hd : d ∈ Scanner.digit) (hd' : d' ∈ Scanner.digit)
    (hcrc : crc32File generateCrc32Table (some (sizeText d')) ≠ 0 ∧
      crc32File generateCrc32Table (some (sizeText d')) ≠
        crc32File generateCrc32Table (some (sizeText d))) :
    let p := (parserReloadConfig (loadedSize d) (some (sizeText d')) (some (sizeText d'))).1
    p.console.cfgServer = (CfgServerServer.zero.storeNumber [d] .circleBufferSize).storeNumber [d']
      .circleBufferSize := by
  intro p
  obtain ⟨c, hc, hcfg⟩ := loadedSize_eq hd
  obtain ⟨c', hc', hcfg'⟩ := parserReloadConfig_new
    ⟨generateCrc32Table, crc32File generateCrc32Table (some (sizeText d)), c⟩
    (some (sizeText d')) hcrc
  have hp : p.console = c' := by
    show (parserReloadConfig (loadedSize d) _ _).1.console = c'
    rw [hc, hc']
  rw [hp, hcfg' _ rfl, parsed_sizeText hd', hcfg]

/-- The ring is started with four entries, the writer goes on to the third, and the size in the file
is changed to one: the first entry, which the writer has left, is not released any more. -/
theorem not_ringStep_released : ¬ ∀ (l : RingLayout) (memory : CircleqHead) (p : DmmrParser)
    (es : List RingEvent), 2 ≤ p.console.cfgServer.circleBufferSize.toNat →
    Always ringStep (RingSystem.Released l) (.start memory p) es := by
  intro h
  have hrun := h someLayout someHead (loadedSize 0x34)
    [.foward, .foward, .reload (some (sizeText 0x31)) (some (sizeText 0x31))]
    (by rw [loadedSize_four]; decide)
  have hrel := hrun.of_run (t := ⟨4, CircleqHead.start 4 someHead, .elm 2,
    (parserReloadConfig (loadedSize 0x34) (some (sizeText 0x31)) (some (sizeText 0x31))).1⟩) (by
      have hstart : RingSystem.start someHead (loadedSize 0x34) =
          ⟨4, CircleqHead.start 4 someHead, .elm 0, loadedSize 0x34⟩ := by
        rw [RingSystem.start, loadedSize_four]
        rfl
      rw [hstart]
      rfl)
  have hsize := congrArg (fun cfg ↦ cfg.circleBufferSize.toNat)
    (@reload_sizeText 0x34 0x31 (by decide) (by decide) (by decide +kernel))
  have hbehind := (hrel 0 (by decide)).2 (by decide)
  rw [isBehindCursorIn_iff, RingSystem.circleBufferSize] at hbehind
  dsimp only at hbehind hsize
  rw [hsize] at hbehind
  exact absurd hbehind (by decide)

end DmmrOrbit
