import DmmrOrbit.Lib.Lexer
import Mathlib.Data.List.TakeWhile
import Mathlib.Data.UInt

/-!
# The scanner

The rules of `scanner.l`, in the order of the file, over bytes.  A rule sends the token it has
matched with `SEND_TOKEN(type, yytext)` or, the rules for blanks and for the end of a line, sends
nothing.  `tokens` is the list of what `handle_token` is called with when `yylex` runs to the end of
a text.

`match_goes_on` says how a match can go on behind its first byte: as an identifier (a keyword is
one), as a number, as a run of blanks or as a quoted string.  Where the longest match ends follows
from it: `tokens_keyword`, `tokens_number`, `tokens_string`, `tokens_semicolon` and `tokens_spaces`
say how a text that starts with one of these is cut.
-/

set_option autoImplicit false

open RegularExpression Lexer

namespace DmmrOrbit

/-- The bytes of an ASCII text. -/
def ascii (s : String) : List UInt8 := s.toList.map fun c ↦ c.toNat.toUInt8

/-! ## The definitions section -/

/-- Any byte at all. -/
def anyByte : List UInt8 := (List.range 256).map Nat.toUInt8

theorem mem_anyByte (b : UInt8) : b ∈ anyByte :=
  List.mem_map.2 ⟨b.toNat, List.mem_range.2 b.toNat_lt, by simp⟩

/-- The class `[lo-hi]`. -/
def byteRange (lo hi : ℕ) : List UInt8 := (List.range' lo (hi + 1 - lo)).map Nat.toUInt8

namespace Scanner

/-- `DIGIT`, the class `[0-9]`. -/
def digit : List UInt8 := byteRange 0x30 0x39

/-- `LETTER`, the class `[a-zA-Z]`. -/
def letter : List UInt8 := byteRange 0x61 0x7a ++ byteRange 0x41 0x5a

def underscore : UInt8 := 0x5f

/-- `WS`. -/
def ws : List UInt8 := [0x20, 0x09]

/-- `NEWLINE`. -/
def newline : UInt8 := 0x0a

def quote : UInt8 := 0x22

def backslash : UInt8 := 0x5c

def comma : UInt8 := 0x2c

def semicolon : UInt8 := 0x3b

def dash : UInt8 := 0x2d

/-- The pattern `.`: any byte but the end of a line. -/
def dot : RegularExpression UInt8 := oneOf (anyByte.filter (· ≠ newline))

/-- `IDENT`. -/
def ident : RegularExpression UInt8 :=
  oneOf letter * (oneOf letter + oneOf digit + char underscore).star

/-- What may stand between two quotes: `[^\\\"]|\\.`. -/
def stringChar : RegularExpression UInt8 :=
  oneOf (anyByte.filter fun b ↦ b ≠ backslash ∧ b ≠ quote) + char backslash * dot

/-- `\"([^\\\"]|\\.)*\"`. -/
def string : RegularExpression UInt8 := char quote * (stringChar.star * char quote)

end Scanner

/-! ## Tokens -/

/-- The keywords of `scanner.l`, in its order. -/
inductive Keyword
  | sessionSize
  | sleepTime
  | circleBufferSize
  | maxPorts
  | realTimeDeadLine
  | realTimeUserDefined
  | trunkAcceptUri
  | trunkDispatchUri
  | schedulerPreemptiveDeadline
  | rbLogLevel
  deriving DecidableEq, Repr

namespace Keyword

def text : Keyword → List UInt8
  | sessionSize => ascii "SESSION_SIZE"
  | sleepTime => ascii "SLEEP_TIME"
  | circleBufferSize => ascii "CIRCLE_BUFFER_SIZE"
  | maxPorts => ascii "MAX_PORTS"
  | realTimeDeadLine => ascii "REAL_TIME_DEAD_LINE"
  | realTimeUserDefined => ascii "REAL_TIME_USER_DEFINED"
  | trunkAcceptUri => ascii "TRUNK_ACCEPT_URI"
  | trunkDispatchUri => ascii "TRUNK_DISPATCH_URI"
  | schedulerPreemptiveDeadline => ascii "SCHEDULER_PREEMPTIVE_DEADLINE"
  | rbLogLevel => ascii "RB_LOG_LEVEL"

def all : List Keyword :=
  [sessionSize, sleepTime, circleBufferSize, maxPorts, realTimeDeadLine, realTimeUserDefined,
    trunkAcceptUri, trunkDispatchUri, schedulerPreemptiveDeadline, rbLogLevel]

theorem mem_all (k : Keyword) : k ∈ all := by cases k <;> decide

theorem nodup_all : all.Nodup := by decide

theorem text_injective {k l : Keyword} (h : k.text = l.text) : k = l := by
  have hinj : ∀ k ∈ all, ∀ l ∈ all, k.text = l.text → k = l := by decide +kernel
  exact hinj k (mem_all k) l (mem_all l) h

end Keyword

/-- The first argument of `SEND_TOKEN`. -/
inductive TokenType
  | keyword
  | number
  | comma
  | semicolon
  | dash
  | ident
  | string
  | invalid
  deriving DecidableEq, Repr

/-- The two arguments of a call of `handle_token`. -/
structure Token where
  type : TokenType
  value : List UInt8
  deriving DecidableEq, Repr

namespace Scanner

/-- A rule that sends what it has matched. -/
def send (type : TokenType) (pattern : RegularExpression UInt8) : Rule UInt8 Token :=
  ⟨pattern, fun yytext ↦ some ⟨type, yytext⟩⟩

/-- A rule with an empty action. -/
def ignore (pattern : RegularExpression UInt8) : Rule UInt8 Token := ⟨pattern, fun _ ↦ none⟩

/-- The rule of one keyword, which sends the text of the keyword itself. -/
def keywordRule (k : Keyword) : Rule UInt8 Token :=
  ⟨word k.text, fun _ ↦ some ⟨.keyword, k.text⟩⟩

/-- The rules section of `scanner.l`. -/
def rules : List (Rule UInt8 Token) :=
  Keyword.all.map keywordRule ++
    [send .number (oneOrMore (oneOf digit)),
     send .comma (char comma),
     send .semicolon (char semicolon),
     send .dash (char dash),
     send .ident ident,
     send .string string,
     ignore (oneOrMore (oneOf ws)),
     ignore (char newline),
     send .invalid dot]

/-- What `handle_token` is called with while `yylex` runs to the end of the text. -/
def tokens (text : List UInt8) : List Token := lex rules text

/-! ## What the patterns match -/

/-- An identifier: a letter, then letters, digits and underscores. -/
def IsIdent : List UInt8 → Prop
  | [] => False
  | b :: w => b ∈ letter ∧ ∀ c ∈ w, (c ∈ letter ∨ c ∈ digit) ∨ c = underscore

instance : DecidablePred IsIdent
  | [] => inferInstanceAs (Decidable False)
  | b :: w => inferInstanceAs
      (Decidable (b ∈ letter ∧ ∀ c ∈ w, (c ∈ letter ∨ c ∈ digit) ∨ c = underscore))

/-- A byte that an identifier can go on with. -/
def IdentTail (c : UInt8) : Prop := (c ∈ letter ∨ c ∈ digit) ∨ c = underscore

theorem mem_ident {x : List UInt8} : x ∈ ident.matches' ↔ IsIdent x := by
  have htail : Single (oneOf letter + oneOf digit + char underscore) _ :=
    ((single_oneOf letter).add (single_oneOf digit)).add (single_char underscore)
  rw [ident, mem_mul]
  constructor
  · rintro ⟨y, hy, z, hz, rfl⟩
    obtain ⟨b, hb, rfl⟩ := (single_oneOf letter y).1 hy
    exact ⟨hb, htail.mem_star.1 hz⟩
  · intro h
    cases x with
    | nil => exact h.elim
    | cons b w => exact ⟨[b], (single_oneOf letter _).2 ⟨b, h.1, rfl⟩, w, htail.mem_star.2 h.2, rfl⟩

theorem mem_stringChar {x : List UInt8} : x ∈ stringChar.matches' ↔
    (∃ b, b ≠ backslash ∧ b ≠ quote ∧ x = [b]) ∨ ∃ b, b ≠ newline ∧ x = [backslash, b] := by
  have hdot : Single dot (· ∈ anyByte.filter (· ≠ newline)) := single_oneOf _
  rw [stringChar, mem_add, single_oneOf, mem_mul]
  refine or_congr ?_ ⟨?_, ?_⟩
  · simp [mem_anyByte, and_assoc]
  · rintro ⟨y, hy, z, hz, rfl⟩
    obtain ⟨b, hb, rfl⟩ := (hdot z).1 hz
    rw [mem_char.1 hy]
    exact ⟨b, by simpa using (List.mem_filter.1 hb).2, rfl⟩
  · rintro ⟨b, hb, rfl⟩
    exact ⟨[backslash], mem_char.2 rfl, [b],
      (hdot _).2 ⟨b, List.mem_filter.2 ⟨mem_anyByte b, by simpa using hb⟩, rfl⟩, rfl⟩

theorem mem_string {x : List UInt8} :
    x ∈ string.matches' ↔ ∃ y ∈ stringChar.star.matches', x = quote :: y ++ [quote] := by
  rw [string, mem_mul]
  constructor
  · rintro ⟨p, hp, q, hq, rfl⟩
    obtain ⟨y, hy, z, hz, rfl⟩ := mem_mul.1 hq
    rw [mem_char.1 hp, mem_char.1 hz]
    exact ⟨y, hy, rfl⟩
  · rintro ⟨y, hy, rfl⟩
    have hend : y ++ [quote] ∈ (stringChar.star * char quote).matches' :=
      mem_mul.2 ⟨y, hy, [quote], mem_char.2 rfl, rfl⟩
    exact ⟨[quote], mem_char.2 rfl, y ++ [quote], hend, rfl⟩

/-- Text that can be quoted as it stands. -/
def Plain (t : List UInt8) : Prop := ∀ b ∈ t, b ≠ quote ∧ b ≠ backslash

theorem Plain.mem_star {t : List UInt8} (h : Plain t) : t ∈ stringChar.star.matches' := by
  induction t with
  | nil => exact nil_mem_star _
  | cons b t ih =>
    obtain ⟨hb, ht⟩ := List.forall_mem_cons.1 h
    have hchar : [b] ∈ stringChar.matches' := mem_stringChar.2 (Or.inl ⟨b, hb.2, hb.1, rfl⟩)
    exact Lexer.mem_star.2 (Or.inr ⟨[b], hchar, t, ih ht, rfl⟩)

/-- The string that starts with plain text ends at the first quote behind it. -/
theorem Plain.string_ends {t y s : List UInt8} (h : Plain t) (hy : y ∈ stringChar.star.matches')
    (heq : y ++ [quote] = t ++ quote :: s) : s = [] := by
  induction t generalizing y with
  | nil =>
    rcases Lexer.mem_star.1 hy with rfl | ⟨c, hc, z, hz, rfl⟩
    · exact (List.cons.inj heq).2.symm
    · rcases mem_stringChar.1 hc with ⟨b, -, hb, rfl⟩ | ⟨b, -, rfl⟩
      · exact absurd (List.cons.inj heq).1 hb
      · exact absurd (List.cons.inj heq).1 (by decide)
  | cons a t ih =>
    obtain ⟨ha, ht⟩ := List.forall_mem_cons.1 h
    rcases Lexer.mem_star.1 hy with rfl | ⟨c, hc, z, hz, rfl⟩
    · exact absurd (List.cons.inj heq).1.symm ha.1
    · rcases mem_stringChar.1 hc with ⟨b, -, -, rfl⟩ | ⟨b, -, rfl⟩
      · exact ih ht hz (List.cons.inj heq).2
      · exact absurd (List.cons.inj heq).1.symm ha.2

/-! ## How a text is cut -/

theorem isIdent_text (k : Keyword) : IsIdent k.text := by
  have h : ∀ k ∈ Keyword.all, IsIdent k.text := by decide +kernel
  exact h k (Keyword.mem_all k)

/-- A letter begins nothing but an identifier. -/
theorem letter_begins : ∀ b ∈ letter, b ∉ digit ∧ b ∉ ws ∧ b ≠ quote := by decide +kernel

/-- A digit begins nothing but a number. -/
theorem digit_begins : ∀ b ∈ digit, b ∉ letter ∧ b ∉ ws ∧ b ≠ quote := by decide +kernel

/-- A blank begins nothing but a run of blanks. -/
theorem ws_begins : ∀ b ∈ ws, b ∉ letter ∧ b ∉ digit ∧
    b ≠ comma ∧ b ≠ semicolon ∧ b ≠ dash ∧ b ≠ quote := by decide +kernel

/-- A semicolon, a quote and the end of a line begin none of these. -/
theorem other_begins :
    ∀ b ∈ [semicolon, quote, newline], b ∉ letter ∧ b ∉ digit ∧ b ∉ ws := by decide +kernel

section

variable {b : UInt8} {w : List UInt8}

theorem keyword_not_match (h : b ∉ letter) :
    ∀ q ∈ Keyword.all.map keywordRule, b :: w ∉ q.pattern.matches' := by
  intro q hq hx
  obtain ⟨k, -, rfl⟩ := List.mem_map.1 hq
  have hk := isIdent_text k
  rw [← mem_word.1 hx] at hk
  exact h hk.1

theorem number_not_match (h : b ∉ digit) : b :: w ∉ (oneOrMore (oneOf digit)).matches' := fun hx ↦
  h (((single_oneOf digit).mem_oneOrMore.1 hx).2 b List.mem_cons_self)

theorem char_not_match {c : UInt8} (h : b ≠ c) : b :: w ∉ (char c).matches' := fun hx ↦
  h (List.cons.inj (mem_char.1 hx)).1

theorem ident_not_match (h : b ∉ letter) : b :: w ∉ ident.matches' := fun hx ↦
  h (mem_ident.1 hx).1

theorem string_not_match (h : b ≠ quote) : b :: w ∉ string.matches' := fun hx ↦ by
  obtain ⟨y, -, heq⟩ := mem_string.1 hx
  exact h (List.cons.inj heq).1

theorem ws_not_match (h : b ∉ ws) : b :: w ∉ (oneOrMore (oneOf ws)).matches' := fun hx ↦
  h (((single_oneOf ws).mem_oneOrMore.1 hx).2 b List.mem_cons_self)

end

/-- A match of more than one byte goes on as it has begun: what comes after its first byte belongs
to an identifier, a number or a run of blanks, or it is a quoted string. -/
theorem match_goes_on {q : Rule UInt8 Token} (hq : q ∈ rules) {b a : UInt8} {w s : List UInt8}
    (hx : b :: w ++ a :: s ∈ q.pattern.matches') :
    (b ∈ letter ∧ IdentTail a) ∨ (b ∈ digit ∧ a ∈ digit) ∨ (b ∈ ws ∧ a ∈ ws) ∨
      b = quote ∧ ∃ y ∈ stringChar.star.matches', y ++ [quote] = w ++ a :: s := by
  have ha : a ∈ b :: w ++ a :: s := List.mem_append_right _ List.mem_cons_self
  have one : ∀ c : UInt8, b :: w ++ a :: s ≠ [c] := fun c h ↦ by simp at h
  have ident : IsIdent (b :: w ++ a :: s) → b ∈ letter ∧ IdentTail a := fun h ↦
    ⟨h.1, h.2 a (List.mem_append_right _ List.mem_cons_self)⟩
  rcases List.mem_append.1 hq with hq | hq
  · obtain ⟨k, -, rfl⟩ := List.mem_map.1 hq
    exact Or.inl (ident (mem_word.1 hx ▸ isIdent_text k))
  · simp only [List.mem_cons, List.not_mem_nil, or_false] at hq
    rcases hq with rfl | rfl | rfl | rfl | rfl | rfl | rfl | rfl | rfl
    · have h := ((single_oneOf digit).mem_oneOrMore.1 hx).2
      exact Or.inr (Or.inl ⟨h b List.mem_cons_self, h a ha⟩)
    · exact absurd (mem_char.1 hx) (one _)
    · exact absurd (mem_char.1 hx) (one _)
    · exact absurd (mem_char.1 hx) (one _)
    · exact Or.inl (ident (mem_ident.1 hx))
    · obtain ⟨y, hy, heq⟩ := mem_string.1 hx
      rw [List.cons_append, List.cons_append, List.cons.injEq] at heq
      exact Or.inr (Or.inr (Or.inr ⟨heq.1, y, hy, heq.2.symm⟩))
    · have h := ((single_oneOf ws).mem_oneOrMore.1 hx).2
      exact Or.inr (Or.inr (Or.inl ⟨h b List.mem_cons_self, h a ha⟩))
    · exact absurd (mem_char.1 hx) (one _)
    · obtain ⟨c, -, h⟩ := (single_oneOf _ _).1 hx
      exact absurd h (one c)

theorem keyword_wins (k : Keyword) {rest : List UInt8}
    (h : ∀ a, rest.head? = some a → ¬ IdentTail a) : Wins rules (keywordRule k) k.text rest := by
  have hk := isIdent_text k
  refine .of_next (fun hnil ↦ ?_) ?_ fun a ha q hq s hx ↦ ?_
  · rw [hnil] at hk; exact hk
  · obtain ⟨pre, post, hall⟩ := List.append_of_mem (Keyword.mem_all k)
    have hrules : rules = pre.map keywordRule ++ keywordRule k ::
        (post.map keywordRule ++ rules.drop Keyword.all.length) := by
      rw [← List.cons_append, ← List.append_assoc, ← List.map_cons, ← List.map_append, ← hall]
      rfl
    refine ⟨_, _, hrules, mem_word.2 rfl, fun q hq hx ↦ ?_⟩
    · -- a keyword that stands earlier is another one
      obtain ⟨l, hl, rfl⟩ := List.mem_map.1 hq
      have hnd := hall ▸ Keyword.nodup_all
      rw [Keyword.text_injective (mem_word.1 hx)] at hnd
      exact (List.nodup_append.1 hnd).2.2 l hl l List.mem_cons_self rfl
  · cases hw : k.text with
    | nil => rw [hw] at hk; exact hk
    | cons b w =>
      rw [hw] at hk hx
      obtain ⟨hd, hb, hq'⟩ := letter_begins b hk.1
      rcases match_goes_on hq hx with ⟨-, hn⟩ | ⟨hn, -⟩ | ⟨hn, -⟩ | ⟨hn, -⟩
      · exact h a ha hn
      · exact hd hn
      · exact hb hn
      · exact hq' hn

theorem number_wins {d : UInt8} {ds rest : List UInt8} (hd : ∀ b ∈ d :: ds, b ∈ digit)
    (h : ∀ a, rest.head? = some a → a ∉ digit) :
    Wins rules (send .number (oneOrMore (oneOf digit))) (d :: ds) rest := by
  obtain ⟨hl, hw, hq'⟩ := digit_begins d (hd d List.mem_cons_self)
  refine .of_next (List.cons_ne_nil _ _) ?_ fun a ha q hq s hx ↦ ?_
  · exact ⟨_, _, rfl, (single_oneOf digit).mem_oneOrMore.2 ⟨List.cons_ne_nil _ _, hd⟩,
      keyword_not_match hl⟩
  · rcases match_goes_on hq hx with ⟨hn, -⟩ | ⟨-, hn⟩ | ⟨hn, -⟩ | ⟨hn, -⟩
    · exact hl hn
    · exact h a ha hn
    · exact hw hn
    · exact hq' hn

/-- A byte that begins none of the longer tokens is a match by itself. -/
theorem no_longer_match {b : UInt8} (hl : b ∉ letter) (hd : b ∉ digit) (hw : b ∉ ws)
    (hs : b ≠ quote) (a : UInt8) {q : Rule UInt8 Token} (hq : q ∈ rules) (s : List UInt8) :
    [b] ++ a :: s ∉ q.pattern.matches' := by
  intro hx
  rcases match_goes_on hq hx with ⟨hn, -⟩ | ⟨hn, -⟩ | ⟨hn, -⟩ | ⟨hn, -⟩
  · exact hl hn
  · exact hd hn
  · exact hw hn
  · exact hs hn

theorem semicolon_wins (rest : List UInt8) :
    Wins rules (send .semicolon (char semicolon)) [semicolon] rest := by
  obtain ⟨hl, hd, hw⟩ := other_begins semicolon (by decide)
  refine .of_next (List.cons_ne_nil _ _) ?_ fun a _ q hq s ↦
    no_longer_match hl hd hw (by decide) a hq s
  refine ⟨Keyword.all.map keywordRule ++ [send .number (oneOrMore (oneOf digit)),
    send .comma (char comma)], _, rfl, mem_char.2 rfl, ?_⟩
  rw [List.forall_mem_append]
  simp only [List.forall_mem_cons, send]
  exact ⟨keyword_not_match hl, number_not_match hd, char_not_match (by decide), nofun⟩

theorem string_wins {t : List UInt8} (ht : Plain t) (rest : List UInt8) :
    Wins rules (send .string string) (quote :: (t ++ [quote])) rest := by
  obtain ⟨hl, hd, hw⟩ := other_begins quote (by decide)
  refine .of_next (List.cons_ne_nil _ _) ?_ fun a _ q hq s hx ↦ ?_
  · refine ⟨Keyword.all.map keywordRule ++ [send .number (oneOrMore (oneOf digit)),
      send .comma (char comma), send .semicolon (char semicolon), send .dash (char dash),
      send .ident ident], _, rfl, mem_string.2 ⟨t, ht.mem_star, rfl⟩, ?_⟩
    rw [List.forall_mem_append]
    simp only [List.forall_mem_cons, send]
    exact ⟨keyword_not_match hl, number_not_match hd, char_not_match (by decide),
      char_not_match (by decide), char_not_match (by decide), ident_not_match hl, nofun⟩
  · rcases match_goes_on hq hx with ⟨hn, -⟩ | ⟨hn, -⟩ | ⟨hn, -⟩ | ⟨-, y, hy, heq⟩
    · exact hl hn
    · exact hd hn
    · exact hw hn
    · rw [List.append_assoc, List.singleton_append] at heq
      exact absurd (ht.string_ends hy heq) (List.cons_ne_nil _ _)

theorem blank_wins {b : UInt8} {bs rest : List UInt8} (hb : ∀ c ∈ b :: bs, c ∈ ws)
    (h : ∀ a, rest.head? = some a → a ∉ ws) :
    Wins rules (ignore (oneOrMore (oneOf ws))) (b :: bs) rest := by
  obtain ⟨hl, hd, hc, hs, hm, hq'⟩ := ws_begins b (hb b List.mem_cons_self)
  refine .of_next (List.cons_ne_nil _ _) ?_ fun a ha q hq s hx ↦ ?_
  · refine ⟨Keyword.all.map keywordRule ++ [send .number (oneOrMore (oneOf digit)),
      send .comma (char comma), send .semicolon (char semicolon), send .dash (char dash),
      send .ident ident, send .string string], _, rfl,
      (single_oneOf ws).mem_oneOrMore.2 ⟨List.cons_ne_nil _ _, hb⟩, ?_⟩
    rw [List.forall_mem_append]
    simp only [List.forall_mem_cons, send]
    exact ⟨keyword_not_match hl, number_not_match hd, char_not_match hc, char_not_match hs,
      char_not_match hm, ident_not_match hl, string_not_match hq', nofun⟩
  · rcases match_goes_on hq hx with ⟨hn, -⟩ | ⟨hn, -⟩ | ⟨-, hn⟩ | ⟨hn, -⟩
    · exact hl hn
    · exact hd hn
    · exact h a ha hn
    · exact hq' hn

theorem newline_wins (rest : List UInt8) : Wins rules (ignore (char newline)) [newline] rest := by
  obtain ⟨hl, hd, hw⟩ := other_begins newline (by decide)
  refine .of_next (List.cons_ne_nil _ _) ?_ fun a _ q hq s ↦
    no_longer_match hl hd hw (by decide) a hq s
  refine ⟨Keyword.all.map keywordRule ++ [send .number (oneOrMore (oneOf digit)),
    send .comma (char comma), send .semicolon (char semicolon), send .dash (char dash),
    send .ident ident, send .string string, ignore (oneOrMore (oneOf ws))], _, rfl,
    mem_char.2 rfl, ?_⟩
  rw [List.forall_mem_append]
  simp only [List.forall_mem_cons, send, ignore]
  exact ⟨keyword_not_match hl, number_not_match hd, char_not_match (by decide),
    char_not_match (by decide), char_not_match (by decide), ident_not_match hl,
    string_not_match (by decide), ws_not_match hw, nofun⟩

/-! ## The tokens of a text -/

section

variable {rest : List UInt8}

@[simp] theorem tokens_nil : tokens [] = [] := rfl

/-- A keyword is the whole identifier it stands in, or it is none. -/
theorem tokens_keyword (k : Keyword) (h : ∀ a, rest.head? = some a → ¬ IdentTail a) :
    tokens (k.text ++ rest) = ⟨.keyword, k.text⟩ :: tokens rest :=
  lex_append (keyword_wins k h)

theorem tokens_number {ds : List UInt8} (hne : ds ≠ []) (hd : ∀ b ∈ ds, b ∈ digit)
    (h : ∀ a, rest.head? = some a → a ∉ digit) :
    tokens (ds ++ rest) = ⟨.number, ds⟩ :: tokens rest := by
  cases ds with
  | nil => exact absurd rfl hne
  | cons d ds => exact lex_append (number_wins hd h)

theorem tokens_semicolon (rest : List UInt8) :
    tokens (semicolon :: rest) = ⟨.semicolon, [semicolon]⟩ :: tokens rest :=
  lex_append (semicolon_wins rest)

theorem tokens_string {t : List UInt8} (ht : Plain t) (rest : List UInt8) :
    tokens (quote :: (t ++ [quote]) ++ rest) =
      ⟨.string, quote :: (t ++ [quote])⟩ :: tokens rest :=
  lex_append (string_wins ht rest)

theorem tokens_newline (rest : List UInt8) : tokens (newline :: rest) = tokens rest :=
  lex_append (newline_wins rest)

/-- A blank in front of a text adds nothing: the rest of the run of blanks, if there is one, is
skipped with it or without it. -/
theorem tokens_blank {b : UInt8} (hb : b ∈ ws) (rest : List UInt8) :
    tokens (b :: rest) = tokens rest := by
  have hrun : ∀ c ∈ rest.takeWhile (· ∈ ws), c ∈ ws := fun c hc ↦ by
    simpa using List.mem_takeWhile_imp hc
  have hstop : ∀ a, (rest.dropWhile (· ∈ ws)).head? = some a → a ∉ ws := fun a ha ↦ by
    have := List.head?_dropWhile_not (· ∈ ws) rest
    rw [ha] at this
    simpa using this
  have hskip : ∀ c ∈ ws, ∀ cs, (∀ d ∈ cs, d ∈ ws) →
      tokens (c :: cs ++ rest.dropWhile (· ∈ ws)) = tokens (rest.dropWhile (· ∈ ws)) :=
    fun c hc cs hcs ↦ lex_append (blank_wins (List.forall_mem_cons.2 ⟨hc, hcs⟩) hstop)
  have hall := hskip b hb _ hrun
  rw [List.cons_append, List.takeWhile_append_dropWhile] at hall
  rw [hall]
  cases hcs : rest.takeWhile (· ∈ ws) with
  | nil =>
    conv_rhs => rw [← List.takeWhile_append_dropWhile (p := (· ∈ ws)) (l := rest), hcs]
    rfl
  | cons c cs =>
    rw [hcs, List.forall_mem_cons] at hrun
    conv_rhs => rw [← List.takeWhile_append_dropWhile (p := (· ∈ ws)) (l := rest), hcs]
    exact (hskip c hrun.1 cs hrun.2).symm

/-- What separates tokens. -/
def IsSpace (b : UInt8) : Prop := b ∈ ws ∨ b = newline

instance : DecidablePred IsSpace := fun b ↦ inferInstanceAs (Decidable (b ∈ ws ∨ b = newline))

theorem not_identTail_of_isSpace {b : UInt8} (h : IsSpace b) : ¬ IdentTail b := by
  have hws : ∀ b ∈ newline :: ws, ¬ IdentTail b := by unfold IdentTail; decide +kernel
  exact hws b (List.mem_cons.2 (h.symm))

theorem not_digit_of_isSpace {b : UInt8} (h : IsSpace b) : b ∉ digit := fun hd ↦
  not_identTail_of_isSpace h (Or.inl (Or.inr hd))

theorem tokens_spaces {bs : List UInt8} (h : ∀ b ∈ bs, IsSpace b) (rest : List UInt8) :
    tokens (bs ++ rest) = tokens rest := by
  induction bs with
  | nil => rfl
  | cons b bs ih =>
    obtain ⟨hb, hbs⟩ := List.forall_mem_cons.1 h
    rcases hb with hb | rfl
    · exact (tokens_blank hb _).trans (ih hbs)
    · exact (tokens_newline _).trans (ih hbs)

end

end Scanner

end DmmrOrbit
