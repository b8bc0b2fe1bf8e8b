import DmmrOrbit.Lib.Matcher
import DmmrOrbit.Parser.Scanner
import Mathlib.Data.Nat.Digits.Defs

/-!
# The tables of the generated scanner

`scanner.c` is what `flex` has made of `scanner.l`.  It reads with an automaton whose transitions
are kept in compressed tables: `yy_ec` sorts the characters into 33 classes, the row of a state lies
in `yy_nxt` from `yy_base` on, `yy_chk` says whose entry an entry is, and where the entry of a state
is missing, `yy_def` names the state to look at instead.  `YyTables.nextState` is that look-up, with
every access checked against the length of its table and as many rounds as there are states.

`yyMatcher_knows` is the result: the automaton in the tables knows the rules of `scanner.l`.  For
every word of bytes it is in a state whose entry of `yy_accept` is the first rule that matches the
word, and it jams only on words that no match begins with.  Its proof is a check of one state and
one class at a time: `accessWords` lists a word that leads to each state, and the recognizers of the
rules, run over these words, keep pace with the tables (`tables_keep_pace`).
-/

set_option autoImplicit false

open Lexer

namespace DmmrOrbit

namespace Scanner

/-! ## The tables -/

/-- The rule of each state, 0 for none; 21 is `YY_END_OF_BUFFER`. -/
def yyAccept : List ℕ :=
  [0, 0, 0, 21, 19, 17, 18, 19, 12, 14, 11, 13, 15, 15, 15, 15, 15, 15, 17, 0, 16, 0, 11, 15, 15,
   15, 15, 15, 15, 15, 15, 15, 15, 15, 15, 15, 15, 15, 15, 15, 15, 15, 15, 15, 15, 15, 15, 15, 15,
   15, 15, 15, 15, 15, 15, 15, 15, 15, 15, 15, 15, 15, 15, 15, 15, 15, 15, 15, 15, 15, 15, 15, 15,
   15, 15, 15, 15, 15, 15, 15, 15, 15, 15, 4, 15, 15, 15, 15, 15, 15, 15, 15, 15, 15, 15, 15, 2,
   15, 15, 15, 15, 15, 15, 15, 15, 15, 15, 15, 10, 15, 15, 15, 1, 15, 15, 15, 15, 15, 15, 15, 15,
   15, 15, 15, 15, 15, 15, 15, 15, 15, 15, 15, 15, 15, 15, 15, 15, 7, 15, 15, 15, 15, 15, 15, 3,
   15, 15, 15, 8, 5, 15, 15, 15, 15, 15, 15, 6, 15, 15, 15, 15, 15, 15, 15, 9, 0]

/-- The class of each character. -/
def yyEc : List ℕ :=
  [0, 1, 1, 1, 1, 1, 1, 1, 1, 2, 3, 1, 1, 1, 1, 1, 1, 1, 1, 1, 1, 1, 1, 1, 1, 1, 1, 1, 1, 1, 1, 1,
   2, 1, 4, 1, 1, 1, 1, 1, 1, 1, 1, 1, 5, 6, 1, 1, 7, 7, 7, 7, 7, 7, 7, 7, 7, 7, 1, 8, 1, 1, 1, 1,
   1, 9, 10, 11, 12, 13, 14, 15, 16, 17, 18, 19, 20, 21, 22, 23, 24, 18, 25, 26, 27, 28, 29, 18,
   30, 18, 31, 1, 32, 1, 1, 33, 1, 18, 18, 18, 18, 18, 18, 18, 18, 18, 18, 18, 18, 18, 18, 18, 18,
   18, 18, 18, 18, 18, 18, 18, 18, 18, 18, 1, 1, 1, 1, 1, 1, 1, 1, 1, 1, 1, 1, 1, 1, 1, 1, 1, 1,
   1, 1, 1, 1, 1, 1, 1, 1, 1, 1, 1, 1, 1, 1, 1, 1, 1, 1, 1, 1, 1, 1, 1, 1, 1, 1, 1, 1, 1, 1, 1, 1,
   1, 1, 1, 1, 1, 1, 1, 1, 1, 1, 1, 1, 1, 1, 1, 1, 1, 1, 1, 1, 1, 1, 1, 1, 1, 1, 1, 1, 1, 1, 1, 1,
   1, 1, 1, 1, 1, 1, 1, 1, 1, 1, 1, 1, 1, 1, 1, 1, 1, 1, 1, 1, 1, 1, 1, 1, 1, 1, 1, 1, 1, 1, 1, 1,
   1, 1, 1, 1, 1, 1, 1, 1, 1, 1, 1, 1, 1, 1, 1, 1, 1, 1, 1]

/-- The class of each class, in the templates. -/
def yyMeta : List ℕ :=
  [0, 1, 1, 1, 1, 1, 1, 2, 1, 2, 2, 2, 2, 2, 2, 2, 2, 2, 2, 2, 2, 2, 2, 2, 2, 2, 2, 2, 2, 2, 2, 2,
   1, 2]

/-- Where the row of each state starts in `yyNxt` and `yyChk`. -/
def yyBase : List ℕ :=
  [0, 0, 0, 187, 188, 184, 188, 30, 188, 188, 178, 188, 0, 167, 174, 25, 26, 157, 179, 32, 188,
   177, 172, 0, 153, 147, 143, 166, 158, 147, 159, 143, 159, 136, 148, 147, 153, 139, 151, 141,
   142, 137, 137, 126, 146, 140, 132, 136, 141, 130, 137, 124, 122, 126, 115, 114, 113, 120, 111,
   126, 122, 119, 113, 31, 129, 111, 117, 115, 122, 101, 116, 121, 114, 102, 103, 115, 114, 101,
   99, 103, 112, 96, 107, 0, 91, 86, 85, 100, 103, 102, 90, 99, 99, 29, 87, 79, 0, 85, 99, 94, 86,
   92, 78, 78, 89, 74, 73, 74, 0, 89, 84, 83, 0, 62, 83, 60, 80, 66, 77, 61, 72, 61, 53, 52, 63,
   58, 49, 64, 60, 67, 54, 60, 48, 44, 57, 60, 45, 0, 46, 57, 47, 54, 50, 46, 0, 48, 43, 30, 0, 0,
   36, 43, 42, 21, 41, 40, 0, 38, 41, 37, 28, 30, 23, 31, 0, 188, 64, 40]

/-- Where to look when the row of a state has nothing. -/
def yyDef : List ℕ :=
  [0, 165, 1, 165, 165, 165, 165, 166, 165, 165, 165, 165, 167, 167, 167, 167, 167, 167, 165, 166,
   165, 166, 165, 167, 167, 167, 167, 167, 167, 167, 167, 167, 167, 167, 167, 167, 167, 167, 167,
   167, 167, 167, 167, 167, 167, 167, 167, 167, 167, 167, 167, 167, 167, 167, 167, 167, 167, 167,
   167, 167, 167, 167, 167, 167, 167, 167, 167, 167, 167, 167, 167, 167, 167, 167, 167, 167, 167,
   167, 167, 167, 167, 167, 167, 167, 167, 167, 167, 167, 167, 167, 167, 167, 167, 167, 167, 167,
   167, 167, 167, 167, 167, 167, 167, 167, 167, 167, 167, 167, 167, 167, 167, 167, 167, 167, 167,
   167, 167, 167, 167, 167, 167, 167, 167, 167, 167, 167, 167, 167, 167, 167, 167, 167, 167, 167,
   167, 167, 167, 167, 167, 167, 167, 167, 167, 167, 167, 167, 167, 167, 167, 167, 167, 167, 167,
   167, 167, 167, 167, 167, 167, 167, 167, 167, 167, 167, 167, 0, 165, 165]

/-- The next states. -/
def yyNxt : List ℕ :=
  [0, 4, 5, 6, 7, 8, 9, 10, 11, 12, 12, 13, 12, 12, 12, 12, 12, 12, 12, 12, 12, 14, 12, 12, 12,
   15, 16, 17, 12, 12, 12, 12, 4, 4, 20, 26, 20, 28, 27, 29, 71, 101, 23, 72, 164, 163, 30, 162,
   161, 160, 159, 158, 157, 156, 155, 154, 153, 102, 152, 151, 150, 149, 21, 148, 21, 19, 19, 147,
   146, 145, 144, 143, 142, 141, 140, 139, 138, 137, 136, 135, 134, 133, 132, 131, 130, 129, 128,
   127, 126, 125, 124, 123, 122, 121, 120, 119, 118, 117, 116, 115, 114, 113, 112, 111, 110, 109,
   108, 107, 106, 105, 104, 103, 100, 99, 98, 97, 96, 95, 94, 93, 92, 91, 90, 89, 88, 87, 86, 85,
   84, 83, 82, 81, 80, 79, 78, 77, 76, 75, 74, 73, 70, 69, 68, 67, 66, 65, 64, 63, 62, 61, 60, 59,
   58, 57, 56, 55, 54, 53, 52, 51, 50, 49, 48, 47, 46, 45, 44, 43, 42, 41, 40, 39, 38, 37, 36, 35,
   34, 33, 32, 22, 165, 18, 31, 25, 24, 22, 18, 165, 3, 165, 165, 165, 165, 165, 165, 165, 165,
   165, 165, 165, 165, 165, 165, 165, 165, 165, 165, 165, 165, 165, 165, 165, 165, 165, 165, 165,
   165, 165, 165, 165, 165, 165]

/-- Whose row an entry of `yyNxt` belongs to. -/
def yyChk : List ℕ :=
  [0, 1, 1, 1, 1, 1, 1, 1, 1, 1, 1, 1, 1, 1, 1, 1, 1, 1, 1, 1, 1, 1, 1, 1, 1, 1, 1, 1, 1, 1, 1, 1,
   1, 1, 7, 15, 19, 16, 15, 16, 63, 93, 167, 63, 163, 162, 16, 161, 160, 159, 158, 157, 155, 154,
   153, 152, 151, 93, 150, 147, 146, 145, 7, 143, 19, 166, 166, 142, 141, 140, 139, 138, 136, 135,
   134, 133, 132, 131, 130, 129, 128, 127, 126, 125, 124, 123, 122, 121, 120, 119, 118, 117, 116,
   115, 114, 113, 111, 110, 109, 107, 106, 105, 104, 103, 102, 101, 100, 99, 98, 97, 95, 94, 92,
   91, 90, 89, 88, 87, 86, 85, 84, 82, 81, 80, 79, 78, 77, 76, 75, 74, 73, 72, 71, 70, 69, 68, 67,
   66, 65, 64, 62, 61, 60, 59, 58, 57, 56, 55, 54, 53, 52, 51, 50, 49, 48, 47, 46, 45, 44, 43, 42,
   41, 40, 39, 38, 37, 36, 35, 34, 33, 32, 31, 30, 29, 28, 27, 26, 25, 24, 22, 21, 18, 17, 14, 13,
   10, 5, 3, 165, 165, 165, 165, 165, 165, 165, 165, 165, 165, 165, 165, 165, 165, 165, 165, 165,
   165, 165, 165, 165, 165, 165, 165, 165, 165, 165, 165, 165, 165, 165, 165, 165, 165]

/-! ## The transitions -/

/-- The tables as the code reads them; there is nothing outside of an array. -/
structure YyTables where
  base : ℕ → Option ℕ
  dflt : ℕ → Option ℕ
  nxt : ℕ → Option ℕ
  chk : ℕ → Option ℕ
  template : ℕ → Option ℕ

/-- `while (yy_chk[yy_base[s] + c] != s) { s = yy_def[s]; if (s >= 166) c = yy_meta[c]; }`, then
`yy_nxt[yy_base[s] + c]`, in at most as many rounds as the first argument says. -/
def YyTables.follow (T : YyTables) : ℕ → ℕ → ℕ → Option ℕ
  | 0, _, _ => none
  | rounds + 1, s, c => do
    let base ← T.base s
    let chk ← T.chk (base + c)
    if chk = s then T.nxt (base + c)
    else
      let s ← T.dflt s
      let c ← if 166 ≤ s then T.template c else some c
      T.follow rounds s c

/-- The transition of a state on a class. -/
def YyTables.nextState (T : YyTables) (s c : ℕ) : Option ℕ := T.follow 168 s c

def yyTables : YyTables where
  base := (yyBase[·]?)
  dflt := (yyDef[·]?)
  nxt := (yyNxt[·]?)
  chk := (yyChk[·]?)
  template := (yyMeta[·]?)

/-- The state that a missing transition leads to. -/
def yyJam : ℕ := 165

/-- The class of a character of the text; `yy_ec` keeps class 0 for the end of the buffer. -/
def yyClass (b : UInt8) : ℕ := if b = 0 then 1 else yyEc.getD b.toNat 0

/-- The automaton in the tables. -/
def yyMatcher : Matcher UInt8 ℕ where
  start := 1
  step s b := (yyTables.nextState s (yyClass b)).bind fun t ↦ if t = yyJam then none else some t
  act s := (yyAccept[s]?).bind fun i ↦ if i = 0 then none else some (i - 1)

/-! ## Tables in one number

A look-up in a long list takes as many steps as the entry is far from the start.  For the check
below the entries of a table are the digits of one number. -/

/-- Entry `i` of a table of bytes. -/
def packed (l : List ℕ) (i : ℕ) : Option ℕ :=
  if i < l.length then some (Nat.ofDigits 256 l / 256 ^ i % 256) else none

theorem packed_eq {l : List ℕ} (h : ∀ d ∈ l, d < 256) : (l[·]?) = packed l := by
  funext i
  rw [packed]
  split
  · next hi =>
    rw [Nat.ofDigits_div_pow_eq_ofDigits_drop i (by decide) l h, List.drop_eq_getElem_cons hi,
      Nat.ofDigits_cons, Nat.add_mul_mod_self_left, Nat.mod_eq_of_lt (h _ (List.getElem_mem hi))]
    exact List.getElem?_eq_getElem hi
  · next hi => exact List.getElem?_eq_none (not_lt.1 hi)

def packedTables : YyTables where
  base := packed yyBase
  dflt := packed yyDef
  nxt := packed yyNxt
  chk := packed yyChk
  template := packed yyMeta

theorem yyTables_eq : yyTables = packedTables := by
  have h : ∀ l ∈ [yyBase, yyDef, yyNxt, yyChk, yyMeta], ∀ d ∈ l, d < 256 := by decide +kernel
  simp only [List.forall_mem_cons] at h
  obtain ⟨hbase, hdef, hnxt, hchk, hmeta, -⟩ := h
  rw [yyTables, packed_eq hbase, packed_eq hdef, packed_eq hnxt, packed_eq hchk, packed_eq hmeta]
  rfl

/-! ## The recognizers of the rules -/

/-- Class 7 is that of the digits, 9 to 31 are those of the letters. -/
def isLetterClass (c : ℕ) : Bool := 9 ≤ c && c ≤ 31

def isIdentClass (c : ℕ) : Bool := isLetterClass c || c == 7 || c == 33

/-- Inside the quotes a backslash, class 32, takes the next character with it. -/
def stringReader : Recognizer ℕ where
  start := 0
  step s c := match s with
    | 0 => if c = 4 then some 1 else none
    | 1 => if c = 4 then some 3 else if c = 32 then some 2 else some 1
    | 2 => if c = 3 then none else some 1
    | _ => none
  accept s := s == 3

/-- One recognizer for each rule, over the classes. -/
def readers : List (Recognizer ℕ) :=
  Keyword.all.map (fun k ↦ .ofWord (k.text.map yyClass)) ++
    [.headTail (· == 7) (· == 7), .single (· == 5), .single (· == 8), .single (· == 6),
     .headTail isLetterClass isIdentClass, stringReader, .headTail (· == 2) (· == 2),
     .single (· == 3), .single (· != 3)]

theorem class_of_mem :
    (∀ b ∈ digit, yyClass b = 7) ∧ (∀ b ∈ letter, isLetterClass (yyClass b)) ∧
      (∀ b ∈ ws, yyClass b = 2) ∧
      [underscore, newline, quote, backslash, comma, semicolon, dash].map yyClass =
        [33, 3, 4, 32, 5, 8, 6] := by
  decide +kernel

theorem mem_of_class : ∀ b ∈ anyByte, (1 ≤ yyClass b ∧ yyClass b ≤ 33) ∧
    (yyClass b = 7 → b ∈ digit) ∧ (isLetterClass (yyClass b) → b ∈ letter) ∧
    (yyClass b = 2 → b ∈ ws) ∧ (yyClass b = 33 → b = underscore) ∧
    (yyClass b = 3 → b = newline) ∧ (yyClass b = 4 → b = quote) ∧
    (yyClass b = 32 → b = backslash) ∧ (yyClass b = 5 → b = comma) ∧
    (yyClass b = 8 → b = semicolon) ∧ (yyClass b = 6 → b = dash) := by
  decide +kernel

/-- The classes of the bytes that the patterns name. -/
structure ClassSpec (b : UInt8) : Prop where
  bounds : 1 ≤ yyClass b ∧ yyClass b ≤ 33
  digit : yyClass b = 7 ↔ b ∈ digit
  letter : isLetterClass (yyClass b) = true ↔ b ∈ letter
  ws : yyClass b = 2 ↔ b ∈ ws
  underscore : yyClass b = 33 ↔ b = underscore
  newline : yyClass b = 3 ↔ b = newline
  quote : yyClass b = 4 ↔ b = quote
  backslash : yyClass b = 32 ↔ b = backslash
  comma : yyClass b = 5 ↔ b = comma
  semicolon : yyClass b = 8 ↔ b = semicolon
  dash : yyClass b = 6 ↔ b = dash

theorem classSpec (b : UInt8) : ClassSpec b := by
  obtain ⟨hd, hl, hw, hsingle⟩ := class_of_mem
  simp only [List.map_cons, List.map_nil, List.cons.injEq, and_true] at hsingle
  obtain ⟨hu, hn, hq, hb, hc, hs, hm⟩ := hsingle
  obtain ⟨bounds, hd', hl', hw', hu', hn', hq', hb', hc', hs', hm'⟩ :=
    mem_of_class b (mem_anyByte b)
  exact ⟨bounds, ⟨hd', hd b⟩, ⟨hl', hl b⟩, ⟨hw', hw b⟩, ⟨hu', fun h ↦ h ▸ hu⟩,
    ⟨hn', fun h ↦ h ▸ hn⟩, ⟨hq', fun h ↦ h ▸ hq⟩, ⟨hb', fun h ↦ h ▸ hb⟩, ⟨hc', fun h ↦ h ▸ hc⟩,
    ⟨hs', fun h ↦ h ▸ hs⟩, ⟨hm', fun h ↦ h ▸ hm⟩⟩

/-- The classes of a single letter, or of the underscore: class 18 is that of the letters in no
keyword. -/
def isAlone (c : ℕ) : Bool := (isLetterClass c && c != 18) || c == 33

def aloneByte (c : ℕ) : UInt8 := (ascii "ABCDEFGHI?KLMNOPRSTUVXZ").getD (c - 9) underscore

/-! ### The string -/

/-- The reader of strings, over bytes. -/
def stringBytes : Recognizer UInt8 := stringReader.comap yyClass

theorem stringBytes_step (b : UInt8) :
    stringBytes.step 0 b = (if b = quote then some 1 else none) ∧
      stringBytes.step 1 b =
        (if b = quote then some 3 else if b = backslash then some 2 else some 1) ∧
      stringBytes.step 2 b = if b = newline then none else some 1 :=
  have h := classSpec b
  ⟨if_congr h.quote rfl rfl, if_congr h.quote rfl (if_congr h.backslash rfl rfl),
    if_congr h.newline rfl rfl⟩

theorem accepts_closed (x : List UInt8) : stringBytes.accepts 3 x = true ↔ x = [] := by
  cases x with
  | nil => exact iff_of_true rfl rfl
  | cons b x => exact iff_of_false Bool.false_ne_true (List.cons_ne_nil b x)

/-- What may come behind the opening quote: characters, then the closing quote. -/
def Inside (x : List UInt8) : Prop := ∃ y ∈ stringChar.star.matches', y ++ [quote] = x

theorem not_inside_nil : ¬ Inside [] := fun ⟨y, _, h⟩ ↦ by simp at h

/-- The first character decides. -/
theorem inside_cons (b : UInt8) (x : List UInt8) :
    Inside (b :: x) ↔ (b = quote ∧ x = []) ∨ (b ≠ quote ∧ b ≠ backslash ∧ Inside x) ∨
      (b = backslash ∧ ∃ c z, c ≠ newline ∧ x = c :: z ∧ Inside z) := by
  constructor
  · rintro ⟨y, hy, heq⟩
    rcases Lexer.mem_star.1 hy with rfl | ⟨c, hc, z, hz, rfl⟩
    · obtain ⟨rfl, rfl⟩ := List.cons.inj heq
      exact Or.inl ⟨rfl, rfl⟩
    · rcases mem_stringChar.1 hc with ⟨d, hback, hquote, rfl⟩ | ⟨d, hnl, rfl⟩
      · obtain ⟨rfl, rfl⟩ := List.cons.inj heq
        exact Or.inr (Or.inl ⟨hquote, hback, z, hz, rfl⟩)
      · obtain ⟨rfl, rfl⟩ := List.cons.inj heq
        exact Or.inr (Or.inr ⟨rfl, d, _, hnl, rfl, z, hz, rfl⟩)
  · rintro (⟨rfl, rfl⟩ | ⟨hquote, hback, y, hy, rfl⟩ | ⟨rfl, c, z, hnl, rfl, y, hy, rfl⟩)
    · exact ⟨[], nil_mem_star _, rfl⟩
    · have hchar : [b] ∈ stringChar.matches' := mem_stringChar.2 (Or.inl ⟨b, hback, hquote, rfl⟩)
      exact ⟨b :: y, Lexer.mem_star.2 (Or.inr ⟨[b], hchar, y, hy, rfl⟩), rfl⟩
    · have hchar : [backslash, c] ∈ stringChar.matches' := mem_stringChar.2 (Or.inr ⟨c, hnl, rfl⟩)
      exact ⟨backslash :: c :: y, Lexer.mem_star.2 (Or.inr ⟨_, hchar, y, hy, rfl⟩), rfl⟩

theorem accepts_inside : ∀ x : List UInt8,
    stringBytes.accepts 1 x = true ↔ Inside x
  | [] => iff_of_false Bool.false_ne_true not_inside_nil
  | [b] => by
    rw [inside_cons, Recognizer.accepts, (stringBytes_step b).2.1]
    by_cases hquote : b = quote
    · rw [if_pos hquote]
      exact iff_of_true rfl (Or.inl ⟨hquote, rfl⟩)
    · rw [if_neg hquote]
      have hlast : ¬ Inside [] := not_inside_nil
      split <;> exact iff_of_false Bool.false_ne_true (by simp [hquote, hlast])
  | b :: c :: x => by
    have hne : quote ≠ backslash := by decide
    rw [inside_cons, Recognizer.accepts, (stringBytes_step b).2.1]
    by_cases hquote : b = quote
    · rw [if_pos hquote]
      exact (accepts_closed _).trans (by simp [hquote, hne])
    · rw [if_neg hquote]
      by_cases hback : b = backslash
      · rw [if_pos hback, Option.any_some, Recognizer.accepts, (stringBytes_step c).2.2]
        by_cases hnl : c = newline
        · rw [if_pos hnl]
          exact iff_of_false Bool.false_ne_true (by simp [hback, hnl, hne.symm])
        · rw [if_neg hnl]
          exact (accepts_inside x).trans (by simp [hback, hnl, hne.symm])
      · rw [if_neg hback]
        exact (accepts_inside (c :: x)).trans (by simp [hquote, hback])

theorem reads_string : stringBytes.Reads string := by
  intro x
  rw [mem_string]
  cases x with
  | nil => exact iff_of_false Bool.false_ne_true fun ⟨_, _, h⟩ ↦ nomatch h
  | cons b x =>
    show Option.any _ (stringBytes.step 0 b) = true ↔ _
    rw [(stringBytes_step b).1]
    by_cases hquote : b = quote
    · rw [if_pos hquote, hquote]
      refine (accepts_inside x).trans ⟨fun ⟨y, hy, h⟩ ↦ ⟨y, hy, h ▸ rfl⟩, fun ⟨y, hy, h⟩ ↦ ?_⟩
      exact ⟨y, hy, (List.cons.inj h).2.symm⟩
    · rw [if_neg hquote]
      refine iff_of_false Bool.false_ne_true ?_
      rintro ⟨y, -, h⟩
      exact hquote (List.cons.inj h).1

/-! ### All the rules -/

/-- A letter of a keyword, or its underscore, is alone in its class. -/
theorem keyword_class {k : Keyword} {a b : UInt8} (ha : a ∈ k.text)
    (h : yyClass b = yyClass a) : b = a := by
  have halone : ∀ k ∈ Keyword.all, ∀ a ∈ k.text, isAlone (yyClass a) = true := by decide +kernel
  have hbyte : ∀ b ∈ anyByte, isAlone (yyClass b) = true → aloneByte (yyClass b) = b := by
    decide +kernel
  have hca := halone k (Keyword.mem_all k) a ha
  calc b = aloneByte (yyClass b) := (hbyte b (mem_anyByte b) (h ▸ hca)).symm
    _ = aloneByte (yyClass a) := by rw [h]
    _ = a := hbyte a (mem_anyByte a) hca

theorem readAll : ReadAll (readers.map (·.comap yyClass)) rules := by
  have hsingle {c : ℕ} {b : UInt8} (h : ∀ a, yyClass a = c ↔ a = b) :
      ((Recognizer.single (· == c)).comap yyClass).Reads (RegularExpression.char b) :=
    Recognizer.reads_single ((single_char b).congr fun a ↦ by simp [h a])
  rw [readers, List.map_append, rules]
  refine List.rel_append ?_ ?_
  · rw [List.map_map]
    refine List.forall₂_map_left_iff.2 (List.forall₂_map_right_iff.2 ?_)
    refine List.forall₂_same.2 fun k _ ↦ ?_
    exact Recognizer.reads_comap_ofWord fun a ha b ↦ keyword_class ha
  · have hdigit := (single_oneOf digit).congr fun a ↦
      ((classSpec a).digit.symm.trans beq_iff_eq.symm : _ ↔ (yyClass a == 7) = true)
    have hws := (single_oneOf ws).congr fun a ↦
      ((classSpec a).ws.symm.trans beq_iff_eq.symm : _ ↔ (yyClass a == 2) = true)
    have hletter := (single_oneOf letter).congr fun a ↦ (classSpec a).letter.symm
    have htail : Single (oneOf letter + oneOf digit + RegularExpression.char underscore)
        (fun a ↦ isIdentClass (yyClass a) = true) :=
      (((single_oneOf letter).add (single_oneOf digit)).add (single_char underscore)).congr
        fun a ↦ by
          simp [isIdentClass, (classSpec a).letter, (classSpec a).digit, (classSpec a).underscore]
    have hdot : Single dot (fun a ↦ (yyClass a != 3) = true) :=
      (single_oneOf _).congr fun a ↦ by simp [mem_anyByte, (classSpec a).newline]
    exact .cons (Recognizer.reads_oneOrMore hdigit) <|
      .cons (hsingle fun a ↦ (classSpec a).comma) <|
      .cons (hsingle fun a ↦ (classSpec a).semicolon) <|
      .cons (hsingle fun a ↦ (classSpec a).dash) <|
      .cons (Recognizer.reads_mul_star hletter htail) <|
      .cons reads_string <|
      .cons (Recognizer.reads_oneOrMore hws) <|
      .cons (hsingle fun a ↦ (classSpec a).newline) <|
      .cons (Recognizer.reads_single hdot) .nil

/-! ## One state and one class at a time -/

/-- The keywords in alphabetical order, each with the length at which it parts from the one before
it. -/
def branches : List (Keyword × ℕ) :=
  [(.circleBufferSize, 1), (.maxPorts, 1), (.rbLogLevel, 1), (.realTimeDeadLine, 2),
   (.realTimeUserDefined, 11), (.schedulerPreemptiveDeadline, 1), (.sessionSize, 2),
   (.sleepTime, 2), (.trunkAcceptUri, 1), (.trunkDispatchUri, 7)]

/-- A word that leads to each state.  From the two dozenth on, `flex` has numbered the prefixes of
the keywords, breadth first. -/
def accessWords : List (List UInt8) :=
  ["", "", "", "", "#", "\t", "\n", "\"", ",", "-", "0", ";", "A", "C", "M", "R", "S", "T", "\t\t",
    "\"#", "\"\"", "\"\\", "00", "A0"].map ascii ++
  (List.range' 2 28).flatMap fun n ↦
    (branches.filter fun k ↦ k.2 ≤ n ∧ n ≤ k.1.text.length).map (·.1.text.take n)

/-- The recognizers that are still running in a state. -/
def pace (s : ℕ) : List (ℕ × ℕ) := runAll readers ((accessWords.getD s []).map yyClass)

/-- The states that a word leads to, and the classes of the bytes. -/
def yyStates : List ℕ := 1 :: List.range' 4 161

def yyClasses : List ℕ := List.range' 1 33

theorem mem_yyStates {s : ℕ} : s ∈ yyStates ↔ s = 1 ∨ 4 ≤ s ∧ s ≤ 164 := by
  rw [yyStates, List.mem_cons, List.mem_range'_1]; omega

theorem yyClass_mem (b : UInt8) : yyClass b ∈ yyClasses := by
  have := (classSpec b).bounds
  rw [yyClasses, List.mem_range'_1]; omega

/-- What is found in the tables is what the recognizers do. -/
def keepsPace (T : YyTables) (s c : ℕ) : Bool :=
  match T.nextState s c with
  | some t => if t = yyJam then stepAll readers (pace s) c = []
    else (4 ≤ t ∧ t ≤ 164) ∧ pace t = stepAll readers (pace s) c
  | none => false

theorem tables_keep_pace :
    ∀ s ∈ yyStates, ∀ c ∈ yyClasses, keepsPace packedTables s c = true := by
  decide +kernel

theorem accept_keeps_pace : ∀ s ∈ yyStates, yyMatcher.act s = acceptAll readers (pace s) := by
  decide +kernel

/-- Every look-up finds something, and every transition leads to a state or into the jam. -/
theorem nextState_eq_some {s c : ℕ} (hs : s ∈ yyStates) (hc : c ∈ yyClasses) :
    ∃ t, yyTables.nextState s c = some t ∧
      (t = yyJam ∧ stepAll readers (pace s) c = [] ∨
        t ≠ yyJam ∧ t ∈ yyStates ∧ pace t = stepAll readers (pace s) c) := by
  have h := tables_keep_pace s hs c hc
  rw [← yyTables_eq, keepsPace] at h
  cases ht : yyTables.nextState s c with
  | none => rw [ht] at h; exact absurd h Bool.false_ne_true
  | some t =>
    rw [ht] at h
    dsimp only at h
    refine ⟨t, rfl, ?_⟩
    by_cases hjam : t = yyJam
    · rw [if_pos hjam] at h
      exact Or.inl ⟨hjam, of_decide_eq_true h⟩
    · rw [if_neg hjam] at h
      obtain ⟨hmem, hpace⟩ := of_decide_eq_true h
      exact Or.inr ⟨hjam, mem_yyStates.2 (Or.inr hmem), hpace⟩

theorem yyMatcher_step {s : ℕ} {b : UInt8} (hs : s ∈ yyStates) :
    (yyMatcher.step s b = none ∧ stepAll readers (pace s) (yyClass b) = []) ∨
      ∃ t, yyMatcher.step s b = some t ∧ t ∈ yyStates ∧
        pace t = stepAll readers (pace s) (yyClass b) := by
  obtain ⟨t, ht, h⟩ := nextState_eq_some hs (yyClass_mem b)
  have hstep : yyMatcher.step s b = if t = yyJam then none else some t := by
    show (yyTables.nextState s (yyClass b)).bind _ = _
    rw [ht]; rfl
  rw [hstep]
  rcases h with ⟨hjam, hdead⟩ | ⟨hjam, hmem, hpace⟩
  · exact Or.inl ⟨if_pos hjam, hdead⟩
  · exact Or.inr ⟨t, if_neg hjam, hmem, hpace⟩

theorem yyMatcher_simulates :
    yyMatcher.Simulates (readers.map (·.comap yyClass)) (· ∈ yyStates) pace where
  start := ⟨mem_yyStates.2 (Or.inl rfl), rfl, (startAll_comap yyClass readers).symm⟩
  act s hs := (accept_keeps_pace s hs).trans (acceptAll_comap yyClass readers _).symm
  step s b t hs ht := by
    rw [stepAll_comap]
    rcases yyMatcher_step hs with ⟨hnone, -⟩ | ⟨u, hu, hmem, hpace⟩
    · rw [hnone] at ht; exact nomatch ht
    · rw [hu] at ht; exact Option.some.inj ht ▸ ⟨hmem, hpace⟩
  jam s b hs ht := by
    rw [stepAll_comap]
    rcases yyMatcher_step hs with ⟨-, hdead⟩ | ⟨u, hu, -⟩
    · exact hdead
    · rw [hu] at ht; exact nomatch ht

/-- **The automaton in the tables knows the rules of the scanner.** -/
theorem yyMatcher_knows : yyMatcher.Knows rules := yyMatcher_simulates.knows readAll

end Scanner

end DmmrOrbit
