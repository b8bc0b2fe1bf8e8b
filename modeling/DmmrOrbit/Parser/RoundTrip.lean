import DmmrOrbit.Parser.Console

/-!
# Well-formed configuration files

A configuration file is a list of statements `KEY VALUE;`.  `Statement` is such a statement with the
blanks it is written with; that its value is a numeral that fits the field, or a text that needs no
escaping, is part of the type.  `fileText` is the file.

`round_trip` is the result: after the file has been parsed, every field that is mentioned holds the
value of the last statement that mentions it, and every other field is what it was.  Its two halves
are `tokens_text`, which says how the scanner cuts a statement whatever follows it, and
`handleTokens_tokens`, which says what the three tokens of a statement do.
-/

set_option autoImplicit false

open DmmrOrbit.Scanner

namespace DmmrOrbit

/-! ## Statements -/

/-- A run of blanks, tabs and line ends. -/
structure Spaces where
  bytes : List UInt8
  isSpace : ∀ b ∈ bytes, IsSpace b

/-- A value that can be written for a key. -/
inductive Value (k : Keyword) : Type
  | numeral (ds : List UInt8) (ne_nil : ds ≠ []) (isDigit : ∀ d ∈ ds, d ∈ digit)
      (fits : decimal ds < k.bound)
  | quoted (isUri : k.IsUri) (t : List UInt8) (plain : Plain t) (noNul : ∀ b ∈ t, b ≠ 0)

namespace Value

variable {k : Keyword}

/-- The value as it is written. -/
def text : Value k → List UInt8
  | numeral ds .. => ds
  | quoted _ t .. => quote :: (t ++ [quote])

/-- The token of the value. -/
def token : Value k → Token
  | numeral ds .. => ⟨.number, ds⟩
  | quoted _ t .. => ⟨.string, quote :: (t ++ [quote])⟩

/-- What `handle_token` makes of the value. -/
def store (cfg : CfgServerServer) : Value k → CfgServerServer
  | numeral ds .. => cfg.storeNumber ds k
  | quoted _ t .. => cfg.storeString (quote :: (t ++ [quote])) k

/-- The field holds the value: the number itself, or a C string of at most 63 bytes. -/
def StoredAs (f : FieldValue) : Value k → Prop
  | numeral ds .. => f = .number (decimal ds)
  | quoted _ t .. => ∃ b, f = .uri b ∧ cstr b.toList = t.take 63

theorem storedAs_get_store (v : Value k) (cfg : CfgServerServer) :
    v.StoredAs ((v.store cfg).get k) := by
  cases v with
  | numeral ds ne_nil isDigit fits => exact CfgServerServer.get_storeNumber isDigit fits cfg
  | quoted isUri t plain noNul => exact CfgServerServer.get_storeString isUri noNul cfg

theorem get_store_of_ne {l : Keyword} (h : l ≠ k) (v : Value k) (cfg : CfgServerServer) :
    (v.store cfg).get l = cfg.get l := by
  cases v with
  | numeral => exact CfgServerServer.get_storeNumber_of_ne h cfg _
  | quoted => exact CfgServerServer.get_storeString_of_ne h cfg _

end Value

/-- `KEY VALUE;` and the blanks around the value and behind the semicolon. -/
structure Statement where
  key : Keyword
  gap : Spaces
  gap_ne_nil : gap.bytes ≠ []
  value : Value key
  before : Spaces
  after : Spaces

namespace Statement

def text (st : Statement) : List UInt8 :=
  st.key.text ++ (st.gap.bytes ++ (st.value.text ++
    (st.before.bytes ++ semicolon :: st.after.bytes)))

def tokens (st : Statement) : List Token :=
  [⟨.keyword, st.key.text⟩, st.value.token, ⟨.semicolon, [semicolon]⟩]

end Statement

/-- The text of a configuration file. -/
def fileText (lead : Spaces) (sts : List Statement) : List UInt8 :=
  lead.bytes ++ sts.flatMap Statement.text

/-! ## The tokens of a file -/

/-- Behind a value there are blanks or there is the semicolon. -/
theorem head_before {bs : Spaces} {rest : List UInt8} {a : UInt8}
    (h : (bs.bytes ++ semicolon :: rest).head? = some a) : a ∉ digit := by
  cases hb : bs.bytes with
  | nil =>
    rw [hb] at h
    rw [← Option.some.inj h]; decide
  | cons b w =>
    rw [hb] at h
    rw [← Option.some.inj h]
    exact not_digit_of_isSpace (bs.isSpace b (hb ▸ List.mem_cons_self))

namespace Statement

/-- How a statement is cut, whatever follows it. -/
theorem tokens_text (st : Statement) (rest : List UInt8) :
    Scanner.tokens (st.text ++ rest) = st.tokens ++ Scanner.tokens rest := by
  have hgap : ∀ u a, (st.gap.bytes ++ u).head? = some a → ¬ IdentTail a := by
    intro u a ha
    cases hg : st.gap.bytes with
    | nil => exact absurd hg st.gap_ne_nil
    | cons b w =>
      rw [hg] at ha
      rw [← Option.some.inj ha]
      exact not_identTail_of_isSpace (st.gap.isSpace b (hg ▸ List.mem_cons_self))
  have hvalue : Scanner.tokens (st.value.text ++
      (st.before.bytes ++ semicolon :: (st.after.bytes ++ rest))) =
        st.value.token :: ⟨.semicolon, [semicolon]⟩ :: Scanner.tokens rest := by
    have hend : Scanner.tokens (st.before.bytes ++ semicolon :: (st.after.bytes ++ rest)) =
        ⟨.semicolon, [semicolon]⟩ :: Scanner.tokens rest := by
      rw [tokens_spaces st.before.isSpace, tokens_semicolon, tokens_spaces st.after.isSpace]
    cases hv : st.value with
    | numeral ds ne_nil isDigit fits =>
      rw [Value.text, tokens_number ne_nil isDigit fun a ha ↦ head_before ha, hend, Value.token]
    | quoted isUri t plain noNul =>
      rw [Value.text, tokens_string plain, hend, Value.token]
  rw [text]
  simp only [List.append_assoc, List.cons_append]
  rw [tokens_keyword st.key (hgap _), tokens_spaces st.gap.isSpace, hvalue]
  rfl

/-- What the tokens of a statement do. -/
theorem handleTokens_tokens (st : Statement) {c : Console} (hc : c.cfg = true) :
    handleTokens c st.tokens =
      { c with currentSetting := none, cfgServer := st.value.store c.cfgServer } := by
  rw [tokens, handleTokens_cons, handleToken_keyword hc, handleTokens_cons, handleTokens_cons,
    handleToken_semicolon, handleTokens_nil]
  cases st.value with
  | numeral ds => rw [Value.token, handleToken, if_neg (by rw [hc]; decide)]; rfl
  | quoted isUri t => rw [Value.token, handleToken, if_neg (by rw [hc]; decide)]; rfl

end Statement

theorem tokens_fileText (lead : Spaces) (sts : List Statement) :
    Scanner.tokens (fileText lead sts) = sts.flatMap Statement.tokens := by
  rw [fileText, tokens_spaces lead.isSpace]
  induction sts with
  | nil => rfl
  | cons st sts ih => rw [List.flatMap_cons, st.tokens_text, ih, List.flatMap_cons]

/-! ## The round trip -/

/-- The configuration after a list of statements. -/
def storeAll (cfg : CfgServerServer) (sts : List Statement) : CfgServerServer :=
  sts.foldl (fun cfg st ↦ st.value.store cfg) cfg

theorem handleTokens_flatMap (sts : List Statement) {c : Console} (hc : c.cfg = true) :
    (handleTokens c (sts.flatMap Statement.tokens)).cfgServer = storeAll c.cfgServer sts := by
  induction sts generalizing c with
  | nil => rfl
  | cons st sts ih =>
    rw [List.flatMap_cons, handleTokens_append, st.handleTokens_tokens hc]
    exact ih hc

theorem parsed_fileText (cfg : CfgServerServer) (lead : Spaces) (sts : List Statement) :
    parsed cfg (fileText lead sts) = storeAll cfg sts := by
  rw [parsed, tokens_fileText]
  exact handleTokens_flatMap sts rfl

/-- The last statement about a key. -/
def lastOf (k : Keyword) (sts : List Statement) : Option Statement :=
  (sts.filter fun st ↦ st.key = k).getLast?

theorem lastOf_concat (k : Keyword) (sts : List Statement) (st : Statement) :
    lastOf k (sts ++ [st]) = if st.key = k then some st else lastOf k sts := by
  rw [lastOf, List.filter_append]
  by_cases h : st.key = k
  · have hone : [st].filter (fun st ↦ decide (st.key = k)) = [st] := by simp [h]
    rw [if_pos h, hone, List.getLast?_concat]
  · have hone : [st].filter (fun st ↦ decide (st.key = k)) = [] := by simp [h]
    rw [if_neg h, hone, List.append_nil, lastOf]

/-- **Round trip**: parsing a file of well-formed statements leaves in every field that is mentioned
the value of its last statement, and every other field as it was. -/
theorem round_trip (c : Console) (lead : Spaces) (sts : List Statement) (k : Keyword) :
    let cfg := (consoleRun (consoleSetup c (some (fileText lead sts))).2).2.cfgServer
    match lastOf k sts with
    | some st => st.key = k ∧ st.value.StoredAs (cfg.get k)
    | none => cfg.get k = c.cfgServer.get k := by
  dsimp only
  rw [consoleRun_consoleSetup, parsed_fileText]
  induction sts using List.reverseRecOn with
  | nil => rfl
  | append_singleton sts st ih =>
    have hlast : storeAll c.cfgServer (sts ++ [st]) = st.value.store (storeAll c.cfgServer sts) :=
      List.foldl_concat ..
    rw [lastOf_concat, hlast]
    by_cases h : st.key = k
    · subst h
      rw [if_pos rfl]
      exact ⟨rfl, st.value.storedAs_get_store _⟩
    · rw [if_neg h, st.value.get_store_of_ne (Ne.symm h)]
      exact ih

end DmmrOrbit
