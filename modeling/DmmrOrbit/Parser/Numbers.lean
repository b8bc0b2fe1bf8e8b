import DmmrOrbit.Parser.Statements

/-!
# The numbers of the configuration

`handle_token` converts a numeral with `strtoull` or with `atoi` and a cast to the type of the
field, and checks neither the conversion nor the cast.  `Keyword.converted` is what the two make of
the value of a numeral: a deadline is the nearest 64-bit value, and any other number passes through
a 64-bit `long` and keeps only as many of its low bits as the field has.

`NumeralIn text` is a place of a text where a numeral follows a numeric keyword, and
`NumeralIn.AsWritten` says that the numeral is stored there as it is written or, when it does not
fit the field, not at all.  `asWritten_iff` is the result, for every text and every such place: this
holds exactly when the numeral fits, or the field held the value it is converted to before.
`not_asWritten` is the text `SLEEP_TIME 65537`, which sets `sleep_time` to 1.
-/

set_option autoImplicit false

namespace DmmrOrbit

open Scanner Lexer

/-! ## Conversions -/

theorem strtoull_digits {ds : List UInt8} (h : ∀ d ∈ ds, d ∈ digit) :
    (strtoull ds).toNat = min (decimal ds) (2 ^ 64 - 1) := by
  rcases Nat.lt_or_ge (decimal ds) (2 ^ 64) with hlt | hge
  · rw [strtoull_of_digits h hlt]; omega
  · rw [strtoull, strtoDecimal_of_digits h]
    dsimp only
    rw [if_neg (by omega), UInt64.toNat_ofNat_of_lt' (by decide)]
    omega

/-- `atoi` keeps the residue of the nearest `long`. -/
theorem atoi_digits_emod {ds : List UInt8} (h : ∀ d ∈ ds, d ∈ digit) {m : ℤ}
    (hm : m ∣ 2 ^ 32) : atoi ds % m = (min (decimal ds) (2 ^ 63 - 1) : ℕ) % m := by
  have hl : strtol ds = (min (decimal ds) (2 ^ 63 - 1) : ℕ) := by
    rw [strtol, strtoDecimal_of_digits h]
    dsimp only
    rw [if_neg (by decide)]
    omega
  calc atoi ds % m
      = (atoi ds % ((2 ^ 32 : ℕ) : ℤ)) % m := (Int.emod_emod_of_dvd _ hm).symm
    _ = (strtol ds % ((2 ^ 32 : ℕ) : ℤ)) % m := by rw [atoi, Int.bmod_emod]
    _ = strtol ds % m := Int.emod_emod_of_dvd _ hm
    _ = _ := by rw [hl]

namespace Keyword

/-- The bits of the field of a numeric keyword. -/
def width : Keyword → ℕ
  | schedulerPreemptiveDeadline | realTimeDeadLine | realTimeUserDefined => 64
  | circleBufferSize => 32
  | sleepTime | sessionSize | maxPorts => 16
  | rbLogLevel => 8
  | trunkAcceptUri | trunkDispatchUri => 0

/-- What the conversions make of a value: `strtoull`, or `atoi` and the cast to the field. -/
def converted (k : Keyword) (v : ℕ) : ℕ :=
  if k.width = 64 then min v (2 ^ 64 - 1) else min v (2 ^ 63 - 1) % 2 ^ k.width

theorem width_le (k : Keyword) : k.width = 64 ∨ k.width ≤ 32 := by
  cases k <;> simp [width]

theorem converted_lt (k : Keyword) (v : ℕ) : k.converted v < 2 ^ k.width := by
  rw [converted]
  split
  · next h => rw [h]; omega
  · exact Nat.mod_lt _ (Nat.two_pow_pos _)

/-- A value that fits its field survives the conversions. -/
theorem converted_of_lt {k : Keyword} {v : ℕ} (h : v < 2 ^ k.width) : k.converted v = v := by
  rw [converted]
  split
  · next h64 => rw [h64] at h; omega
  · next hne =>
    have hle : 2 ^ k.width ≤ 2 ^ 32 :=
      Nat.pow_le_pow_right (by decide) ((k.width_le).resolve_left hne)
    rw [Nat.min_eq_left (by omega), Nat.mod_eq_of_lt h]

end Keyword

/-- The selected field takes the value the numeral is converted to. -/
theorem CfgServerServer.get_storeNumber_digits {k : Keyword} (hk : ¬ k.IsUri) {ds : List UInt8}
    (h : ∀ d ∈ ds, d ∈ digit) (cfg : CfgServerServer) :
    (cfg.storeNumber ds k).get k = .number (k.converted (decimal ds)) := by
  have h64 : (strtoull ds).toNat = min (decimal ds) (2 ^ 64 - 1) := strtoull_digits h
  have h32 : (UInt32.ofInt (atoi ds)).toNat = min (decimal ds) (2 ^ 63 - 1) % 2 ^ 32 := by
    rw [UInt32.ofInt, UInt32.toNat_ofNat', atoi_digits_emod h (by decide)]
    omega
  have h16 : (UInt16.ofInt (atoi ds)).toNat = min (decimal ds) (2 ^ 63 - 1) % 2 ^ 16 := by
    rw [UInt16.ofInt, UInt16.toNat_ofNat', atoi_digits_emod h (by decide)]
    omega
  have h8 : (UInt8.ofInt (atoi ds)).toNat = min (decimal ds) (2 ^ 63 - 1) % 2 ^ 8 := by
    rw [UInt8.ofInt, UInt8.toNat_ofNat', atoi_digits_emod h (by decide)]
    omega
  cases k with
  | schedulerPreemptiveDeadline => exact congrArg _ h64
  | realTimeDeadLine => exact congrArg _ h64
  | realTimeUserDefined => exact congrArg _ h64
  | sleepTime => exact congrArg _ h16
  | sessionSize => exact congrArg _ h16
  | maxPorts => exact congrArg _ h16
  | circleBufferSize => exact congrArg _ h32
  | rbLogLevel => exact congrArg _ h8
  | trunkAcceptUri => exact absurd trivial hk
  | trunkDispatchUri => exact absurd trivial hk

/-! ## Numerals in a text -/

/-- A number is sent by the rule for numbers only. -/
theorem Scanner.rule_of_number {r : Rule UInt8 Token} (hr : r ∈ rules) {w : List UInt8} {t : Token}
    (hact : r.action w = some t) (ht : t.type = .number) :
    r = send .number (oneOrMore (oneOf digit)) ∧ t.value = w := by
  rw [rules, List.mem_append, List.mem_map] at hr
  rcases hr with ⟨k, -, rfl⟩ | hr
  · obtain rfl := Option.some.inj hact
    exact absurd ht (by simp)
  · rcases List.mem_cons.1 hr with rfl | hr
    · obtain rfl := Option.some.inj hact
      exact ⟨rfl, rfl⟩
    · have hother : ∀ q ∈ rules.drop 11, ∀ u, q.action w = some u → u.type ≠ .number := by
        simp [rules, Keyword.all, send, ignore]
      exact absurd ht (hother r hr t hact)

/-- The text of a number token is a numeral. -/
theorem Scanner.digits_of_mem_tokens {text : List UInt8} {t : Token} (h : t ∈ tokens text)
    (ht : t.type = .number) : ∀ d ∈ t.value, d ∈ digit := by
  obtain ⟨r, hr, w, hw, hact⟩ := mem_lex h
  obtain ⟨rfl, rfl⟩ := rule_of_number hr hact ht
  exact ((single_oneOf digit).mem_oneOrMore.1 hw).2

/-- A place of a text where a numeral follows a numeric keyword, with nothing between them that
`handle_token` would not ignore. -/
structure NumeralIn (text : List UInt8) where
  before : List Token
  setting : Token
  keyword : Keyword
  between : List Token
  number : Token
  after : List Token
  tokens_eq : tokens text = before ++ setting :: between ++ number :: after
  selects : setting.selects = some keyword
  ignored : ∀ t ∈ between, t.Ignored
  isNumber : number.type = .number
  numeric : ¬ keyword.IsUri

namespace NumeralIn

variable {text : List UInt8} (n : NumeralIn text)

/-- The mathematical value of the numeral. -/
def value : ℕ := decimal n.number.value

/-- The console when the numeral is reached. -/
def console (c : Console) : Console :=
  handleTokens (consoleSetup c (some text)).2 (n.before ++ n.setting :: n.between)

/-- The selected field when the numeral is reached. -/
def old (c : Console) : FieldValue := (n.console c).cfgServer.get n.keyword

/-- The selected field after `handle_token`. -/
def new (c : Console) : FieldValue := (handleToken (n.console c) n.number).cfgServer.get n.keyword

/-- The numeral is stored as it is written, or does not fit its field and is not stored at all. -/
def AsWritten (c : Console) : Prop :=
  n.new c = .number n.value ∨ 2 ^ n.keyword.width ≤ n.value ∧ n.new c = n.old c

theorem digits : ∀ d ∈ n.number.value, d ∈ digit :=
  digits_of_mem_tokens (by rw [n.tokens_eq]; simp) n.isNumber

/-- `handle_token` stores the converted value. -/
theorem new_eq (c : Console) : n.new c = .number (n.keyword.converted n.value) := by
  have hsel : (n.console c).currentSetting = some n.keyword :=
    (currentSetting_eq_some rfl rfl).2 ⟨n.before, n.setting, n.between, rfl, n.selects, n.ignored⟩
  have hcfg : (n.console c).cfg = true := cfg_handleTokens _ _
  have hinto : storesInto (n.console c) n.number = some n.keyword :=
    (storesInto_eq_some hcfg).2 ⟨hsel, Or.inl ⟨n.isNumber, n.numeric⟩⟩
  rw [new, cfgServer_handleToken hcfg, hinto]
  dsimp only
  rw [if_neg n.numeric, CfgServerServer.get_storeNumber_digits n.numeric n.digits, value]

/-- **A configured number is stored as written or not at all** exactly when it fits its field, or
the field held the converted value already. -/
theorem asWritten_iff (c : Console) : n.AsWritten c ↔
    n.value < 2 ^ n.keyword.width ∨ n.old c = .number (n.keyword.converted n.value) := by
  rw [AsWritten, n.new_eq]
  rcases Nat.lt_or_ge n.value (2 ^ n.keyword.width) with hlt | hge
  · simp [hlt, Keyword.converted_of_lt hlt]
  · have hne : FieldValue.number (n.keyword.converted n.value) ≠ .number n.value := fun heq ↦ by
      have := n.keyword.converted_lt n.value
      rw [FieldValue.number.inj heq] at this
      omega
    constructor
    · rintro (heq | ⟨-, heq⟩)
      · exact absurd heq hne
      · exact Or.inr heq.symm
    · rintro (hlt | heq)
      · exact absurd hlt (by omega)
      · exact Or.inr ⟨hge, heq.symm⟩

end NumeralIn

theorem wrapping_digits : ∀ b ∈ ([0x36, 0x35, 0x35, 0x33, 0x37] : List UInt8), b ∈ digit := by
  decide +kernel

/-- The numeral of `SLEEP_TIME 65537`. -/
def wrappingNumeral : NumeralIn
    (Keyword.sleepTime.text ++ ([0x20] ++ ([0x36, 0x35, 0x35, 0x33, 0x37] ++ []))) where
  before := []
  setting := ⟨.keyword, Keyword.sleepTime.text⟩
  keyword := .sleepTime
  between := []
  number := ⟨.number, [0x36, 0x35, 0x35, 0x33, 0x37]⟩
  after := []
  tokens_eq := by
    have hspace : IsSpace 0x20 := Or.inl List.mem_cons_self
    rw [tokens_keyword _ (by rintro a ⟨⟩; exact not_identTail_of_isSpace hspace),
      tokens_spaces (fun b hb ↦ List.mem_singleton.1 hb ▸ hspace),
      tokens_number (List.cons_ne_nil _ _) wrapping_digits (by simp), tokens_nil]
    rfl
  selects := Token.selects_text _
  ignored := by simp
  isNumber := rfl
  numeric := by decide

/-- `SLEEP_TIME 65537` sets `sleep_time` to 1. -/
theorem not_asWritten :
    ¬ ∀ (text : List UInt8) (n : NumeralIn text) (c : Console), n.AsWritten c := by
  intro h
  have hnew := h _ wrappingNumeral ⟨false, none, none, .zero⟩
  rw [NumeralIn.AsWritten, NumeralIn.new_eq] at hnew
  exact absurd hnew (by decide +kernel)

end DmmrOrbit
