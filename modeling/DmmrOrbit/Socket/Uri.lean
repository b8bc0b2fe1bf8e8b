import DmmrOrbit.Funcs.Copy
import DmmrOrbit.Parser.Numbers

/-!
# The URI of an endpoint

`parse_protocol_host_port` of `funcs.h` takes a text such as `TCP/localhost:8080` apart: the prefix
is the protocol, what stands behind the last colon is the port, and what is between them the host.
The host is copied as far as it fits in front of a NUL, and the port is whatever `atoi` makes of its
text, cast to 16 bits.

`IsUri` is what is accepted, and `parseProtocolHostPort_accepts` is the result: the protocol of such
a text is returned with the host, cut off to the size of the buffer, and with the port if that is
written as a number of 16 bits; any other text is refused and nothing is stored.
`not_exactGrammar` is a text without a number for a port, `TCP/h:x`, which is accepted all the same.

`vcpy` is the copy routine of the program, which copies words where the addresses allow it, and
`vcpy_eq` says that this makes no difference.
-/

set_option autoImplicit false

namespace DmmrOrbit

open Scanner

/-! ## Copying -/

/-- A loop of `__vcpy`: what is in memory from `dst` on after `count` units have been copied. -/
def copyUnits (unit : ℕ) : ℕ → List UInt8 → List UInt8 → List UInt8
  | 0, dst, _ => dst
  | count + 1, dst, src => src.take unit ++ copyUnits unit count (dst.drop unit) (src.drop unit)

theorem copyUnits_eq (unit count : ℕ) (dst src : List UInt8) : copyUnits unit count dst src =
    src.take (unit * count) ++ dst.drop (unit * count) := by
  induction count generalizing dst src with
  | zero => rfl
  | succ count ih =>
    rw [copyUnits, ih, List.drop_drop, ← List.append_assoc, ← List.take_add, Nat.mul_succ,
      Nat.add_comm unit]

/-- `__vcpy`: words of eight bytes, when both addresses are aligned for them, and then bytes. -/
def vcpy (aligned : Bool) (dst src : List UInt8) (size : ℕ) : List UInt8 :=
  let words := 8 * (if aligned then size / 8 else 0)
  let copied := copyUnits 8 (if aligned then size / 8 else 0) dst src
  copied.take words ++ copyUnits 1 (size - words) (copied.drop words) (src.drop words)

/-- However it copies, the bytes of the source have come over those of the destination. -/
theorem vcpy_eq (aligned : Bool) (dst : List UInt8) {src : List UInt8} {size : ℕ}
    (h : size ≤ src.length) : vcpy aligned dst src size = src.take size ++ dst.drop size := by
  have hwords : 8 * (if aligned then size / 8 else 0) ≤ size := by split <;> omega
  rw [vcpy, copyUnits_eq, copyUnits_eq, Nat.one_mul]
  generalize 8 * (if aligned then size / 8 else 0) = w at hwords
  have hw : (src.take w).length = w := by rw [List.length_take]; omega
  rw [List.take_left' hw, List.drop_left' hw, List.drop_drop, ← List.append_assoc, ← List.take_add,
    Nat.add_sub_cancel' hwords]

/-- It is the routine of `Funcs`, as far as the two arrays in memory go: `k` bytes at `d` and `l` at
`o`. -/
theorem vcpy_load (word : Funcs.WordT) (aligned : Bool) (m : ByteMemory.Memory) {d o k l size : ℕ}
    (hd : d ≠ 0) (ho : o ≠ 0) (h : d ≤ o ∨ o + l ≤ d) (hk : size ≤ k) (hl : size ≤ l) :
    ∃ m', Funcs.vcpy word m d o size = some m' ∧ ByteMemory.load m' d k =
      vcpy aligned (ByteMemory.load m d k) (ByteMemory.load m o l) size := by
  refine ⟨_, Funcs.vcpy_eq_move word m hd ho (h.imp_right fun h ↦ by omega), ?_⟩
  rw [vcpy_eq aligned _ (by rw [ByteMemory.length_load]; exact hl), ByteMemory.load_move hk,
    ByteMemory.take_load hl]

/-! ## The last separator -/

/-- `strrchr`: the index of the last occurrence. -/
def strrchr (c : UInt8) : List UInt8 → Option ℕ
  | [] => none
  | b :: s => match strrchr c s with
    | some i => some (i + 1)
    | none => if b = c then some 0 else none

theorem strrchr_eq_none_iff {c : UInt8} {s : List UInt8} : strrchr c s = none ↔ c ∉ s := by
  induction s with
  | nil => simp [strrchr]
  | cons b s ih =>
    rw [strrchr, List.mem_cons, not_or, ← ih]
    cases strrchr c s with
    | some i => simp
    | none => simp [eq_comm]

theorem strrchr_append {c : UInt8} (a : List UInt8) {b : List UInt8} (h : c ∉ b) :
    strrchr c (a ++ c :: b) = some a.length := by
  induction a with
  | nil =>
    rw [List.nil_append, strrchr, strrchr_eq_none_iff.2 h]
    exact if_pos rfl
  | cons x a ih => rw [List.cons_append, strrchr, ih]; rfl

/-- What is found is the separator that nothing of its kind follows. -/
theorem exists_of_strrchr {c : UInt8} {s : List UInt8} {i : ℕ} (h : strrchr c s = some i) :
    ∃ a b, s = a ++ c :: b ∧ c ∉ b ∧ a.length = i := by
  induction s generalizing i with
  | nil => exact absurd h (by simp [strrchr])
  | cons x s ih =>
    rw [strrchr] at h
    split at h
    · next j hj =>
      obtain ⟨a, b, rfl, hb, hlen⟩ := ih hj
      exact ⟨x :: a, b, rfl, hb, by rw [List.length_cons, hlen]; exact Option.some.inj h⟩
    · next hnone =>
      obtain ⟨rfl, hi⟩ := Option.ite_none_right_eq_some.1 h
      exact ⟨[], s, rfl, strrchr_eq_none_iff.1 hnone, Option.some.inj hi⟩

/-! ## The function of the source -/

/-- `__HOST_URI_SEP__`, a colon. -/
def hostUriSep : UInt8 := 0x3a

/-- `__UDP_PROTO__` and `__TCP_PROTO__`. -/
def Proto.uriPrefix : Proto → List UInt8
  | .udp => ascii "UDP/"
  | .tcp => ascii "TCP/"
  | .none => []

/-- What `parse_protocol_host_port` returns, and what it leaves in `host_out` and `port_out`. -/
structure ParsedUri (hostSize : ℕ) where
  proto : Proto
  hostOut : Bytes hostSize
  portOut : UInt16
  deriving DecidableEq, Repr

/-- `parse_protocol_host_port`.  The null tests of the arguments are left out; `aligned` is whether
the copy of the host can go by words. -/
def parseProtocolHostPort {hostSize : ℕ} (aligned : Bool) (input : List UInt8)
    (hostOut : Bytes hostSize) (portOut : UInt16) : ParsedUri hostSize :=
  let rejected : ParsedUri hostSize := ⟨.none, hostOut, portOut⟩
  if hostSize = 0 then rejected
  else
    let proto : Proto :=
      if (cstr input).take 4 = Proto.udp.uriPrefix then .udp
      else if (cstr input).take 4 = Proto.tcp.uriPrefix then .tcp
      else .none
    if proto = .none then rejected
    else
      let input := (cstr input).drop 4
      match strrchr hostUriSep input with
      | none => rejected
      | some 0 => rejected
      | some (sep + 1) =>
        let hostLen := if hostSize ≤ sep + 1 then hostSize - 1 else sep + 1
        let copied := (vcpy aligned hostOut.toList input hostLen).take hostLen
        { proto := proto
          hostOut := hostOut.write (copied ++ [0])
          portOut := UInt16.ofInt (atoi (input.drop (sep + 2))) }

/-! ## What is accepted -/

/-- The text of an endpoint: a prefix, a host that is not empty, and behind the last colon a port,
which may be any text. -/
structure IsUri (input : List UInt8) (proto : Proto) (host port : List UInt8) : Prop where
  proto_ne : proto ≠ .none
  text : cstr input = proto.uriPrefix ++ (host ++ hostUriSep :: port)
  host_ne : host ≠ []
  port_sep : hostUriSep ∉ port

section

variable {hostSize : ℕ} (aligned : Bool) {input : List UInt8} (hostOut : Bytes hostSize)
  (portOut : UInt16)

theorem IsUri.proto_eq {p : Proto} {host port : List UInt8} (h : IsUri input p host port) :
    (if (cstr input).take 4 = Proto.udp.uriPrefix then Proto.udp
      else if (cstr input).take 4 = Proto.tcp.uriPrefix then .tcp else .none) = p ∧
      (cstr input).drop 4 = host ++ hostUriSep :: port := by
  have hp := h.proto_ne
  cases p with
  | none => exact absurd rfl hp
  | udp =>
    have hlen : Proto.udp.uriPrefix.length = 4 := by decide
    rw [h.text, List.take_left' hlen, List.drop_left' hlen, if_pos rfl]
    exact ⟨rfl, rfl⟩
  | tcp =>
    have hlen : Proto.tcp.uriPrefix.length = 4 := by decide
    rw [h.text, List.take_left' hlen, List.drop_left' hlen, if_neg (by decide), if_pos rfl]
    exact ⟨rfl, rfl⟩

/-- Such a text is taken apart. -/
theorem parseProtocolHostPort_of_isUri (hn : 1 ≤ hostSize) {p : Proto} {host port : List UInt8}
    (h : IsUri input p host port) : parseProtocolHostPort aligned input hostOut portOut =
      ⟨p, hostOut.write (host.take (hostSize - 1) ++ [0]), UInt16.ofInt (atoi port)⟩ := by
  obtain ⟨hproto, htext⟩ := h.proto_eq
  obtain ⟨k, hk⟩ := Nat.exists_eq_succ_of_ne_zero (mt List.length_eq_zero_iff.1 h.host_ne)
  rw [parseProtocolHostPort, if_neg (by omega)]
  dsimp only
  rw [hproto, if_neg h.proto_ne, htext, strrchr_append host h.port_sep, hk]
  dsimp only
  have hlen : (if hostSize ≤ k + 1 then hostSize - 1 else k + 1) ≤ host.length := by
    split <;> omega
  have hhost : host.take (if hostSize ≤ k + 1 then hostSize - 1 else k + 1) =
      host.take (hostSize - 1) := by
    split
    · rfl
    · rw [List.take_of_length_le (by omega), List.take_of_length_le (by omega)]
  have hcopied (m : ℕ) (hm : m ≤ host.length) :
      (vcpy aligned hostOut.toList (host ++ hostUriSep :: port) m).take m = host.take m := by
    rw [vcpy_eq aligned _ (by rw [List.length_append]; omega), List.take_append_of_le_length hm,
      List.take_left' (by rw [List.length_take]; omega)]
  have hport : (host ++ hostUriSep :: port).drop (k + 2) = port := by
    rw [List.drop_append, List.drop_of_length_le (by omega), hk]
    simp
  rw [hcopied _ hlen, hhost, hport]

/-- Any other text is refused. -/
theorem parseProtocolHostPort_of_not_isUri (h : ∀ p host port, ¬ IsUri input p host port) :
    parseProtocolHostPort aligned input hostOut portOut = ⟨.none, hostOut, portOut⟩ := by
  rw [parseProtocolHostPort]
  split
  · rfl
  · dsimp only
    generalize hproto : (if (cstr input).take 4 = Proto.udp.uriPrefix then Proto.udp
      else if (cstr input).take 4 = Proto.tcp.uriPrefix then .tcp else .none) = p
    split
    · rfl
    · next hne =>
      have hprefix : (cstr input).take 4 = p.uriPrefix := by
        split at hproto
        · next hudp => rw [← hproto, hudp]
        · split at hproto
          · next htcp => rw [← hproto, htcp]
          · exact absurd hproto.symm hne
      split
      · rfl
      · rfl
      · next sep hsep =>
        obtain ⟨host, port, htext, hport, hlen⟩ := exists_of_strrchr hsep
        refine absurd ⟨hne, ?_, ?_, hport⟩ (h p host port)
        · rw [← hprefix, ← htext, List.take_append_drop]
        · rintro rfl
          exact absurd hlen (by simp)

/-- **What `parse_protocol_host_port` accepts**: a prefix and, behind it, a host that is not empty
in front of the last colon.  Of the host it stores what fits in front of the NUL, and of the port
what `atoi` makes of it, which is the port if that is written as a number of 16 bits.  Any other
text is refused, and nothing is stored. -/
theorem parseProtocolHostPort_accepts (hn : 1 ≤ hostSize) :
    (∀ p, p ≠ .none → ((parseProtocolHostPort aligned input hostOut portOut).proto = p ↔
      ∃ host port, IsUri input p host port)) ∧
    (∀ p host port, IsUri input p host port →
      (parseProtocolHostPort aligned input hostOut portOut).hostOut =
        hostOut.write (host.take (hostSize - 1) ++ [0]) ∧
      (parseProtocolHostPort aligned input hostOut portOut).portOut = UInt16.ofInt (atoi port) ∧
      (port ≠ [] → (∀ d ∈ port, d ∈ digit) → decimal port < 2 ^ 16 →
        (parseProtocolHostPort aligned input hostOut portOut).portOut.toNat = decimal port)) ∧
    ((parseProtocolHostPort aligned input hostOut portOut).proto = .none →
      parseProtocolHostPort aligned input hostOut portOut = ⟨.none, hostOut, portOut⟩) := by
  refine ⟨fun p hp ↦ ⟨fun hproto ↦ ?_, ?_⟩, fun p host port h ↦ ?_, fun hproto ↦ ?_⟩
  · by_contra hnone
    have hnot : ∀ q host port, ¬ IsUri input q host port := fun q host port hq ↦ by
      rw [parseProtocolHostPort_of_isUri aligned hostOut portOut hn hq] at hproto
      exact hnone ⟨host, port, hproto ▸ hq⟩
    rw [parseProtocolHostPort_of_not_isUri aligned hostOut portOut hnot] at hproto
    exact hp hproto.symm
  · rintro ⟨host, port, h⟩
    rw [parseProtocolHostPort_of_isUri aligned hostOut portOut hn h]
  · rw [parseProtocolHostPort_of_isUri aligned hostOut portOut hn h]
    refine ⟨rfl, rfl, fun _ hdigits hlt ↦ ?_⟩
    show (UInt16.ofInt (atoi port)).toNat = decimal port
    rw [atoi_of_digits hdigits (by omega), UInt16.ofInt, UInt16.toNat_ofNat']
    omega
  · by_cases hex : ∃ p host port, IsUri input p host port
    · obtain ⟨p, host, port, h⟩ := hex
      rw [parseProtocolHostPort_of_isUri aligned hostOut portOut hn h] at hproto
      exact absurd hproto h.proto_ne
    · exact parseProtocolHostPort_of_not_isUri aligned hostOut portOut fun p host port h ↦
        hex ⟨p, host, port, h⟩

end

/-- A buffer of 256 bytes and the text `TCP/h:80`. -/
theorem parseProtocolHostPort_accepts_tcp :
    1 ≤ 0x100 ∧ (parseProtocolHostPort true (ascii "TCP/h:80") (.zero 0x100) 0).proto = .tcp := by
  refine ⟨by decide, ((parseProtocolHostPort_accepts true (.zero 0x100) 0 (by decide)).1 .tcp
    (by decide)).2 ⟨ascii "h", ascii "80", ?_⟩⟩
  exact ⟨by decide, by decide, by decide, by decide⟩

/-! ## Texts without a number -/

/-- The grammar of an endpoint: a host that fits the buffer, and a port of at most 65535, written in
decimal digits. -/
structure IsEndpoint (input : List UInt8) (hostSize : ℕ) (proto : Proto) (host port : List UInt8) :
    Prop extends IsUri input proto host port where
  host_lt : host.length < hostSize
  port_ne : port ≠ []
  digits : ∀ d ∈ port, d ∈ digit
  port_le : decimal port ≤ 65535

/-- Exactly the endpoints of the grammar are accepted, and stored; of any other text nothing is. -/
structure ExactGrammar {hostSize : ℕ} (aligned : Bool) (input : List UInt8)
    (hostOut : Bytes hostSize) (portOut : UInt16) : Prop where
  accepts : ∀ p, p ≠ .none → ((parseProtocolHostPort aligned input hostOut portOut).proto = p ↔
    ∃ host port, IsEndpoint input hostSize p host port)
  stores : ∀ p host port, IsEndpoint input hostSize p host port →
    (parseProtocolHostPort aligned input hostOut portOut).hostOut = hostOut.write (host ++ [0]) ∧
      (parseProtocolHostPort aligned input hostOut portOut).portOut.toNat = decimal port
  refuses : (parseProtocolHostPort aligned input hostOut portOut).proto = .none →
    parseProtocolHostPort aligned input hostOut portOut = ⟨.none, hostOut, portOut⟩

/-- `TCP/h:x` is accepted. -/
theorem not_exactGrammar : ¬ ∀ (hostSize : ℕ) (aligned : Bool) (input : List UInt8)
    (hostOut : Bytes hostSize) (portOut : UInt16), 1 ≤ hostSize →
      ExactGrammar aligned input hostOut portOut := by
  intro h
  have haccepts := (h 0x100 true (ascii "TCP/h:x") (.zero 0x100) 0 (by decide)).accepts .tcp
    (by decide)
  obtain ⟨host, port, he⟩ := haccepts.1 (by decide +kernel)
  -- the last byte of a port is a digit, and that of the text is none
  rcases List.eq_nil_or_concat port with rfl | ⟨ds, d, rfl⟩
  · exact he.port_ne rfl
  · have hlast := congrArg List.getLast? he.text
    rw [List.concat_eq_append, ← List.cons_append, ← List.append_assoc, ← List.append_assoc,
      List.getLast?_concat] at hlast
    have htext : (cstr (ascii "TCP/h:x")).getLast? = some 0x78 := by decide
    obtain rfl : 0x78 = d := Option.some.inj (htext.symm.trans hlast)
    exact absurd (he.digits 0x78 (by simp)) (by decide)

end DmmrOrbit
