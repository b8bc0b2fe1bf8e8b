import DmmrOrbit.Lib.ByteMemory
import DmmrOrbit.Log.RbLog

/-!
# A line of the log in memory

`rb_log_push` builds its line with a pointer `p` into the slot at `write_pos`, which stops at `end`,
the last byte of the slot, and the number of the line from the back in the 16 bytes of `num`.  Here
the slots and `num` lie in memory, and the pointers are addresses.

`LineCursor.Holds` is what ties a cursor to the text written so far, and `NumberAt` a pointer into
`num` to its digits; every copy of the source keeps the one or the other.  `pushLine_spec` says what
is left of a line, and `pushLine_refines` that the slots are then those of `RbLogBuffer.push`.
-/

set_option autoImplicit false

open ByteMemory

namespace DmmrOrbit

/-! ## The text of a line -/

/-- The bytes of a decimal numeral. -/
def decimalText (n : ℤ) : List UInt8 := (toString n).toList.map fun c ↦ .ofNat c.toNat

/-- What `rb_log_push` is to write, if there is room for it. -/
def LogCall.fullText (c : LogCall) : List UInt8 :=
  cstr c.func ++ [0x20, 0x28] ++ decimalText c.line ++ [0x29, 0x20] ++ cstr c.msg

theorem take_take_append {α : Type} (n : ℕ) (a b : List α) :
    (a.take n ++ b).take n = (a ++ b).take n := by
  rw [List.take_append, List.take_append, List.take_take, Nat.min_self, List.length_take]
  congr 2
  omega

theorem putChar_eq {p : List UInt8} (h : p.length ≤ 511) (c : UInt8) :
    putChar p c = (p ++ [c]).take 511 := by
  rw [putChar]
  split
  · next hlt =>
    rw [List.take_of_length_le]
    simp
    omega
  · rw [List.take_append_of_le_length (by omega), List.take_of_length_le h]

/-- A guarded copy cuts the text off where the slot ends. -/
theorem putString_eq {p : List UInt8} (h : p.length ≤ 511) (s : List UInt8) :
    putString p s = (p ++ cstr s).take 511 := by
  induction s generalizing p with
  | nil => rw [putString, cstr, List.takeWhile_nil, List.append_nil, List.take_of_length_le h]
  | cons c s ih =>
    rw [putString]
    split
    · next hc =>
      have hcstr : cstr (c :: s) = c :: cstr s :=
        List.takeWhile_cons_of_pos (decide_eq_true hc.1)
      rw [ih (by rw [List.length_append, List.length_singleton]; omega), hcstr, List.append_assoc,
        List.singleton_append]
    · next hc =>
      by_cases hzero : c = 0
      · have hcstr : cstr (c :: s) = [] := List.takeWhile_cons_of_neg (by simp [hzero])
        rw [hcstr, List.append_nil, List.take_of_length_le h]
      · rw [List.take_append_of_le_length (by simp [hzero] at hc; omega),
          List.take_of_length_le h]

/-! ## The number -/

/-- The digits of a number, the last one apart. -/
theorem map_toDigits_eq (n : ℕ) : ((Nat.toDigits 10 n).map fun c ↦ UInt8.ofNat c.toNat) =
    (if 0 < n / 10 then (Nat.toDigits 10 (n / 10)).map fun c ↦ UInt8.ofNat c.toNat else []) ++
      [.ofNat (0x30 + n % 10)] := by
  rw [Nat.toDigits_eq_if (by decide)]
  split
  · next h =>
    rw [if_neg (by omega), Nat.mod_eq_of_lt h, List.map_singleton,
      Nat.toNat_digitChar_of_lt_ten h]
    rfl
  · next h =>
    rw [if_pos (by omega), List.map_append, List.map_singleton,
      Nat.toNat_digitChar_of_lt_ten (Nat.mod_lt n (by decide))]

/-- The digits of the source are those of the number. -/
theorem putDigits_eq {k n : ℕ} (h : n < 10 ^ (k + 1)) (num : List UInt8) :
    putDigits (k + 1) n num =
      ((Nat.toDigits 10 n).map fun c ↦ UInt8.ofNat c.toNat) ++ num := by
  induction k generalizing n num with
  | zero =>
    rw [putDigits, map_toDigits_eq]
    rw [if_neg (by omega), if_neg (by omega)]
    rfl
  | succ k ih =>
    rw [putDigits, map_toDigits_eq]
    split
    · next hpos =>
      rw [Nat.pow_succ] at h
      rw [ih (by omega), List.append_assoc]
      rfl
    · rfl

theorem lineNumber_eq {line : ℤ} (h : line.natAbs < 10 ^ 10) :
    lineNumber line = decimalText line := by
  rw [lineNumber, putDigits_eq h, List.append_nil, decimalText]
  cases line with
  | ofNat n =>
    rw [if_neg (by simp)]
    show _ = (Nat.repr n).toList.map _
    rw [Nat.toList_repr]
    rfl
  | negSucc n =>
    rw [if_pos (Int.negSucc_lt_zero n)]
    show _ = ("-" ++ Nat.repr (n + 1)).toList.map _
    rw [String.toList_append, Nat.toList_repr, List.map_append]
    rfl

theorem putDigits_ne_nul {k n : ℕ} {num : List UInt8} (h : ∀ b ∈ num, b ≠ 0) :
    ∀ b ∈ putDigits k n num, b ≠ 0 := by
  induction k generalizing n num with
  | zero => exact h
  | succ k ih =>
    have hdigit : UInt8.ofNat (0x30 + n % 10) ≠ 0 := by
      intro hzero
      have hnat := congrArg UInt8.toNat hzero
      rw [UInt8.toNat_ofNat', UInt8.toNat_zero] at hnat
      omega
    have hcons : ∀ b ∈ UInt8.ofNat (0x30 + n % 10) :: num, b ≠ 0 :=
      List.forall_mem_cons.2 ⟨hdigit, h⟩
    rw [putDigits]
    split
    · exact ih hcons
    · exact hcons

theorem lineNumber_ne_nul (line : ℤ) : ∀ b ∈ lineNumber line, b ≠ 0 := by
  have hdigits : ∀ b ∈ putDigits 10 line.natAbs [], b ≠ 0 := putDigits_ne_nul (by simp)
  rw [lineNumber]
  split
  · exact List.forall_mem_cons.2 ⟨by decide, hdigits⟩
  · exact hdigits

/-- **The text of a line** is what there is room for of the function, the number in brackets and the
message. -/
theorem LogCall.text_eq (c : LogCall) (h : c.line.natAbs < 10 ^ 10) :
    c.text = c.fullText.take 511 := by
  have hlen (l : List UInt8) : (l.take 511).length ≤ 511 := by
    rw [List.length_take]
    exact Nat.min_le_left _ _
  rw [text, putString_eq (p := []) (Nat.zero_le _), putChar_eq (hlen _), putChar_eq (hlen _),
    putString_eq (hlen _), putChar_eq (hlen _), putChar_eq (hlen _), putString_eq (hlen _)]
  simp only [take_take_append]
  rw [cstr_of_ne_nul (lineNumber_ne_nul c.line), lineNumber_eq h, fullText]
  simp only [List.nil_append, List.append_assoc, List.cons_append]

/-! ## Pointers -/

/-- The slot being written: the memory and `p`. -/
structure LineCursor where
  mem : Memory
  p : ℕ

/-- `*p++ = c`. -/
def LineCursor.put (s : LineCursor) (c : UInt8) : LineCursor :=
  ⟨Function.update s.mem s.p c, s.p + 1⟩

/-- `if (p < end) *p++ = c`. -/
def LineCursor.putChar (last : ℕ) (s : LineCursor) (c : UInt8) : LineCursor :=
  if s.p < last then s.put c else s

/-- `while (*s && p < end) *p++ = *s++`. -/
def LineCursor.putString (last : ℕ) : LineCursor → List UInt8 → LineCursor
  | s, [] => s
  | s, c :: str => if c ≠ 0 ∧ s.p < last then putString last (s.put c) str else s

/-- `*--num_ptr = c`. -/
def putFront (num : Memory × ℕ) (c : UInt8) : Memory × ℕ :=
  (Function.update num.1 (num.2 - 1) c, num.2 - 1)

/-- The `do … while (abs_line > 0)`. -/
def writeDigits (absLine : ℕ) (num : Memory × ℕ) : Memory × ℕ :=
  let num := putFront num (.ofNat (0x30 + absLine % 10))
  if 0 < absLine / 10 then writeDigits (absLine / 10) num else num
termination_by absLine
decreasing_by omega

/-- The number of the line in `num`, and `num_ptr`. -/
def writeNumber (num : Memory) (numAddr : ℕ) (line : ℤ) : Memory × ℕ :=
  let numPtr := numAddr + 16 - 1
  let num := writeDigits line.natAbs (Function.update num numPtr 0, numPtr)
  if line < 0 then putFront num 0x2d else num

/-- The copies to the slot at `buf`, with what `num` and `num_ptr` have come to be. -/
def putLine (m : Memory) (buf : ℕ) (number : Memory × ℕ) (numAddr : ℕ) (c : LogCall) : LineCursor :=
  let last := buf + 0x200 - 1
  let s := LineCursor.putString last ⟨m, buf⟩ c.func
  let s := s.putChar last 0x20
  let s := s.putChar last 0x28
  let s := s.putString last (load number.1 number.2 (numAddr + 16 - number.2))
  let s := s.putChar last 0x29
  let s := s.putChar last 0x20
  s.putString last c.msg

/-- The part of `rb_log_push` that writes a line: `buf` is the address of the slot, and `num` the
memory of the stack with the array of that name at `numAddr`. -/
def pushLine (m : Memory) (buf : ℕ) (num : Memory) (numAddr : ℕ) (c : LogCall) :
    Memory × Memory :=
  let number := writeNumber num numAddr c.line
  let s := putLine m buf number numAddr c
  (Function.update s.mem s.p 0, number.1)

/-! ## What the pointers hold -/

/-- The text `l` has been written from `buf` on, within the slot, and nothing else. -/
structure LineCursor.Holds (m : Memory) (buf : ℕ) (s : LineCursor) (l : List UInt8) : Prop where
  p_eq : s.p = buf + l.length
  length_le : l.length ≤ 511
  written : load s.mem buf l.length = l
  frame : ∀ a, a < buf ∨ s.p ≤ a → s.mem a = m a

namespace LineCursor.Holds

variable {m : Memory} {buf : ℕ} {s : LineCursor} {l : List UInt8}

theorem put (h : s.Holds m buf l) (hroom : l.length < 511) (c : UInt8) :
    (s.put c).Holds m buf (l ++ [c]) where
  p_eq := by
    rw [List.length_append, List.length_singleton, ← Nat.add_assoc, ← h.p_eq]
    rfl
  length_le := by rwa [List.length_append, List.length_singleton]
  written := by
    rw [List.length_append, List.length_singleton, LineCursor.put, h.p_eq,
      load_update_last, h.written]
  frame a ha := by
    have hp : (s.put c).p = s.p + 1 := rfl
    have hle := h.p_eq
    rw [hp] at ha
    show Function.update s.mem s.p c a = m a
    rw [Function.update_of_ne (by omega), h.frame a (by omega)]

/-- There is room for a character as long as `p` is in front of the last byte. -/
theorem lt_last_iff (h : s.Holds m buf l) : s.p < buf + 0x200 - 1 ↔ l.length < 511 := by
  rw [h.p_eq]
  omega

theorem putChar (h : s.Holds m buf l) (c : UInt8) :
    (s.putChar (buf + 0x200 - 1) c).Holds m buf (DmmrOrbit.putChar l c) := by
  rw [LineCursor.putChar, DmmrOrbit.putChar]
  simp only [h.lt_last_iff]
  split
  · next hroom => exact h.put hroom c
  · exact h

theorem putString (h : s.Holds m buf l) (str : List UInt8) :
    (s.putString (buf + 0x200 - 1) str).Holds m buf (DmmrOrbit.putString l str) := by
  induction str generalizing s l with
  | nil => exact h
  | cons c str ih =>
    rw [LineCursor.putString, DmmrOrbit.putString]
    simp only [h.lt_last_iff]
    split
    · next hc => exact ih (h.put hc.2 c)
    · exact h

end LineCursor.Holds

/-- `num_ptr` points at the digits `l`, which end with the array, and nothing but the array has been
written. -/
structure NumberAt (m : Memory) (numAddr : ℕ) (num : Memory × ℕ) (l : List UInt8) : Prop where
  numPtr_eq : num.2 + l.length + 1 = numAddr + 16
  written : load num.1 num.2 (l.length + 1) = l ++ [0]
  frame : ∀ a, a < numAddr ∨ numAddr + 16 ≤ a → num.1 a = m a

namespace NumberAt

variable {m : Memory} {numAddr : ℕ} {num : Memory × ℕ} {l : List UInt8}

/-- One more character goes in front as long as there are fewer than 15. -/
theorem putFront (h : NumberAt m numAddr num l) (hroom : l.length < 15) (c : UInt8) :
    NumberAt m numAddr (DmmrOrbit.putFront num c) (c :: l) := by
  have hptr := h.numPtr_eq
  have hback : num.2 - 1 + 1 = num.2 := by omega
  refine ⟨?_, ?_, fun a ha ↦ ?_⟩
  · show num.2 - 1 + (l.length + 1) + 1 = numAddr + 16
    omega
  · show load (Function.update num.1 (num.2 - 1) c) (num.2 - 1) (l.length + 1 + 1) = c :: l ++ [0]
    rw [load_update_first, hback, h.written]
    rfl
  · show Function.update num.1 (num.2 - 1) c a = m a
    rw [Function.update_of_ne (by omega), h.frame a ha]

theorem writeDigits (h : NumberAt m numAddr num l) {k n : ℕ} (hn : n < 10 ^ (k + 1))
    (hroom : l.length + k < 15) :
    NumberAt m numAddr (DmmrOrbit.writeDigits n num) (putDigits (k + 1) n l) := by
  induction k generalizing n num l with
  | zero =>
    rw [DmmrOrbit.writeDigits, putDigits, if_neg (by omega), if_neg (by omega)]
    exact h.putFront hroom _
  | succ k ih =>
    have hfront := h.putFront (by omega) (.ofNat (0x30 + n % 10))
    rw [DmmrOrbit.writeDigits, putDigits]
    split
    · next hpos =>
      rw [Nat.pow_succ] at hn
      exact ih hfront (by omega) (by rw [List.length_cons]; omega)
    · exact hfront

end NumberAt

theorem length_putDigits_le (k n : ℕ) (num : List UInt8) :
    (putDigits k n num).length ≤ k + num.length := by
  induction k generalizing n num with
  | zero => rw [putDigits, Nat.zero_add]
  | succ k ih =>
    rw [putDigits]
    split
    · refine (ih _ _).trans ?_
      rw [List.length_cons]
      omega
    · rw [List.length_cons]
      omega

/-- **The number is built inside `num`**: it takes 12 of the 16 bytes at most. -/
theorem writeNumber_numberAt (m : Memory) (numAddr : ℕ) {line : ℤ} (h : line.natAbs < 10 ^ 10) :
    NumberAt m numAddr (writeNumber m numAddr line) (lineNumber line) := by
  have hstart :
      NumberAt m numAddr (Function.update m (numAddr + 16 - 1) 0, numAddr + 16 - 1) [] := by
    refine ⟨rfl, ?_, fun a ha ↦ Function.update_of_ne (by omega) _ _⟩
    simp [load]
  have hdigits := hstart.writeDigits h (by decide)
  have hlen : (putDigits (9 + 1) line.natAbs []).length ≤ 10 :=
    length_putDigits_le 10 line.natAbs []
  rw [writeNumber, lineNumber]
  split
  · exact hdigits.putFront (by omega) 0x2d
  · exact hdigits

/-! ## A line -/

/-- The line with the text is in the slot at `buf`, with its NUL, and nothing else has been
written. -/
structure LineWritten (m : Memory) (buf : ℕ) (text : List UInt8) (m' : Memory) : Prop where
  written : load m' buf (text.length + 1) = text ++ [0]
  frame : ∀ a, a < buf ∨ buf + text.length + 1 ≤ a → m' a = m a

/-- What a region that begins with the line then has. -/
theorem LineWritten.load_eq {m m' : Memory} {buf n : ℕ} {text : List UInt8}
    (h : LineWritten m buf text m') (hn : text.length + 1 ≤ n) :
    load m' buf n = overlay (text ++ [0]) (load m buf n) := by
  obtain ⟨k, rfl⟩ := Nat.exists_eq_add_of_le hn
  have hrest : load m' (buf + (text.length + 1)) k = load m (buf + (text.length + 1)) k :=
    load_congr fun i _ ↦ h.frame _ (.inr (by omega))
  rw [load_append m' buf (text.length + 1), load_append m buf (text.length + 1), h.written, overlay,
    List.drop_left' (by simp), hrest]

/-- The copies put the text of the model of the buffer together. -/
theorem putLine_holds (m : Memory) (buf : ℕ) {num : Memory} {numAddr : ℕ} {number : Memory × ℕ}
    {c : LogCall} (h : NumberAt num numAddr number (lineNumber c.line)) :
    (putLine m buf number numAddr c).Holds m buf c.text := by
  have hstart : LineCursor.Holds m buf ⟨m, buf⟩ [] := ⟨rfl, by decide, rfl, fun _ _ ↦ rfl⟩
  have hfunc := ((hstart.putString c.func).putChar 0x20).putChar 0x28
  have hload : load number.1 number.2 (numAddr + 16 - number.2) = lineNumber c.line ++ [0] := by
    have hptr := h.numPtr_eq
    rw [← h.written]
    congr 1
    omega
  -- the digits are followed by their NUL, at which the copy stops
  have hstop (p : List UInt8) (hp : p.length ≤ 511) :
      putString p (lineNumber c.line ++ [0]) = putString p (lineNumber c.line) := by
    rw [putString_eq hp, putString_eq hp, cstr_append_nul (lineNumber_ne_nul c.line),
      cstr_of_ne_nul (lineNumber_ne_nul c.line)]
  have hnumber := hfunc.putString (lineNumber c.line ++ [0])
  rw [hstop _ hfunc.length_le, ← hload] at hnumber
  exact ((hnumber.putChar 0x29).putChar 0x20).putString c.msg

/-- The pointers write the line that the model of the buffer has. -/
theorem pushLine_written (m : Memory) (buf : ℕ) (num : Memory) (numAddr : ℕ) {c : LogCall}
    (h : c.line.natAbs < 10 ^ 10) :
    LineWritten m buf c.text (pushLine m buf num numAddr c).1 := by
  have htext := putLine_holds m buf (writeNumber_numberAt num numAddr h)
  have hp := htext.p_eq
  rw [pushLine]
  refine ⟨?_, fun a ha ↦ ?_⟩
  · rw [hp, load_update_last, htext.written]
  · exact (Function.update_of_ne (by omega) _ _).trans (htext.frame a (by omega))

/-- What is promised of a line: outside the slot at `slot` and the array at `numAddr` nothing is
written, and the slot begins with the first 511 bytes of the line, or all of them, and a NUL. -/
structure LinePushed (m : Memory) (slot : ℕ) (num : Memory) (numAddr : ℕ) (c : LogCall)
    (out : Memory × Memory) : Prop where
  inSlot : ∀ a, a < slot ∨ slot + 0x200 ≤ a → out.1 a = m a
  text : load out.1 slot (min c.fullText.length 511 + 1) = c.fullText.take 511 ++ [0]
  inNum : ∀ a, a < numAddr ∨ numAddr + 16 ≤ a → out.2 a = num a

/-- **A line of the log.**  For every function, message and number of a line but `INT_MIN`. -/
theorem pushLine_spec (m : Memory) (queue : ℕ) (writePos : Fin 256) (num : Memory) (numAddr : ℕ)
    (c : LogCall) (h : -2 ^ 31 < c.line ∧ c.line < 2 ^ 31) :
    LinePushed m (queue + 0x200 * writePos) num numAddr c
      (pushLine m (queue + 0x200 * writePos) num numAddr c) := by
  have hline : c.line.natAbs < 10 ^ 10 := by omega
  have hwritten := pushLine_written m (queue + 0x200 * writePos) num numAddr hline
  have hlen : c.text.length = min c.fullText.length 511 := by
    rw [c.text_eq hline, List.length_take, Nat.min_comm]
  refine ⟨fun a ha ↦ hwritten.frame a (by omega), ?_, fun a ha ↦ ?_⟩
  · rw [← hlen, hwritten.written, c.text_eq hline]
  · exact (writeNumber_numberAt num numAddr hline).frame a ha

/-- A message that is cut off in the slot 3. -/
theorem pushLine_spec_slot_three : LinePushed (fun _ ↦ 0) (0x1000 + 0x200 * 3) (fun _ ↦ 0) 0x40
    ⟨List.replicate 600 0x61, [0x66], -12⟩
    (pushLine (fun _ ↦ 0) (0x1000 + 0x200 * 3) (fun _ ↦ 0) 0x40
      ⟨List.replicate 600 0x61, [0x66], -12⟩) :=
  pushLine_spec (fun _ ↦ 0) 0x1000 3 (fun _ ↦ 0) 0x40 ⟨List.replicate 600 0x61, [0x66], -12⟩
    ⟨by decide, by decide⟩

/-! ## The slots -/

/-- The slots of the buffer lie in memory, one behind the other. -/
def RbLogBuffer.InMemory (b : RbLogBuffer) (m : Memory) (queue : ℕ) : Prop :=
  ∀ i : Fin 256, load m (queue + 0x200 * i) 0x200 = (b.queue i).toList

/-- **The model of the buffer** is what the pointers make of the memory. -/
theorem pushLine_refines {b : RbLogBuffer} {m : Memory} {queue : ℕ} (hb : b.InMemory m queue)
    (num : Memory) (numAddr : ℕ) {c : LogCall} (h : c.line.natAbs < 10 ^ 10) :
    (b.push c).InMemory (pushLine m (queue + 0x200 * b.writePos) num numAddr c).1 queue := by
  have hline := pushLine_written m (queue + 0x200 * b.writePos) num numAddr h
  have hlen := c.isLine_text.1
  intro i
  rw [RbLogBuffer.push]
  by_cases hi : i = b.writePos
  · subst hi
    have hnew : (overlay (c.text ++ [0]) (b.queue b.writePos).toList).length = 0x200 := by
      rw [length_overlay (by simp [Bytes.length_eq]; omega), Bytes.length_eq]
    dsimp only
    rw [Function.update_self, hline.load_eq hlen, hb b.writePos]
    exact (List.take_of_length_le hnew.le).symm
  · dsimp only
    rw [Function.update_of_ne hi, ← hb i]
    have hne : (i : ℕ) ≠ b.writePos := fun heq ↦ hi (Fin.ext heq)
    exact load_congr fun j hj ↦ hline.frame _ (by omega)

end DmmrOrbit
