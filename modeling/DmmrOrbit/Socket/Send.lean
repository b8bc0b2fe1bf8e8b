import DmmrOrbit.Socket.Net

/-!
# Sending nodes

`tcp_send_to_client`, `udp_send_to_client` and the `dispatcher` in front of them.  The two senders
fill an array of `VALUE_OUTPUT_SIZE` `iovec`s, so they hand over the first six nodes at most; what
is observable here of `writev` and `sendmsg` is how many of those bytes the socket accepted.  Both
report a failure through their return value, and the dispatcher throws it away.
-/

set_option autoImplicit false

namespace DmmrOrbit

/-- What `writev` or `sendmsg` returned: a number of bytes, or `-1`. -/
inductive SendResult
  | sent (bytes : ℕ)
  | error (errno : Errno)
  deriving DecidableEq, Repr

/-- The bytes the socket accepted; no more than it was given, so a larger number means all. -/
def SendResult.accepted : SendResult → ℕ
  | sent bytes => bytes
  | error _ => 0

/-- `sent == EOF` with an `errno` other than `EAGAIN` and `EINTR` gives `EOF`. -/
def SendResult.ret : SendResult → Int
  | sent _ => 0
  | error errno => if errno.temporary then 0 else -1

/-- The `iovec`s over the first `siz` nodes. -/
def iovs (n : List Node) (siz : ℕ) : List (List UInt8) := (n.take siz).map Node.payload

/-- What the two senders share: the return value and the bytes the socket accepted. -/
def sendToClient (n : List Node) (nLen : ℕ) (r : SendResult) : Int × List UInt8 :=
  if nLen = 0 then (-1, [])
  else
    let siz := if nLen > 6 then 6 else nLen
    (r.ret, (iovs n siz).flatten.take r.accepted)

/-- `tcp_send_to_client`. -/
def tcpSendToClient (n : List Node) (nLen : ℕ) (r : SendResult) : Int × List UInt8 :=
  sendToClient n nLen r

/-- `udp_send_to_client`. -/
def udpSendToClient (n : List Node) (nLen : ℕ) (r : SendResult) : Int × List UInt8 :=
  sendToClient n nLen r

/-- `dispatcher`: the bytes the socket accepted. -/
def dispatcher (u : Option ProtocolBaseCb) (n : List Node) (nl : ℕ) (r : SendResult) :
    List UInt8 :=
  match u with
  | none => []
  | some u =>
    if nl = 0 then []
    else
      match u.proto with
      | .udp => (udpSendToClient n nl r).2
      | .tcp => (tcpSendToClient n nl r).2
      | .none => []

/-! ## What is sent of a batch -/

/-- The part of the batch `b` that a sender hands over. -/
def transmitted (b : List Node) (r : SendResult) : List UInt8 :=
  ((b.take 6).flatMap Node.payload).take r.accepted

theorem dispatcher_eq_transmitted {u : ProtocolBaseCb} (hu : u.proto ≠ .none) (b : List Node)
    (r : SendResult) : dispatcher (some u) b b.length r = transmitted b r := by
  have hsend : (sendToClient b b.length r).2 = transmitted b r := by
    rw [sendToClient, transmitted]
    split
    · next h => simp [List.length_eq_zero_iff.1 h]
    · have htake : b.take (if b.length > 6 then 6 else b.length) = b.take 6 := by
        split
        · rfl
        · rw [List.take_length, List.take_of_length_le (by omega)]
      simp only [iovs, htake, List.flatMap_def]
  cases hp : u.proto with
  | none => exact absurd hp hu
  | udp =>
    simp only [dispatcher, hp, udpSendToClient, hsend]
    split
    · next h => simp [transmitted, List.length_eq_zero_iff.1 h]
    · rfl
  | tcp =>
    simp only [dispatcher, hp, tcpSendToClient, hsend]
    split
    · next h => simp [transmitted, List.length_eq_zero_iff.1 h]
    · rfl

/-- The socket takes all it is given of the batch, and the nodes past the sixth are empty. -/
def Covered (b : List Node) (r : SendResult) : Prop :=
  ((b.take 6).flatMap Node.payload).length ≤ r.accepted ∧ ∀ n ∈ b.drop 6, n.valueSize = 0

/-- A batch goes out whole exactly when it is covered. -/
theorem transmitted_eq_iff (b : List Node) (r : SendResult) :
    transmitted b r = b.flatMap Node.payload ↔ Covered b r := by
  have hsplit : b.flatMap Node.payload =
      (b.take 6).flatMap Node.payload ++ (b.drop 6).flatMap Node.payload := by
    rw [← List.flatMap_append, List.take_append_drop]
  have hempty : (b.drop 6).flatMap Node.payload = [] ↔ ∀ n ∈ b.drop 6, n.valueSize = 0 := by
    rw [List.flatMap_eq_nil_iff]
    refine forall₂_congr fun n _ ↦ ?_
    rw [← List.length_eq_zero_iff, Node.length_payload, ← UInt32.toNat_inj]
    rfl
  rw [Covered, ← hempty, transmitted, hsplit]
  constructor
  · intro h
    have hlen := congrArg List.length h
    rw [List.length_take, List.length_append] at hlen
    exact ⟨by omega, List.length_eq_zero_iff.1 (by omega)⟩
  · rintro ⟨hle, hnil⟩
    rw [hnil, List.append_nil, List.take_of_length_le hle]

end DmmrOrbit
