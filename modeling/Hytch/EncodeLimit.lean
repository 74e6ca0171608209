import Hytch.FrameStream

/-!
What `encode` puts on the wire beyond the two limits it does not look at: the
receiver's `max_frame_len`, and the 32 bits to which `write_header` narrows the
payload length.
-/

namespace Hytch.EncodeLimit

open MessageCodec FrameStream

/-- Success is decodable by a codec of the same limit, failure leaves `dst` alone. -/
def EncodesDecodably (codec : MessageCodec) (msg : Message) (dst : List UInt8) : Prop :=
  match encode codec msg dst with
  | (.ok (), after) =>
      ∃ appended, after = dst ++ appended ∧ decode codec appended = (.ok (some msg), [])
  | (.error _, after) => after = dst

theorem encodes_decodably_iff_frame (codec : MessageCodec) (msg : Message) (dst : List UInt8) :
    EncodesDecodably codec msg dst ↔
      decode codec (frame codec msg) = (.ok (some msg), []) := by
  rw [EncodesDecodably, encode_appends]
  constructor
  · rintro ⟨appended, bytes, decoded⟩
    rw [List.append_cancel_left bytes]
    exact decoded
  · intro decoded
    exact ⟨frame codec msg, rfl, decoded⟩

theorem be_bytes_wrap (len : Nat) :
    u32FromBeBytes (UInt8.ofNat ((UInt32.ofNat len).toNat / 2 ^ 24))
      (UInt8.ofNat ((UInt32.ofNat len).toNat / 2 ^ 16))
      (UInt8.ofNat ((UInt32.ofNat len).toNat / 2 ^ 8)) (UInt8.ofNat (UInt32.ofNat len).toNat) =
      len % 2 ^ 32 := by
  have small := be_bytes_round_trip (len % 2 ^ 32) (Nat.mod_lt _ (by decide))
  have narrowed : UInt32.ofNat (len % 2 ^ 32) = UInt32.ofNat len := UInt32.ofNat_mod_size
  rwa [narrowed] at small

theorem frame_header (codec : MessageCodec) (msg : Message) :
    ∃ b0 b1 b2 b3, frame codec msg = wireType msg :: b0 :: b1 :: b2 :: b3 :: wirePayload msg ∧
      u32FromBeBytes b0 b1 b2 b3 = payloadLength msg % 2 ^ 32 := by
  refine ⟨_, _, _, _, ?_, be_bytes_wrap (payloadLength msg)⟩
  rw [frame_shape]
  simp only [writeHeader, putU8, putU32, List.nil_append, List.cons_append]

theorem wrapped_push_leaves_bytes (codec : MessageCodec) (payload : List UInt8)
    (admitted : payload.length % 2 ^ 32 ≤ codec.maxFrameLen) :
    decode codec (frame codec (.push payload)) =
      (.ok (some (.push (payload.take (payload.length % 2 ^ 32)))),
        payload.drop (payload.length % 2 ^ 32)) := by
  obtain ⟨b0, b1, b2, b3, shape, announced⟩ := frame_header codec (.push payload)
  have wrapped : u32FromBeBytes b0 b1 b2 b3 = payload.length % 2 ^ 32 := announced
  have enough : payload.length % 2 ^ 32 ≤ payload.length := Nat.mod_le _ _
  rw [shape, decode_header, wrapped, if_neg (by omega),
    if_neg (by change ¬ payload.length < _; omega)]
  rfl

theorem oversized_frame_refused (codec : MessageCodec) (msg : Message)
    (exceeds : codec.maxFrameLen < payloadLength msg % 2 ^ 32) :
    ∃ fault, decode codec (frame codec msg) = (.error fault, frame codec msg) := by
  obtain ⟨b0, b1, b2, b3, shape, announced⟩ := frame_header codec msg
  rw [shape, decode_header, announced, if_pos exceeds]
  exact ⟨_, rfl⟩

theorem decoded_frame_within_limits (codec : MessageCodec) (msg : Message)
    (decoded : decode codec (frame codec msg) = (.ok (some msg), [])) :
    payloadLength msg ≤ codec.maxFrameLen ∧ payloadLength msg < 2 ^ 32 := by
  obtain ⟨ty, b0, b1, b2, b3, payload, bytes, announced, admitted, -⟩ :=
    decode_item_inversion codec _ [] msg decoded
  obtain ⟨c0, c1, c2, c3, shape, wrapped⟩ := frame_header codec msg
  rw [shape, List.append_nil] at bytes
  obtain ⟨rfl, rfl, rfl, rfl, rfl, rfl⟩ : wireType msg = ty ∧ c0 = b0 ∧ c1 = b1 ∧ c2 = b2 ∧
      c3 = b3 ∧ wirePayload msg = payload := by
    simpa only [List.cons.injEq] using bytes
  rw [wire_payload_length] at announced admitted
  have bound : payloadLength msg % 2 ^ 32 < 2 ^ 32 := Nat.mod_lt _ (by decide)
  omega

/-- What `encode` writes is decodable exactly within both limits. -/
theorem encodes_decodably_iff (codec : MessageCodec) (msg : Message) (dst : List UInt8) :
    EncodesDecodably codec msg dst ↔
      payloadLength msg ≤ codec.maxFrameLen ∧ payloadLength msg < 2 ^ 32 := by
  rw [encodes_decodably_iff_frame]
  constructor
  · exact decoded_frame_within_limits codec msg
  · rintro ⟨admitted, fits⟩
    have decoded := decode_frame codec msg [] admitted fits
    rwa [List.append_nil] at decoded

/-- A kill frame in front of enough zeros to make the length wrap to nothing. -/
def smuggledKill : List UInt8 := [5, 0, 0, 0, 1, 9] ++ List.replicate (2 ^ 32 - 6) 0

/-- A push one byte above the default limit is encoded and then refused. The one
whose length wraps is read back as an empty push, and its first six payload
bytes as a kill. -/
theorem smuggled_kill_decoded :
    ¬ EncodesDecodably default (.push (List.replicate 65537 0)) [] ∧
      ¬ EncodesDecodably default (.push smuggledKill) [] ∧
      decode default (frame default (.push smuggledKill)) =
        (.ok (some (.push [])), smuggledKill) ∧
      decode default smuggledKill = (.ok (some (.kill 9)), List.replicate (2 ^ 32 - 6) 0) := by
  have wraps : smuggledKill.length = 2 ^ 32 := by
    rw [smuggledKill, List.length_append, List.length_replicate]
    decide
  have first := wrapped_push_leaves_bytes default smuggledKill (by rw [wraps]; decide)
  rw [wraps, Nat.mod_self, List.take_zero, List.drop_zero] at first
  refine ⟨fun encodes => ?_, fun encodes => ?_, first, ?_⟩
  · have within := decoded_frame_within_limits default (.push (List.replicate 65537 0))
      ((encodes_decodably_iff_frame default _ []).mp encodes)
    have length : payloadLength (.push (List.replicate 65537 0)) = 65537 :=
      List.length_replicate
    have limit : (default : MessageCodec).maxFrameLen = 65536 := rfl
    omega
  · have within := decoded_frame_within_limits default (.push smuggledKill)
      ((encodes_decodably_iff_frame default _ []).mp encodes)
    have length : payloadLength (.push smuggledKill) = 2 ^ 32 := wraps
    omega
  · exact decode_complete default 5 0 0 0 1 [9] _ rfl (by decide)

end Hytch.EncodeLimit
