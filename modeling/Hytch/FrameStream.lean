import Hytch.MessageCodec

/-!
Whole streams of frames through `FramedRead`. Encoding appends a header and a
payload; a complete admitted frame decodes to its message; the incremental
decoder then carries both facts over any chunking of the byte stream.
-/

namespace Hytch.FrameStream

open IncrementalDecoding MessageCodec

def wireType : Message → UInt8
  | .push _ => typePush
  | .attach _ => typeAttach
  | .detach => typeDetach
  | .winch _ _ => typeWinch
  | .redraw _ _ _ => typeRedraw
  | .kill _ => typeKill

def wirePayload : Message → List UInt8
  | .push data => data
  | .attach skipRing => [skipRing.toUInt8]
  | .detach => []
  | .winch rows cols => putU16 (putU16 [] rows) cols
  | .redraw method rows cols => putU16 (putU16 [method.toU8] rows) cols
  | .kill signal => [signal]

theorem wire_payload_length (msg : Message) : (wirePayload msg).length = payloadLength msg := by
  cases msg <;> rfl

theorem encode_appends (codec : MessageCodec) (msg : Message) (dst : List UInt8) :
    encode codec msg dst = (.ok (), dst ++ frame codec msg) := by
  cases msg <;> simp [encode, frame, writeHeader, putU32, putU16, putU8]

theorem frame_shape (codec : MessageCodec) (msg : Message) :
    frame codec msg = writeHeader [] (wireType msg) (payloadLength msg) ++ wirePayload msg := by
  cases msg <;> simp [frame, encode, writeHeader, wireType, wirePayload, payloadLength, putU16,
    putU32, putU8]

/-- The value read back from the two bytes `putU16` wrote. -/
def wireU16 (value : UInt16) : UInt16 := getU16 (putU16 [] value) 0

theorem wire_u16_exact (value : UInt16) : wireU16 value = value := u16_round_trip value

theorem decode_redraw (payload : List UInt8) (method : RedrawMethod)
    (known : RedrawMethod.fromU8 (getU8 payload 0) = some method) (five : payload.length = 5) :
    decodePayload typeRedraw payload =
      .ok (.redraw method (getU16 payload 1) (getU16 payload 3)) := by
  have not_push : typeRedraw ≠ typePush := by decide
  have not_attach : typeRedraw ≠ typeAttach := by decide
  have not_detach : typeRedraw ≠ typeDetach := by decide
  have not_winch : typeRedraw ≠ typeWinch := by decide
  rw [decodePayload, if_neg not_push, if_neg not_attach, if_neg not_detach, if_neg not_winch,
    if_pos rfl]
  simp only [requireLen, five, known]
  rfl

theorem decode_payload_exact (msg : Message) :
    decodePayload (wireType msg) (wirePayload msg) = .ok msg := by
  cases msg with
  | push data => rfl
  | attach skipRing =>
    change Except.ok (Message.attach (skipRing.toUInt8 != 0)) = _
    rw [attach_flag_round_trip]
  | detach => rfl
  | winch rows cols =>
    change Except.ok (Message.winch (wireU16 rows) (wireU16 cols)) = _
    rw [wire_u16_exact, wire_u16_exact]
  | redraw method rows cols =>
    have decoded := decode_redraw (wirePayload (.redraw method rows cols)) method
      (redraw_method_round_trip method) rfl
    change decodePayload typeRedraw _ = Except.ok (Message.redraw method (wireU16 rows) (wireU16 cols))
      at decoded
    rwa [wire_u16_exact, wire_u16_exact] at decoded
  | kill signal => rfl

theorem decode_frame (codec : MessageCodec) (msg : Message) (rest : List UInt8)
    (admitted : payloadLength msg ≤ codec.maxFrameLen) (fits : payloadLength msg < 2 ^ 32) :
    decode codec (frame codec msg ++ rest) = (.ok (some msg), rest) := by
  have header := be_bytes_round_trip (payloadLength msg) fits
  have length := wire_payload_length msg
  have complete := decode_complete codec (wireType msg) _ _ _ _ (wirePayload msg) rest
    (length.trans header.symm) (by omega)
  rw [decode_payload_exact] at complete
  rw [frame_shape]
  simp only [writeHeader, putU8, putU32, List.nil_append, List.cons_append]
  exact complete

theorem encode_all_appends (codec : MessageCodec) (messages : List Message) (dst : List UInt8) :
    encodeAll codec messages dst = (.ok (), dst ++ (messages.map (frame codec)).flatten) := by
  induction messages generalizing dst with
  | nil => simp [encodeAll]
  | cons msg rest ih =>
    rw [encodeAll, encode_appends]
    simp only [ih, List.map_cons, List.flatten_cons, List.append_assoc]

theorem drain_frames (codec : MessageCodec) (messages : List Message)
    (admitted : ∀ msg ∈ messages, payloadLength msg ≤ codec.maxFrameLen)
    (fits : ∀ msg ∈ messages, payloadLength msg < 2 ^ 32) :
    drain (decoder codec) (messages.map (frame codec)).flatten = ⟨messages, .ok []⟩ := by
  induction messages with
  | nil => exact drain_pending (decoder codec) [] [] (decode_nil codec)
  | cons msg rest ih =>
    -- the frames behind the first one are the bytes that follow it
    have head := decode_frame codec msg (rest.map (frame codec)).flatten
      (admitted msg List.mem_cons_self) (fits msg List.mem_cons_self)
    have tail := ih (fun m member => admitted m (List.mem_cons_of_mem msg member))
      (fun m member => fits m (List.mem_cons_of_mem msg member))
    rw [List.map_cons, List.flatten_cons, drain_item (decoder codec) _ _ msg head, tail]

/-- Any messages the limit admits, cut into any chunks, come back in order and
leave the buffer empty. -/
theorem stream_round_trip (codec : MessageCodec) (messages : List Message)
    (chunks : List (List UInt8))
    (admitted : ∀ msg ∈ messages, payloadLength msg ≤ codec.maxFrameLen)
    (fits : ∀ msg ∈ messages, payloadLength msg ≤ 2 ^ 32 - 1)
    (cut : encodeAll codec messages [] = (.ok (), chunks.flatten)) :
    feedAll (decoder codec) chunks = ⟨messages, .ok []⟩ := by
  have stream : chunks.flatten = (messages.map (frame codec)).flatten := by
    rw [encode_all_appends, List.nil_append] at cut
    exact (Prod.mk.inj cut).2.symm
  rw [feed_all_eq_drain (decoder codec) (decode_nil codec), stream]
  exact drain_frames codec messages admitted (fun msg member => by
    have := fits msg member
    omega)

/-- Two messages across three chunks: the cut is inside the second header. -/
theorem stream_round_trip_split_header :
    feedAll (decoder { maxFrameLen := 8 })
      [[0, 0, 0, 0, 2, 104, 105, 5, 0], [], [0, 0, 1, 15]] =
      ⟨[.push [104, 105], .kill 15], .ok []⟩ :=
  stream_round_trip { maxFrameLen := 8 } [.push [104, 105], .kill 15]
    [[0, 0, 0, 0, 2, 104, 105, 5, 0], [], [0, 0, 1, 15]] (by decide) (by decide) (by decide)

/-- Decoding sees only the bytes. The residue bound holds for every chunking,
hence after each chunk of one. -/
theorem decoding_ignores_chunking (codec : MessageCodec) (left right : List (List UInt8))
    (sameBytes : left.flatten = right.flatten) :
    feedAll (decoder codec) left = feedAll (decoder codec) right ∧
      ∀ residue, (feedAll (decoder codec) left).state = .ok residue →
        residue.length < headerLen + codec.maxFrameLen := by
  have leftDrain := feed_all_eq_drain (decoder codec) (decode_nil codec) left
  have rightDrain := feed_all_eq_drain (decoder codec) (decode_nil codec) right
  constructor
  · rw [leftDrain, rightDrain, sameBytes]
  · intro residue state
    rw [leftDrain] at state
    exact pending_bound codec residue residue
      (drain_residue_pending (decoder codec) left.flatten residue state)

/-- An oversized length is rejected at the header, whether or not its payload
has arrived in the same chunk. -/
theorem decoding_ignores_chunking_oversized :
    feedAll (decoder { maxFrameLen := 1 }) [[2, 0, 0, 0, 0, 0, 0], [0, 0, 9, 7]] =
        feedAll (decoder { maxFrameLen := 1 }) [[2, 0, 0, 0, 0], [0, 0, 0, 0, 9], [7]] ∧
      ∀ residue, (feedAll (decoder { maxFrameLen := 1 })
          [[2, 0, 0, 0, 0, 0, 0], [0, 0, 9, 7]]).state = .ok residue →
        residue.length < 5 + 1 :=
  decoding_ignores_chunking { maxFrameLen := 1 } [[2, 0, 0, 0, 0, 0, 0], [0, 0, 9, 7]]
    [[2, 0, 0, 0, 0], [0, 0, 0, 0, 9], [7]] (by decide)

end Hytch.FrameStream
