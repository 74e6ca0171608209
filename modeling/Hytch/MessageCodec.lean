import Mathlib.Algebra.Group.Nat.Defs
import Hytch.StandardValues
import Hytch.IncrementalDecoding

/-!
The client-to-daemon frames of `message.rs` and `codec.rs`: one type byte, a
big-endian payload length, the payload. `decode` returns the result together
with the bytes it left in the buffer; integers on the wire are `UInt8` and
`UInt16`, lengths are natural numbers reduced where the source casts them.
-/

namespace Hytch

open IncrementalDecoding

inductive RedrawMethod where
  | unspecified
  | none
  | ctrlL
  | winch
  deriving DecidableEq

inductive Message where
  | push (data : List UInt8)
  | attach (skipRing : Bool)
  | detach
  | winch (rows cols : UInt16)
  | redraw (method : RedrawMethod) (rows cols : UInt16)
  | kill (signal : UInt8)
  deriving DecidableEq

def RedrawMethod.toU8 : RedrawMethod → UInt8
  | .unspecified => 0
  | .none => 1
  | .ctrlL => 2
  | .winch => 3

def RedrawMethod.fromU8 (byte : UInt8) : Option RedrawMethod :=
  if byte = 0 then some .unspecified
  else if byte = 1 then some .none
  else if byte = 2 then some .ctrlL
  else if byte = 3 then some .winch
  else Option.none

structure MessageCodec where
  maxFrameLen : Nat

namespace MessageCodec

def defaultMaxFrameLen : Nat := 64 * 1024

instance : Inhabited MessageCodec := ⟨{ maxFrameLen := defaultMaxFrameLen }⟩

def headerLen : Nat := 5

def typePush : UInt8 := 0
def typeAttach : UInt8 := 1
def typeDetach : UInt8 := 2
def typeWinch : UInt8 := 3
def typeRedraw : UInt8 := 4
def typeKill : UInt8 := 5

def putU8 (dst : List UInt8) (value : UInt8) : List UInt8 := dst ++ [value]

def putU16 (dst : List UInt8) (value : UInt16) : List UInt8 :=
  dst ++ [UInt8.ofNat (value.toNat / 2 ^ 8), UInt8.ofNat value.toNat]

def putU32 (dst : List UInt8) (value : UInt32) : List UInt8 :=
  dst ++ [UInt8.ofNat (value.toNat / 2 ^ 24), UInt8.ofNat (value.toNat / 2 ^ 16),
    UInt8.ofNat (value.toNat / 2 ^ 8), UInt8.ofNat value.toNat]

/-- `u32::from_be_bytes(..) as usize`. -/
def u32FromBeBytes (b0 b1 b2 b3 : UInt8) : Nat :=
  ((b0.toNat * 2 ^ 8 + b1.toNat) * 2 ^ 8 + b2.toNat) * 2 ^ 8 + b3.toNat

def getU8 (payload : List UInt8) (offset : Nat) : UInt8 := payload.getD offset 0

def getU16 (payload : List UInt8) (offset : Nat) : UInt16 :=
  UInt16.ofNat ((getU8 payload offset).toNat * 2 ^ 8 + (getU8 payload (offset + 1)).toNat)

def writeHeader (dst : List UInt8) (ty : UInt8) (len : Nat) : List UInt8 :=
  putU32 (putU8 dst ty) (UInt32.ofNat len)

/-- `encode` never looks at `max_frame_len` and never fails. -/
def encode (_codec : MessageCodec) (msg : Message) (dst : List UInt8) :
    Except IoError Unit × List UInt8 :=
  match msg with
  | .push payload => (.ok (), writeHeader dst typePush payload.length ++ payload)
  | .attach skipRing => (.ok (), putU8 (writeHeader dst typeAttach 1) skipRing.toUInt8)
  | .detach => (.ok (), writeHeader dst typeDetach 0)
  | .winch rows cols => (.ok (), putU16 (putU16 (writeHeader dst typeWinch 4) rows) cols)
  | .redraw method rows cols =>
      (.ok (), putU16 (putU16 (putU8 (writeHeader dst typeRedraw 5) method.toU8) rows) cols)
  | .kill signal => (.ok (), putU8 (writeHeader dst typeKill 1) signal)

def invalidData (message : String) : IoError := { kind := .invalidData, message := message }

def requireLen (payload : List UInt8) (expected : Nat) : Except IoError Unit :=
  let got := payload.length
  if got ≠ expected then .error (invalidData s!"expected {expected}-byte payload, got {got}")
  else .ok ()

def decodePayload (ty : UInt8) (payload : List UInt8) : Except IoError Message :=
  if ty = typePush then .ok (.push payload)
  else if ty = typeAttach then do
    -- after a length check every `getU8` and `getU16` below is inside the payload
    requireLen payload 1
    return .attach (getU8 payload 0 != 0)
  else if ty = typeDetach then do
    requireLen payload 0
    return .detach
  else if ty = typeWinch then do
    requireLen payload 4
    return .winch (getU16 payload 0) (getU16 payload 2)
  else if ty = typeRedraw then do
    requireLen payload 5
    let methodByte := getU8 payload 0
    match RedrawMethod.fromU8 methodByte with
    | some method => return .redraw method (getU16 payload 1) (getU16 payload 3)
    | none => throw (invalidData s!"unknown redraw method {methodByte}")
  else if ty = typeKill then do
    requireLen payload 1
    return .kill (getU8 payload 0)
  else .error (invalidData s!"unknown message type {ty}")

def decode (codec : MessageCodec) (src : List UInt8) :
    Except IoError (Option Message) × List UInt8 :=
  match src with
  | ty :: b0 :: b1 :: b2 :: b3 :: _ =>
      let len := u32FromBeBytes b0 b1 b2 b3
      let limit := codec.maxFrameLen
      -- refused on the header alone, before any of the payload has arrived
      if len > limit then
        (.error (invalidData s!"frame length {len} exceeds max {limit}"), src)
      else if src.length < headerLen + len then (.ok none, src)
      else
        -- `split_to`: the frame has left the buffer even when its payload is refused
        let frame := src.take (headerLen + len)
        ((decodePayload ty (frame.drop headerLen)).map some, src.drop (headerLen + len))
  | _ => (.ok none, src)

/-- The bytes one message adds to the stream. -/
def frame (codec : MessageCodec) (msg : Message) : List UInt8 := (encode codec msg []).2

def payloadLength : Message → Nat
  | .push data => data.length
  | .attach _ => 1
  | .detach => 0
  | .winch _ _ => 4
  | .redraw _ _ _ => 5
  | .kill _ => 1

def pushesOf (messages : List Message) : List (List UInt8) :=
  messages.filterMap fun
    | .push data => some data
    | _ => none

@[simp] theorem pushesOf_append (first second : List Message) :
    pushesOf (first ++ second) = pushesOf first ++ pushesOf second :=
  List.filterMap_append

theorem pushes_grow (first second : List Message) (initial : first <+: second) :
    pushesOf first <+: pushesOf second :=
  initial.filterMap _

theorem pushesOf_pushes (chunks : List (List UInt8)) : pushesOf (chunks.map Message.push) = chunks := by
  induction chunks with
  | nil => rfl
  | cons chunk chunks ih =>
    rw [List.map_cons, pushesOf, List.filterMap_cons]
    exact congrArg (List.cons chunk) ih

/-- Encoding a list of messages into one buffer, stopping at the first error. -/
def encodeAll (codec : MessageCodec) : List Message → List UInt8 → Except IoError Unit × List UInt8
  | [], dst => (.ok (), dst)
  | msg :: rest, dst =>
      match encode codec msg dst with
      | (.error fault, dst) => (.error fault, dst)
      | (.ok (), dst) => encodeAll codec rest dst

theorem be_bytes_round_trip (len : Nat) (fits : len < 2 ^ 32) :
    u32FromBeBytes (UInt8.ofNat ((UInt32.ofNat len).toNat / 2 ^ 24))
      (UInt8.ofNat ((UInt32.ofNat len).toNat / 2 ^ 16))
      (UInt8.ofNat ((UInt32.ofNat len).toNat / 2 ^ 8)) (UInt8.ofNat (UInt32.ofNat len).toNat) =
      len := by
  have exact : (UInt32.ofNat len).toNat = len := by
    rw [UInt32.toNat_ofNat']
    exact Nat.mod_eq_of_lt fits
  simp only [exact, u32FromBeBytes, UInt8.toNat_ofNat']
  omega

theorem u16_round_trip (value : UInt16) :
    UInt16.ofNat ((UInt8.ofNat (value.toNat / 2 ^ 8)).toNat * 2 ^ 8 +
      (UInt8.ofNat value.toNat).toNat) = value := by
  have bound := value.toNat_lt
  apply UInt16.toNat.inj
  rw [UInt16.toNat_ofNat', UInt8.toNat_ofNat', UInt8.toNat_ofNat']
  omega

theorem redraw_method_round_trip (method : RedrawMethod) :
    RedrawMethod.fromU8 method.toU8 = some method := by
  cases method <;> decide

theorem attach_flag_round_trip (skipRing : Bool) :
    (skipRing.toUInt8 != 0) = skipRing := by
  cases skipRing <;> decide

theorem decode_header (codec : MessageCodec) (ty b0 b1 b2 b3 : UInt8) (tail : List UInt8) :
    decode codec (ty :: b0 :: b1 :: b2 :: b3 :: tail) =
      if u32FromBeBytes b0 b1 b2 b3 > codec.maxFrameLen then
        (.error (invalidData
          s!"frame length {u32FromBeBytes b0 b1 b2 b3} exceeds max {codec.maxFrameLen}"),
          ty :: b0 :: b1 :: b2 :: b3 :: tail)
      else if tail.length < u32FromBeBytes b0 b1 b2 b3 then
        (.ok none, ty :: b0 :: b1 :: b2 :: b3 :: tail)
      else
        ((decodePayload ty (tail.take (u32FromBeBytes b0 b1 b2 b3))).map some,
          tail.drop (u32FromBeBytes b0 b1 b2 b3)) := by
  simp only [decode]
  generalize u32FromBeBytes b0 b1 b2 b3 = len
  have incomplete : (ty :: b0 :: b1 :: b2 :: b3 :: tail).length < headerLen + len ↔
      tail.length < len := by
    simp only [List.length_cons, headerLen]
    omega
  have past : headerLen + len = len + 1 + 1 + 1 + 1 + 1 := by
    simp only [headerLen]
    omega
  simp only [incomplete]
  simp only [past]
  simp only [headerLen, List.take_succ_cons, List.drop_succ_cons, List.drop_zero]

theorem decode_short (codec : MessageCodec) (src : List UInt8) (short : src.length < headerLen) :
    decode codec src = (.ok none, src) := by
  match src with
  | [] => rfl
  | [_] => rfl
  | [_, _] => rfl
  | [_, _, _] => rfl
  | [_, _, _, _] => rfl
  | _ :: _ :: _ :: _ :: _ :: tail =>
    simp only [List.length_cons, headerLen] at short
    omega

theorem header_or_short (src : List UInt8) :
    src.length < headerLen ∨
      ∃ ty b0 b1 b2 b3 tail, src = ty :: b0 :: b1 :: b2 :: b3 :: tail := by
  match src with
  | ty :: b0 :: b1 :: b2 :: b3 :: tail => exact Or.inr ⟨ty, b0, b1, b2, b3, tail, rfl⟩
  | [] | [_] | [_, _] | [_, _, _] | [_, _, _, _] => exact Or.inl (by simp [headerLen])

theorem decode_pending_keeps (codec : MessageCodec) (src rest : List UInt8)
    (answer : decode codec src = (.ok none, rest)) : rest = src := by
  rcases header_or_short src with short | ⟨ty, b0, b1, b2, b3, tail, rfl⟩
  · rw [decode_short codec src short] at answer
    exact (Prod.mk.inj answer).2.symm
  · rw [decode_header] at answer
    split at answer
    · cases answer
    · split at answer
      · exact (Prod.mk.inj answer).2.symm
      · cases payload : decodePayload ty (tail.take (u32FromBeBytes b0 b1 b2 b3)) <;>
          simp [payload, Except.map] at answer

theorem decode_item_inversion (codec : MessageCodec) (src rest : List UInt8) (msg : Message)
    (answer : decode codec src = (.ok (some msg), rest)) :
    ∃ ty b0 b1 b2 b3 payload, src = ty :: b0 :: b1 :: b2 :: b3 :: (payload ++ rest) ∧
      payload.length = u32FromBeBytes b0 b1 b2 b3 ∧ payload.length ≤ codec.maxFrameLen ∧
      decodePayload ty payload = .ok msg := by
  rcases header_or_short src with short | ⟨ty, b0, b1, b2, b3, tail, rfl⟩
  · rw [decode_short codec src short] at answer
    cases answer
  · rw [decode_header] at answer
    split at answer
    · cases answer
    · split at answer
      · cases answer
      · rename_i admitted arrived
        obtain ⟨decoded, left⟩ := Prod.mk.inj answer
        refine ⟨ty, b0, b1, b2, b3, tail.take (u32FromBeBytes b0 b1 b2 b3), ?_, ?_, ?_, ?_⟩
        · rw [← left, List.take_append_drop]
        · rw [List.length_take]
          omega
        · rw [List.length_take]
          omega
        · cases payload : decodePayload ty (tail.take (u32FromBeBytes b0 b1 b2 b3)) with
          | error fault => simp [payload, Except.map] at decoded
          | ok found =>
            simp only [payload, Except.map, Except.ok.injEq, Option.some.injEq] at decoded
            rw [decoded]

theorem decode_complete (codec : MessageCodec) (ty b0 b1 b2 b3 : UInt8)
    (payload rest : List UInt8) (exact : payload.length = u32FromBeBytes b0 b1 b2 b3)
    (admitted : payload.length ≤ codec.maxFrameLen) :
    decode codec (ty :: b0 :: b1 :: b2 :: b3 :: (payload ++ rest)) =
      ((decodePayload ty payload).map some, rest) := by
  rw [decode_header, ← exact, if_neg (by omega),
    if_neg (by rw [List.length_append]; omega), List.take_left, List.drop_left]

theorem decode_item_extends (codec : MessageCodec) (src : List UInt8) (msg : Message)
    (rest more : List UInt8) (answer : decode codec src = (.ok (some msg), rest)) :
    decode codec (src ++ more) = (.ok (some msg), rest ++ more) := by
  obtain ⟨ty, b0, b1, b2, b3, payload, rfl, exact, admitted, decoded⟩ :=
    decode_item_inversion codec src rest msg answer
  have complete := decode_complete codec ty b0 b1 b2 b3 payload (rest ++ more) exact admitted
  rw [decoded] at complete
  simp only [List.cons_append, List.append_assoc]
  exact complete

/-- The length fault needs only the header, every other fault the whole frame;
in both cases later bytes are not looked at. -/
theorem decode_fault_extends (codec : MessageCodec) (src : List UInt8) (fault : IoError)
    (rest more : List UInt8) (answer : decode codec src = (.error fault, rest)) :
    (decode codec (src ++ more)).1 = .error fault := by
  rcases header_or_short src with short | ⟨ty, b0, b1, b2, b3, tail, rfl⟩
  · rw [decode_short codec src short] at answer
    cases answer
  · simp only [List.cons_append]
    rw [decode_header] at answer ⊢
    split
    · rename_i exceeds
      rw [if_pos exceeds] at answer
      exact (Prod.mk.inj answer).1
    · rename_i admitted
      rw [if_neg admitted] at answer
      split at answer
      · cases answer
      · rename_i arrived
        rw [if_neg (by rw [List.length_append]; omega),
          List.take_append_of_le_length (by omega)]
        exact (Prod.mk.inj answer).1

theorem decode_item_alone (codec : MessageCodec) (src rest : List UInt8) (msg : Message)
    (answer : decode codec src = (.ok (some msg), rest)) :
    ∃ taken, src = taken ++ rest ∧ decode codec taken = (.ok (some msg), []) := by
  obtain ⟨ty, b0, b1, b2, b3, payload, rfl, exact, admitted, decoded⟩ :=
    decode_item_inversion codec src rest msg answer
  have complete := decode_complete codec ty b0 b1 b2 b3 payload [] exact admitted
  rw [List.append_nil, decoded] at complete
  exact ⟨ty :: b0 :: b1 :: b2 :: b3 :: payload, by simp, complete⟩

def decoder (codec : MessageCodec) : Decoder UInt8 Message IoError where
  decode := decode codec
  pendingKeeps := decode_pending_keeps codec
  itemShrinks := by
    intro src msg rest answer
    obtain ⟨ty, b0, b1, b2, b3, payload, rfl, -, -, -⟩ :=
      decode_item_inversion codec src rest msg answer
    simp only [List.length_cons, List.length_append]
    omega
  itemExtends := decode_item_extends codec
  faultExtends := decode_fault_extends codec

theorem decode_nil (codec : MessageCodec) : (decoder codec).decode [] = (.ok none, []) := rfl

/-- What the decoder waits on is shorter than one admitted frame. -/
theorem pending_bound (codec : MessageCodec) (src rest : List UInt8)
    (answer : decode codec src = (.ok none, rest)) :
    src.length < headerLen + codec.maxFrameLen := by
  rcases header_or_short src with short | ⟨ty, b0, b1, b2, b3, tail, rfl⟩
  · omega
  · rw [decode_header] at answer
    split at answer
    · cases answer
    · split at answer
      · simp only [List.length_cons, headerLen]
        omega
      · cases payload : decodePayload ty (tail.take (u32FromBeBytes b0 b1 b2 b3)) <;>
          simp [payload, Except.map] at answer

end MessageCodec
end Hytch
