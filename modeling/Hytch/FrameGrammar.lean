import Mathlib.Tactic.SplitIfs
import Hytch.FrameStream

/-!
The language of the client-to-daemon frames, stated without the decoder: which
payloads each type admits and what a frame around them looks like. `decode`
accepts exactly this language, refuses a length on the header alone, and
otherwise takes one whole frame out of the buffer.
-/

namespace Hytch.FrameGrammar

open MessageCodec FrameStream

inductive LegalPayload : UInt8 → List UInt8 → Prop where
  | push (payload : List UInt8) : LegalPayload typePush payload
  | attach (payload : List UInt8) (one : payload.length = 1) : LegalPayload typeAttach payload
  | detach (payload : List UInt8) (none : payload.length = 0) : LegalPayload typeDetach payload
  | winch (payload : List UInt8) (four : payload.length = 4) : LegalPayload typeWinch payload
  | redraw (payload : List UInt8) (five : payload.length = 5)
      (method : ∀ byte, payload.head? = some byte → byte ≤ 3) : LegalPayload typeRedraw payload
  | kill (payload : List UInt8) (one : payload.length = 1) : LegalPayload typeKill payload

/-- One frame on the wire: the type, the length of the payload in four bytes, the payload. -/
inductive Frame (maxFrameLen : Nat) (ty : UInt8) (payload : List UInt8) : List UInt8 → Prop where
  | wire (b0 b1 b2 b3 : UInt8) (declared : u32FromBeBytes b0 b1 b2 b3 = payload.length)
      (admitted : payload.length ≤ maxFrameLen) :
      Frame maxFrameLen ty payload (ty :: b0 :: b1 :: b2 :: b3 :: payload)

/-- The buffer starts with a header whose length is over the limit. -/
def DeclaresTooMuch (maxFrameLen : Nat) (src : List UInt8) : Prop :=
  ∃ ty b0 b1 b2 b3 tail, src = ty :: b0 :: b1 :: b2 :: b3 :: tail ∧
    maxFrameLen < u32FromBeBytes b0 b1 b2 b3

/-- The payload as `encode` writes it: an attach flag is 0 or 1. -/
def canonicalPayload (ty : UInt8) (payload : List UInt8) : List UInt8 :=
  if ty = typeAttach then payload.map fun flag => if 1 < flag then 1 else flag else payload

section Bytes

theorem put_get_u16 (high low : UInt8) :
    putU16 [] (UInt16.ofNat (high.toNat * 2 ^ 8 + low.toNat)) = [high, low] := by
  have high_bound := high.toNat_lt
  have low_bound := low.toNat_lt
  have exact : (UInt16.ofNat (high.toNat * 2 ^ 8 + low.toNat)).toNat = high.toNat * 2 ^ 8 + low.toNat := by
    rw [UInt16.toNat_ofNat']
    exact Nat.mod_eq_of_lt (by omega)
  have first : UInt8.ofNat ((high.toNat * 2 ^ 8 + low.toNat) / 2 ^ 8) = high := by
    apply UInt8.toNat.inj
    rw [UInt8.toNat_ofNat']
    omega
  have second : UInt8.ofNat (high.toNat * 2 ^ 8 + low.toNat) = low := by
    apply UInt8.toNat.inj
    rw [UInt8.toNat_ofNat']
    omega
  simp only [putU16, exact, first, second, List.nil_append]

theorem write_header_declared (ty b0 b1 b2 b3 : UInt8) :
    writeHeader [] ty (u32FromBeBytes b0 b1 b2 b3) = [ty, b0, b1, b2, b3] := by
  have bound0 := b0.toNat_lt
  have bound1 := b1.toNat_lt
  have bound2 := b2.toNat_lt
  have bound3 := b3.toNat_lt
  have exact : (UInt32.ofNat (u32FromBeBytes b0 b1 b2 b3)).toNat = u32FromBeBytes b0 b1 b2 b3 := by
    rw [UInt32.toNat_ofNat', u32FromBeBytes]
    exact Nat.mod_eq_of_lt (by omega)
  have byte (value : Nat) (b : UInt8) (same : value % 2 ^ 8 = b.toNat) : UInt8.ofNat value = b := by
    apply UInt8.toNat.inj
    rw [UInt8.toNat_ofNat', same]
  have first := byte (u32FromBeBytes b0 b1 b2 b3 / 2 ^ 24) b0 (by rw [u32FromBeBytes]; omega)
  have second := byte (u32FromBeBytes b0 b1 b2 b3 / 2 ^ 16) b1 (by rw [u32FromBeBytes]; omega)
  have third := byte (u32FromBeBytes b0 b1 b2 b3 / 2 ^ 8) b2 (by rw [u32FromBeBytes]; omega)
  have fourth := byte (u32FromBeBytes b0 b1 b2 b3) b3 (by rw [u32FromBeBytes]; omega)
  simp only [writeHeader, putU8, putU32, exact, first, second, third, fourth, List.nil_append,
    List.cons_append]

/-- A method byte up to 3 is known, and written back as it was read. -/
theorem redraw_method_known (byte : UInt8) :
    (∃ method, RedrawMethod.fromU8 byte = some method) ↔ byte ≤ 3 := by
  have all : ∀ value : Fin 256, (RedrawMethod.fromU8 (UInt8.ofNat value.val)).isSome = true ↔
      UInt8.ofNat value.val ≤ 3 := by decide +kernel
  have here := all ⟨byte.toNat, byte.toNat_lt⟩
  rwa [UInt8.ofNat_toNat, Option.isSome_iff_exists] at here

theorem redraw_method_written (byte : UInt8) (method : RedrawMethod)
    (known : RedrawMethod.fromU8 byte = some method) : method.toU8 = byte := by
  unfold RedrawMethod.fromU8 at known
  split_ifs at known with is_zero is_one is_two is_three
  all_goals cases known
  · exact is_zero.symm
  · exact is_one.symm
  · exact is_two.symm
  · exact is_three.symm

theorem attach_flag_written (flag : UInt8) :
    (flag != 0).toUInt8 = if 1 < flag then 1 else flag := by
  have all : ∀ value : Fin 256, (UInt8.ofNat value.val != 0).toUInt8 =
      if 1 < UInt8.ofNat value.val then 1 else UInt8.ofNat value.val := by decide +kernel
  have here := all ⟨flag.toNat, flag.toNat_lt⟩
  rwa [UInt8.ofNat_toNat] at here

end Bytes

section Payloads

/-- The message a payload of some type stands for. -/
inductive Carries : UInt8 → List UInt8 → Message → Prop where
  | push (payload : List UInt8) : Carries typePush payload (.push payload)
  | attach (flag : UInt8) : Carries typeAttach [flag] (.attach (flag != 0))
  | detach : Carries typeDetach [] .detach
  | winch (p0 p1 p2 p3 : UInt8) : Carries typeWinch [p0, p1, p2, p3]
      (.winch (getU16 [p0, p1] 0) (getU16 [p2, p3] 0))
  | redraw (p0 p1 p2 p3 p4 : UInt8) (method : RedrawMethod)
      (known : RedrawMethod.fromU8 p0 = some method) :
      Carries typeRedraw [p0, p1, p2, p3, p4]
        (.redraw method (getU16 [p1, p2] 0) (getU16 [p3, p4] 0))
  | kill (signal : UInt8) : Carries typeKill [signal] (.kill signal)

theorem four_bytes (payload : List UInt8) (four : payload.length = 4) :
    ∃ p0 p1 p2 p3, payload = [p0, p1, p2, p3] := by
  match payload, four with
  | [p0, p1, p2, p3], _ => exact ⟨p0, p1, p2, p3, rfl⟩

theorem require_len_then (payload : List UInt8) (expected : Nat) (rest : Except IoError Message)
    (msg : Message) :
    (requireLen payload expected >>= fun _ => rest) = .ok msg ↔
      payload.length = expected ∧ rest = .ok msg := by
  by_cases exact : payload.length = expected
  · simp [requireLen, exact, Except.bind, Bind.bind]
  · simp [requireLen, exact, Except.bind, Bind.bind]

theorem carries_decoded (ty : UInt8) (payload : List UInt8) (msg : Message)
    (carries : Carries ty payload msg) : decodePayload ty payload = .ok msg := by
  cases carries with
  | push payload => rfl
  | attach flag => rfl
  | detach => rfl
  | winch p0 p1 p2 p3 => rfl
  | redraw p0 p1 p2 p3 p4 method known => exact decode_redraw _ method known rfl
  | kill signal => rfl

theorem decoded_carries (ty : UInt8) (payload : List UInt8) (msg : Message)
    (decoded : decodePayload ty payload = .ok msg) : Carries ty payload msg := by
  unfold decodePayload at decoded
  split_ifs at decoded with is_push is_attach is_detach is_winch is_redraw is_kill
  · cases decoded
    rw [is_push]
    exact .push payload
  · obtain ⟨one, same⟩ := (require_len_then payload 1 _ msg).mp decoded
    obtain ⟨flag, rfl⟩ := List.length_eq_one_iff.mp one
    cases same
    rw [is_attach]
    exact .attach flag
  · obtain ⟨none, same⟩ := (require_len_then payload 0 _ msg).mp decoded
    cases same
    rw [is_detach, List.length_eq_zero_iff.mp none]
    exact .detach
  · obtain ⟨four, same⟩ := (require_len_then payload 4 _ msg).mp decoded
    obtain ⟨p0, p1, p2, p3, rfl⟩ := four_bytes payload four
    cases same
    rw [is_winch]
    exact .winch p0 p1 p2 p3
  · obtain ⟨five, same⟩ := (require_len_then payload 5 _ msg).mp decoded
    obtain ⟨p0, rest, rfl⟩ := List.exists_cons_of_length_eq_add_one five
    obtain ⟨p1, p2, p3, p4, rfl⟩ := four_bytes rest (Nat.succ.inj five)
    have first : getU8 [p0, p1, p2, p3, p4] 0 = p0 := rfl
    cases known : RedrawMethod.fromU8 p0 with
    | none =>
      simp only [first, known] at same
      cases same
    | some method =>
      simp only [first, known] at same
      cases same
      rw [is_redraw]
      exact .redraw p0 p1 p2 p3 p4 method known
  · obtain ⟨one, same⟩ := (require_len_then payload 1 _ msg).mp decoded
    obtain ⟨signal, rfl⟩ := List.length_eq_one_iff.mp one
    cases same
    rw [is_kill]
    exact .kill signal

/-- The legal payloads are those that carry a message. -/
theorem legal_iff_carries (ty : UInt8) (payload : List UInt8) :
    LegalPayload ty payload ↔ ∃ msg, Carries ty payload msg := by
  constructor
  · intro legal
    cases legal with
    | push => exact ⟨_, .push payload⟩
    | attach _ one =>
      obtain ⟨flag, rfl⟩ := List.length_eq_one_iff.mp one
      exact ⟨_, .attach flag⟩
    | detach _ none =>
      rw [List.length_eq_zero_iff.mp none]
      exact ⟨_, .detach⟩
    | winch _ four =>
      obtain ⟨p0, p1, p2, p3, rfl⟩ := four_bytes payload four
      exact ⟨_, .winch p0 p1 p2 p3⟩
    | redraw _ five method =>
      obtain ⟨p0, rest, rfl⟩ := List.exists_cons_of_length_eq_add_one five
      obtain ⟨p1, p2, p3, p4, rfl⟩ := four_bytes rest (Nat.succ.inj five)
      obtain ⟨found, known⟩ := (redraw_method_known p0).mpr (method p0 rfl)
      exact ⟨_, .redraw p0 p1 p2 p3 p4 found known⟩
    | kill _ one =>
      obtain ⟨signal, rfl⟩ := List.length_eq_one_iff.mp one
      exact ⟨_, .kill signal⟩
  · rintro ⟨msg, carries⟩
    cases carries with
    | push => exact .push payload
    | attach flag => exact .attach _ rfl
    | detach => exact .detach _ rfl
    | winch p0 p1 p2 p3 => exact .winch _ rfl
    | redraw p0 p1 p2 p3 p4 method known =>
      refine .redraw _ rfl ?_
      intro byte first
      cases first
      exact (redraw_method_known p0).mp ⟨method, known⟩
    | kill signal => exact .kill _ rfl

theorem carries_written (ty : UInt8) (payload : List UInt8) (msg : Message)
    (carries : Carries ty payload msg) :
    wireType msg = ty ∧ wirePayload msg = canonicalPayload ty payload := by
  cases carries with
  | push payload => exact ⟨rfl, rfl⟩
  | attach flag => exact ⟨rfl, congrArg (· :: []) (attach_flag_written flag)⟩
  | detach => exact ⟨rfl, rfl⟩
  | winch p0 p1 p2 p3 =>
    refine ⟨rfl, ?_⟩
    change putU16 [] (getU16 [p0, p1] 0) ++ putU16 [] (getU16 [p2, p3] 0) = [p0, p1] ++ [p2, p3]
    exact congrArg₂ (· ++ ·) (put_get_u16 p0 p1) (put_get_u16 p2 p3)
  | redraw p0 p1 p2 p3 p4 method known =>
    refine ⟨rfl, ?_⟩
    change method.toU8 :: (putU16 [] (getU16 [p1, p2] 0) ++ putU16 [] (getU16 [p3, p4] 0)) =
      p0 :: ([p1, p2] ++ [p3, p4])
    rw [redraw_method_written p0 method known]
    exact congrArg (List.cons p0) (congrArg₂ (· ++ ·) (put_get_u16 p1 p2) (put_get_u16 p3 p4))
  | kill signal => exact ⟨rfl, rfl⟩

theorem canonical_length (ty : UInt8) (payload : List UInt8) :
    (canonicalPayload ty payload).length = payload.length := by
  unfold canonicalPayload
  split
  · exact List.length_map _
  · rfl

end Payloads

section Frames

variable (codec : MessageCodec)

def Grammatical (frame : List UInt8) : Prop :=
  ∃ ty payload, Frame codec.maxFrameLen ty payload frame ∧ LegalPayload ty payload

/-- A frame around a payload its type does not admit. -/
def Malformed (frame : List UInt8) : Prop :=
  ∃ ty payload, Frame codec.maxFrameLen ty payload frame ∧ ¬ LegalPayload ty payload

/-- The frame that says the same with an attach flag of 0 or 1. -/
def canonical : List UInt8 → List UInt8
  | ty :: b0 :: b1 :: b2 :: b3 :: payload => ty :: b0 :: b1 :: b2 :: b3 :: canonicalPayload ty payload
  | frame => frame

theorem decode_framed (ty : UInt8) (payload frame rest : List UInt8)
    (framed : Frame codec.maxFrameLen ty payload frame) :
    decode codec (frame ++ rest) = ((decodePayload ty payload).map some, rest) := by
  cases framed with
  | wire b0 b1 b2 b3 declared admitted =>
    exact decode_complete codec ty b0 b1 b2 b3 payload rest declared.symm admitted

theorem encode_framed (ty : UInt8) (payload frame : List UInt8) (msg : Message)
    (framed : Frame codec.maxFrameLen ty payload frame) (carries : Carries ty payload msg) :
    encode codec msg [] = (.ok (), canonical frame) := by
  obtain ⟨same_type, same_payload⟩ := carries_written ty payload msg carries
  cases framed with
  | wire b0 b1 b2 b3 declared admitted =>
    have length : payloadLength msg = u32FromBeBytes b0 b1 b2 b3 := by
      rw [← wire_payload_length, same_payload, canonical_length, declared]
    rw [encode_appends, frame_shape, same_type, same_payload, length, write_header_declared]
    rfl

theorem frame_not_empty (ty : UInt8) (payload frame : List UInt8)
    (framed : Frame codec.maxFrameLen ty payload frame) : 0 < frame.length := by
  cases framed with
  | wire b0 b1 b2 b3 declared admitted => exact Nat.succ_pos _

inductive Outcome (src : List UInt8) : Except IoError (Option Message) × List UInt8 → Prop where
  | refused (fault : IoError) (declares : DeclaresTooMuch codec.maxFrameLen src) :
      Outcome src (.error fault, src)
  | pending : Outcome src (.ok none, src)
  | accepted {ty : UInt8} {payload frame : List UInt8} (msg : Message) (rest : List UInt8)
      (whole : src = frame ++ rest) (framed : Frame codec.maxFrameLen ty payload frame)
      (carries : Carries ty payload msg) : Outcome src (.ok (some msg), rest)
  | rejected {ty : UInt8} {payload frame : List UInt8} (fault : IoError) (rest : List UInt8)
      (whole : src = frame ++ rest) (framed : Frame codec.maxFrameLen ty payload frame)
      (illegal : ¬ LegalPayload ty payload) : Outcome src (.error fault, rest)

theorem framed_outcome (ty : UInt8) (payload frame rest : List UInt8)
    (framed : Frame codec.maxFrameLen ty payload frame) :
    Outcome codec (frame ++ rest) (decode codec (frame ++ rest)) := by
  rw [decode_framed codec ty payload frame rest framed]
  cases decoded : decodePayload ty payload with
  | ok msg => exact .accepted msg rest rfl framed (decoded_carries ty payload msg decoded)
  | error fault =>
    refine .rejected fault rest rfl framed ?_
    intro legal
    obtain ⟨msg, carries⟩ := (legal_iff_carries ty payload).mp legal
    rw [carries_decoded ty payload msg carries] at decoded
    cases decoded

theorem decode_outcome (src : List UInt8) : Outcome codec src (decode codec src) := by
  rcases header_or_short src with short | ⟨ty, b0, b1, b2, b3, tail, rfl⟩
  · rw [decode_short codec src short]
    exact .pending
  · by_cases exceeds : u32FromBeBytes b0 b1 b2 b3 > codec.maxFrameLen
    · rw [decode_header, if_pos exceeds]
      exact .refused _ ⟨ty, b0, b1, b2, b3, tail, rfl, exceeds⟩
    · by_cases missing : tail.length < u32FromBeBytes b0 b1 b2 b3
      · rw [decode_header, if_neg exceeds, if_pos missing]
        exact .pending
      · -- the payload has arrived: the front of the buffer is a frame
        have declared : u32FromBeBytes b0 b1 b2 b3 =
            (tail.take (u32FromBeBytes b0 b1 b2 b3)).length := by
          rw [List.length_take]
          omega
        have whole := framed_outcome codec ty _ _ (tail.drop (u32FromBeBytes b0 b1 b2 b3))
          (.wire b0 b1 b2 b3 declared (by omega))
        simpa only [List.cons_append, List.take_append_drop] using whole

theorem grammatical_accepted (frame rest : List UInt8) (grammatical : Grammatical codec frame) :
    ∃ msg, decode codec (frame ++ rest) = (.ok (some msg), rest) := by
  obtain ⟨ty, payload, framed, legal⟩ := grammatical
  obtain ⟨msg, carries⟩ := (legal_iff_carries ty payload).mp legal
  refine ⟨msg, ?_⟩
  rw [decode_framed codec ty payload frame rest framed, carries_decoded ty payload msg carries]
  rfl

theorem malformed_rejected (frame rest : List UInt8) (malformed : Malformed codec frame) :
    ∃ fault, decode codec (frame ++ rest) = (.error fault, rest) := by
  obtain ⟨ty, payload, framed, illegal⟩ := malformed
  rw [decode_framed codec ty payload frame rest framed]
  cases decoded : decodePayload ty payload with
  | error fault => exact ⟨fault, rfl⟩
  | ok msg =>
    exact absurd ((legal_iff_carries ty payload).mpr ⟨msg, decoded_carries ty payload msg decoded⟩)
      illegal

theorem declares_refused (src : List UInt8) (declares : DeclaresTooMuch codec.maxFrameLen src) :
    ∃ fault, decode codec src = (.error fault, src) := by
  obtain ⟨ty, b0, b1, b2, b3, tail, rfl, exceeds⟩ := declares
  exact ⟨_, by rw [decode_header, if_pos exceeds]⟩

theorem residue_shorter (ty : UInt8) (payload frame src rest : List UInt8)
    (framed : Frame codec.maxFrameLen ty payload frame) (whole : src = frame ++ rest) : rest ≠ src := by
  intro same
  have length := congrArg List.length whole
  rw [List.length_append, same] at length
  have := frame_not_empty codec ty payload frame framed
  omega

/-- The decoder and the grammar: what is accepted and what is left, what the accepted
message is written as, and the two ways to fail. -/
theorem decode_accepts_exactly_the_grammar (src : List UInt8) :
    (∀ rest, (∃ msg, decode codec src = (.ok (some msg), rest)) ↔
      ∃ frame, src = frame ++ rest ∧ Grammatical codec frame) ∧
    (∀ msg frame rest, decode codec src = (.ok (some msg), rest) → src = frame ++ rest →
      encode codec msg [] = (.ok (), canonical frame)) ∧
    ((∃ fault, decode codec src = (.error fault, src)) ↔ DeclaresTooMuch codec.maxFrameLen src) ∧
    (∀ rest, rest ≠ src → ((∃ fault, decode codec src = (.error fault, rest)) ↔
      ∃ frame, src = frame ++ rest ∧ Malformed codec frame)) := by
  have outcome := decode_outcome codec src
  refine ⟨?accepted, ?written, ?refused, ?rejected⟩
  case accepted =>
    intro rest
    constructor
    · rintro ⟨msg, decoded⟩
      rw [decoded] at outcome
      cases outcome with
      | accepted _ _ whole framed carries =>
        exact ⟨_, whole, _, _, framed, (legal_iff_carries _ _).mpr ⟨msg, carries⟩⟩
    · rintro ⟨frame, rfl, grammatical⟩
      exact grammatical_accepted codec frame rest grammatical
  case written =>
    intro msg frame rest decoded split
    rw [decoded] at outcome
    cases outcome with
    | accepted _ _ whole framed carries =>
      rw [List.append_cancel_right (split.symm.trans whole)]
      exact encode_framed codec _ _ _ msg framed carries
  case refused =>
    constructor
    · rintro ⟨fault, decoded⟩
      rw [decoded] at outcome
      cases outcome with
      | refused _ declares => exact declares
      | rejected _ _ whole framed illegal =>
        exact absurd rfl (residue_shorter codec _ _ _ src src framed whole)
    · exact declares_refused codec src
  case rejected =>
    intro rest taken
    constructor
    · rintro ⟨fault, decoded⟩
      rw [decoded] at outcome
      cases outcome with
      | refused _ declares => exact absurd rfl taken
      | rejected _ _ whole framed illegal => exact ⟨_, whole, _, _, framed, illegal⟩
    · rintro ⟨frame, rfl, malformed⟩
      exact malformed_rejected codec frame rest malformed

/-- A flag byte of 7 is accepted and written back as 1. -/
theorem decode_accepts_flag_seven :
    encode { maxFrameLen := 1 } (.attach true) [] = (.ok (), canonical [1, 0, 0, 0, 1, 7]) ∧
      canonical [1, 0, 0, 0, 1, 7] = [1, 0, 0, 0, 1, 1] := by
  have framed : Frame 1 typeAttach [7] [1, 0, 0, 0, 1, 7] := .wire 0 0 0 1 (by decide) (by decide)
  have decoded : decode { maxFrameLen := 1 } [1, 0, 0, 0, 1, 7, 9] =
      (.ok (some (.attach true)), [9]) :=
    decode_framed { maxFrameLen := 1 } typeAttach [7] [1, 0, 0, 0, 1, 7] [9] framed
  exact ⟨(decode_accepts_exactly_the_grammar { maxFrameLen := 1 } [1, 0, 0, 0, 1, 7, 9]).2.1
    (.attach true) [1, 0, 0, 0, 1, 7] [9] decoded rfl, by decide⟩

end Frames

end Hytch.FrameGrammar
