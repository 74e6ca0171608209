import Hytch.Invocations
import Hytch.TypedInput

/-!
The detach character, as `main.rs` takes it from `-e` and `-E`, and text typed in UTF-8. The
attach loop looks for a byte; a character has up to four.
-/

namespace Hytch.DetachKeys

open IncrementalDecoding MessageCodec Connections Requests AttachLoop DefaultCommand Invocations
  SessionNames TypedInput DaemonRun Runs

/-- `str::as_bytes`. -/
def asBytes (text : Text) : List UInt8 := text.flatMap String.utf8EncodeChar

def toAsciiUppercase (b : UInt8) : UInt8 := if 0x61 ≤ b ∧ b ≤ 0x7a then b - 0x20 else b

def isAsciiUppercase (b : UInt8) : Bool := 0x41 ≤ b ∧ b ≤ 0x5a

/-- `^X`, where `X` names a control character. -/
def caretNotation : List UInt8 → Option UInt8
  | [0x5e, x] =>
      let c := toAsciiUppercase x
      if c = 0x3f then some 0x7f
      else if isAsciiUppercase c ∨ c = 0x40 ∨ (0x5b ≤ c ∧ c ≤ 0x5f) then some (c &&& 0x1f)
      else none
  | _ => none

def parseCharSpec (s : Text) : Option UInt8 := (caretNotation (asBytes s)).or (asBytes s).head?

/-- The options of the command line; `^\` unless they say otherwise. -/
def detachCharOf (detachChar : Option Text) (noDetach : Bool) : Option UInt8 :=
  if noDetach then none else some ((detachChar.bind parseCharSpec).getD 0x1c)

def firstByte (char : Char) : UInt8 := (String.utf8EncodeChar char).headD 0

section Characters

theorem encoded_bytes (char : Char) :
    ∃ rest, String.utf8EncodeChar char = firstByte char :: rest ∧
      (firstByte char).IsUTF8FirstByte ∧ ∀ byte ∈ rest, ¬ byte.IsUTF8FirstByte := by
  have starts := UInt8.isUTF8FirstByte_getElem_zero_utf8EncodeChar (c := char)
  cases encoded : String.utf8EncodeChar char with
  | nil => exact absurd encoded String.utf8EncodeChar_ne_nil
  | cons first rest =>
    have same : firstByte char = first := by rw [firstByte, encoded, List.headD_cons]
    refine ⟨rest, by rw [same], ?_, fun byte member => ?_⟩
    · rw [same]
      simpa [encoded] using starts
    · obtain ⟨index, bound, rfl⟩ := List.getElem_of_mem member
      have inside : index + 1 < (String.utf8EncodeChar char).length := by
        rw [encoded, List.length_cons]
        omega
      have later := @UInt8.isUTF8FirstByte_getElem_utf8EncodeChar char (index + 1) inside
      simp only [encoded, List.getElem_cons_succ] at later
      rw [later]
      exact Nat.succ_ne_zero index

theorem ascii_first (byte : UInt8) (ascii : byte ≤ 0x7f) : byte.IsUTF8FirstByte := by
  have all : ∀ number : Fin 128, (UInt8.ofNat number).IsUTF8FirstByte := by decide
  have bound : byte.toNat < 128 := Nat.lt_succ_of_le (UInt8.le_iff_toNat_le.mp ascii)
  have first := all ⟨byte.toNat, bound⟩
  rwa [UInt8.ofNat_toNat] at first

theorem caret_notation_ascii (bytes : List UInt8) (byte : UInt8)
    (named : caretNotation bytes = some byte) : byte ≤ 0x7f := by
  unfold caretNotation at named
  split at named
  · dsimp only at named
    split at named
    · cases named
      decide
    · split at named
      · cases named
        exact UInt8.le_trans UInt8.and_le_right (by decide)
      · cases named
  · cases named

theorem first_of_text (text : Text) (byte : UInt8) (first : (asBytes text).head? = some byte) :
    byte.IsUTF8FirstByte := by
  cases text with
  | nil => cases first
  | cons char rest =>
    obtain ⟨others, encoded, starts, _⟩ := encoded_bytes char
    rw [asBytes, List.flatMap_cons, encoded] at first
    cases first
    exact starts

/-- Every control character can be chosen, and in lower case too. -/
theorem caret_spells_controls (byte : UInt8) (control : byte < 0x20 ∨ byte = 0x7f) :
    parseCharSpec ['^', Char.ofNat (byte ^^^ 0x40).toNat] = some byte ∧
      parseCharSpec ['^', (Char.ofNat (byte ^^^ 0x40).toNat).toLower] = some byte := by
  have all : ∀ number : Fin 128, number < 32 ∨ number = 127 →
      parseCharSpec ['^', Char.ofNat (UInt8.ofNat number ^^^ 0x40).toNat] = some (UInt8.ofNat number) ∧
      parseCharSpec ['^', (Char.ofNat (UInt8.ofNat number ^^^ 0x40).toNat).toLower] =
        some (UInt8.ofNat number) := by
    decide
  have bound : byte.toNat < 128 := by
    rcases control with low | rfl
    · have small := UInt8.lt_iff_toNat_lt.mp low
      exact Nat.lt_trans small (by decide)
    · decide
  have spelled := all ⟨byte.toNat, bound⟩ (by
    rcases control with low | rfl
    · exact .inl (UInt8.lt_iff_toNat_lt.mp low)
    · exact .inr rfl)
  rwa [UInt8.ofNat_toNat] at spelled

/-- No option makes a byte from the middle of a character the detach character. -/
theorem detach_char_first (detachChar : Option Text) (noDetach : Bool) (byte : UInt8)
    (chosen : detachCharOf detachChar noDetach = some byte) : byte.IsUTF8FirstByte := by
  rw [detachCharOf, Option.ite_none_left_eq_some] at chosen
  obtain ⟨_, chosen⟩ := chosen
  cases parsed : detachChar.bind parseCharSpec with
  | none =>
    rw [parsed] at chosen
    cases chosen
    decide
  | some found =>
    rw [parsed] at chosen
    cases chosen
    obtain ⟨spec, _, parsed⟩ := Option.bind_eq_some_iff.mp parsed
    rcases Option.or_eq_some_iff.mp parsed with named | ⟨_, first⟩
    · exact ascii_first found (caret_notation_ascii _ found named)
    · exact first_of_text spec found first

theorem first_byte_found (char : Char) (text : Text) (member : char ∈ text) :
    firstByte char ∈ asBytes text := by
  obtain ⟨others, encoded, _, _⟩ := encoded_bytes char
  exact List.mem_flatMap.mpr ⟨char, member, by rw [encoded]; exact List.mem_cons_self⟩

/-- A byte that starts characters is found only where one starts. -/
theorem cut_between_characters (byte : UInt8) (first : byte.IsUTF8FirstByte) (text : Text)
    (before behind : List UInt8) (cut : asBytes text = before ++ byte :: behind)
    (missed : byte ∉ before) :
    ∃ front key back, text = front ++ key :: back ∧ firstByte key = byte ∧
      (∀ char ∈ front, firstByte char ≠ byte) ∧ before = asBytes front := by
  induction text generalizing before with
  | nil => simp [asBytes] at cut
  | cons char rest ih =>
    obtain ⟨others, encoded, _, later⟩ := encoded_bytes char
    rw [asBytes, List.flatMap_cons, encoded] at cut
    by_cases hit : firstByte char = byte
    · rw [List.cons_append] at cut
      cases before with
      | nil => exact ⟨[], char, rest, rfl, hit, by simp, rfl⟩
      | cons other before =>
        have same : firstByte char = other := (List.cons.inj cut).1
        exact absurd (List.mem_cons.mpr (.inl (hit.symm.trans same))) missed
    · -- the byte stands behind all of this character
      have apart : byte ∉ firstByte char :: others := by
        rintro member
        rcases List.mem_cons.mp member with same | member
        · exact hit same.symm
        · exact later byte member first
      obtain ⟨after, rfl, rest_cut⟩ : ∃ after, before = firstByte char :: others ++ after ∧
          asBytes rest = after ++ byte :: behind := by
        rcases List.append_eq_append_iff.mp cut with ⟨after, same, rest_cut⟩ | ⟨tail, same, joined⟩
        · exact ⟨after, same, rest_cut⟩
        · cases tail with
          | nil => exact ⟨[], by simpa using same.symm, joined.symm⟩
          | cons other more =>
            have here : byte = other := (List.cons.inj joined).1
            exact absurd (same ▸ List.mem_append_right before (here ▸ List.mem_cons_self)) apart
      obtain ⟨front, key, back, rfl, starts, others_miss, rfl⟩ := ih after rest_cut fun member =>
        missed (List.mem_append_right _ member)
      refine ⟨char :: front, key, back, rfl, starts, ?_, ?_⟩
      · intro other member
        rcases List.mem_cons.mp member with rfl | member
        · exact hit
        · exact others_miss other member
      · rw [asBytes, asBytes, List.flatMap_cons, encoded]

end Characters

/-- What has been pushed; the pty gets it once it has been heard and the loop has taken it. -/
structure Sends (attach : Attach) (system : System) (id : Nat) (bytes : List UInt8) : Prop where
  pushed : ∃ messages, drain (decoder default) attach.connWrite = ⟨messages, .ok []⟩ ∧
    (pushesOf messages).flatten = bytes
  reached : (system.wire id).sent = attach.connWrite → Heard system id →
    system.daemon.hub.serving = true → system.daemon.hub.pushQueue = [] →
    reachedPty system id = bytes

/-- A detach is at a character, the first that starts with the byte, and what has been typed
in front of it is sent as whole characters. At the end of the input everything is. -/
structure LeavesWhole (detachChar : Option UInt8) (keys : Text)
    (result : Except IoError AttachOutcome) (attach : Attach) (system : System) (id : Nat) :
    Prop where
  detached : result = .ok .detached → ∃ front key back, keys = front ++ key :: back ∧
    detachChar = some (firstByte key) ∧
    (∀ char ∈ front, detachChar ≠ some (firstByte char)) ∧ Sends attach system id (asBytes front)
  closed : result = .ok .inputClosed →
    (∀ char ∈ keys, detachChar ≠ some (firstByte char)) ∧ Sends attach system id (asBytes keys)
  suspended : result ≠ .ok .suspended

section Loop

variable (attempt : Attempt) (detachChar : Option UInt8) (replayed : Bool)

theorem special_options (byte : UInt8) :
    special (attempt.options detachChar replayed) byte = decide (detachChar = some byte) := by
  simp only [special, Attempt.options, reduceCtorEq, decide_false, Bool.false_or,
    eq_comm (a := some byte)]

theorem outcome_options (byte : UInt8) :
    outcomeOf (attempt.options detachChar replayed) byte = .detached := by
  simp only [outcomeOf, Attempt.options, reduceCtorEq, if_false]

variable (loop : LoopRun (attempt.options detachChar replayed))

theorem loop_pushed (outcome : AttachOutcome) (result : loop.result = .ok outcome) :
    ∃ messages consumed, drain (decoder default) loop.last.connWrite = ⟨messages, .ok []⟩ ∧
      (pushesOf messages).flatten = typed (attempt.options detachChar replayed) consumed ∧
      loop.input = consumed ++ loop.last.input ∧
      Ends (attempt.options detachChar replayed) loop.last consumed outcome := by
  obtain ⟨middle, consumed, written, forwards, taken, pushes, ends⟩ :=
    loop_returned loop outcome result
  refine ⟨handshake (attempt.options detachChar replayed) ++ middle ++ farewell outcome, consumed,
    ?_, ?_, taken, ends⟩
  · rw [written]
    exact frames_decode _ middle outcome forwards.kinds
  · rw [pushes_of_sent]
    exact pushes

theorem sends_pushed (messages : List Message) (bytes : List UInt8) (system : System) (id : Nat)
    (served : Served system) (carried : Carried system)
    (decoded : drain (decoder default) loop.last.connWrite = ⟨messages, .ok []⟩)
    (pushes : (pushesOf messages).flatten = bytes) : Sends loop.last system id bytes := by
  refine ⟨⟨messages, decoded, pushes⟩, fun sent heard serving taken => ?_⟩
  have decoded : drain (decoder Connections.codec) loop.last.connWrite = ⟨messages, .ok []⟩ := decoded
  rw [reached_all system id served carried heard serving taken, sent, decoded]
  exact pushes

/-- A detach cuts the input at the first byte that is the detach character. -/
theorem detached_cut (result : loop.result = .ok .detached) :
    ∃ messages byte before behind, drain (decoder default) loop.last.connWrite = ⟨messages, .ok []⟩ ∧
      detachChar = some byte ∧ loop.input = before ++ byte :: behind ∧ byte ∉ before ∧
      (pushesOf messages).flatten = before := by
  obtain ⟨messages, consumed, decoded, pushes, taken, ends⟩ :=
    loop_pushed attempt detachChar replayed loop .detached result
  have request : requested (attempt.options detachChar replayed) consumed = some .detached := by
    rcases ends with request | ⟨_, ⟨other, _⟩ | ⟨other, _⟩⟩
    · exact request
    · cases other
    · cases other
  obtain ⟨byte, found, _⟩ := Option.map_eq_some_iff.mp request
  obtain ⟨hit, before, behind, rfl, missed⟩ := List.find?_eq_some_iff_append.mp found
  rw [special_options, decide_eq_true_eq] at hit
  refine ⟨messages, byte, before, behind ++ loop.last.input, decoded, hit, ?_, ?_, ?_⟩
  · rw [taken, List.append_assoc, List.cons_append]
  · intro member
    have other := missed byte member
    rw [special_options, hit] at other
    simp at other
  · rw [pushes, typed, List.takeWhile_append_of_pos missed, List.takeWhile_cons_of_neg,
      List.append_nil]
    rw [special_options, hit]
    simp

theorem closed_whole (result : loop.result = .ok .inputClosed) :
    ∃ messages, drain (decoder default) loop.last.connWrite = ⟨messages, .ok []⟩ ∧
      (∀ byte ∈ loop.input, detachChar ≠ some byte) ∧
      (pushesOf messages).flatten = loop.input := by
  obtain ⟨messages, consumed, decoded, pushes, taken, ends⟩ :=
    loop_pushed attempt detachChar replayed loop .inputClosed result
  rcases ends with request | ⟨nothing, ⟨_, empty⟩ | ⟨other, _⟩⟩
  · obtain ⟨byte, _, same⟩ := Option.map_eq_some_iff.mp request
    rw [outcome_options] at same
    cases same
  · have plain : ∀ byte ∈ loop.input, special (attempt.options detachChar replayed) byte = false := by
      rw [taken, empty, List.append_nil]
      exact fun byte member =>
        eq_false_of_ne_true (List.find?_eq_none.mp (Option.map_eq_none_iff.mp nothing) byte member)
    refine ⟨messages, decoded, fun byte member same => ?_, ?_⟩
    · have other := plain byte member
      rw [special_options, same] at other
      simp at other
    · rw [empty, List.append_nil] at taken
      rw [pushes, ← taken]
      exact (plain_take_while _ loop.input plain).2
  · cases other

end Loop

/-- Whatever `-e` and `-E` say: every run of a foreground attach over typed text, and every run
of the daemon. -/
theorem detach_between_characters (spec : Option Text) (noDetach : Bool) (attempt : Attempt)
    (replayed : Bool) (loop : LoopRun (attempt.options (detachCharOf spec noDetach) replayed))
    (keys : Text) (scrollback : Nat) (content : List UInt8) (logging : Option Nat)
    (daemon : Daemon) (system : System) (events : List SystemEvent) (id : Nat)
    (typing : loop.input = asBytes keys)
    (started : Daemon.start scrollback content logging = some daemon)
    (ran : run System.step (System.start daemon) events = some system) :
    LeavesWhole (detachCharOf spec noDetach) keys loop.result loop.last system id := by
  have served := served_run scrollback content logging daemon system events started ran
  have carried := carried_of_served system served
  constructor
  · intro result
    obtain ⟨messages, byte, before, behind, decoded, chosen, cut, missed, pushes⟩ :=
      detached_cut attempt _ replayed loop result
    rw [typing] at cut
    obtain ⟨front, key, back, rfl, rfl, others, rfl⟩ := cut_between_characters byte
      (detach_char_first spec noDetach byte chosen) keys before behind cut missed
    refine ⟨front, key, back, rfl, chosen, ?_, ?_⟩
    · intro char member same
      rw [chosen] at same
      exact others char member (Option.some.inj same).symm
    · exact sends_pushed attempt _ replayed loop messages _ system id served carried decoded pushes
  · intro result
    obtain ⟨messages, decoded, plain, pushes⟩ := closed_whole attempt _ replayed loop result
    rw [typing] at plain pushes
    refine ⟨fun char member => plain _ (first_byte_found char keys member), ?_⟩
    exact sends_pushed attempt _ replayed loop messages _ system id served carried decoded pushes
  · intro result
    obtain ⟨_, _, _, _, _, ends⟩ := loop_pushed attempt _ replayed loop .suspended result
    rcases ends with request | ⟨_, ⟨other, _⟩ | ⟨other, _⟩⟩
    · obtain ⟨byte, _, same⟩ := Option.map_eq_some_iff.mp request
      rw [outcome_options] at same
      cases same
    · cases other
    · cases other

/-- `-e é`, and an `è` is typed: both start with the same byte. -/
def accented : LoopRun (lostAttempt.options (detachCharOf (some ['é']) false) true) where
  input := asBytes ['a', 'è']
  connRead := []
  resizeEvents := []
  events := [.handshake, .handshake, .input 3]
  last :=
    { phase := .returned .detached
      input := []
      connRead := []
      resizeEvents := []
      connWrite := [1, 0, 0, 0, 1, 1, 4, 0, 0, 0, 5, 3, 0, 24, 0, 80, 0, 0, 0, 0, 1, 0x61]
      output := [] }
  result := .ok .detached
  ran := rfl
  ended := rfl

def accentsTaken : List SystemEvent :=
  [.daemon (.connects 0), .daemon (.select 0), .peerWrites 0 accented.last.connWrite,
    .fill 0 22, .next 0, .next 0, .daemon (.task (.enqueue 0)), .next 0,
    .daemon (.task (.enqueue 0)), .daemon (.select 0), .daemon (.select 0),
    .daemon (.ptyWrite 1), .daemon (.writeEnds .completed)]

set_option maxRecDepth 2000 in
theorem detach_between_characters_accented : ∃ system,
    run System.step (System.start idle) accentsTaken = some system ∧
      system.daemon.pty.input = [0x61] ∧
      LeavesWhole (some 0xc3) ['a', 'è'] (.ok .detached) accented.last system 0 := by
  refine ⟨_, rfl, rfl, ?_⟩
  exact detach_between_characters (some ['é']) false lostAttempt true accented ['a', 'è'] 8 [] none
    idle _ accentsTaken 0 rfl start_idle rfl

end Hytch.DetachKeys
