import Hytch.LogHistory

/-!
Terminal output as a sequence of tokens, and the places between them. A token
carries the proof that it is well formed. `Shape` is what the trim can tell
about a token: either characters continue through it or it is one escape
sequence, closed at its last byte and not before.
-/

namespace Hytch.LogBoundaries

open SafeTrim LogHistory

def csiIntroducer : UInt8 := 0x5b

inductive Token where
  | char (scalar : Char) (other : scalar.toNat ≠ 0x1b)
  | csi (params : List UInt8) (final : UInt8)
      (parameters : ∀ byte ∈ params, 0x20 ≤ byte ∧ byte ≤ 0x3f)
      (ends : 0x40 ≤ final ∧ final ≤ 0x7e) (short : params.length + 3 ≤ 64)
  | twoByte (byte : UInt8) (range : 0x30 ≤ byte ∧ byte ≤ 0x7e) (other : byte ≠ csiIntroducer)

def Token.bytes : Token → List UInt8
  | .char scalar _ => String.utf8EncodeChar scalar
  | .csi params final _ _ _ => esc :: csiIntroducer :: (params ++ [final])
  | .twoByte byte _ _ => [esc, byte]

def tokenBytes (tokens : List Token) : List UInt8 := (tokens.map Token.bytes).flatten

inductive Shape : List UInt8 → Prop where
  | character {lead : UInt8} {rest : List UInt8} (starts : isContinuation lead = false)
      (plain : lead ≠ esc) (continues : ∀ byte ∈ rest, isContinuation byte = true)
      (short : rest.length ≤ 3) : Shape (lead :: rest)
  | sequence {rest : List UInt8} (plain : ∀ byte ∈ rest, byte ≠ esc) (short : rest.length < 64)
      (closed : escapeSequenceTerminated (esc :: rest) = true)
      (opened : ∀ cut, 0 < cut → cut < (esc :: rest).length →
        escapeSequenceTerminated ((esc :: rest).take cut) = false) : Shape (esc :: rest)

theorem encoded_shape (scalar : Char) (other : scalar.toNat ≠ 0x1b) :
    Shape (String.utf8EncodeChar scalar) := by
  have bound : scalar.val.toNat < 0x110000 := by
    have := scalar.valid
    rcases this with low | ⟨_, high⟩
    · exact Nat.lt_trans low (by decide)
    · exact high
  have not_continuation (value : Nat) (range : value < 0x80 ∨ 0xc0 ≤ value) (byte : value < 256) :
      isContinuation (UInt8.ofNat value) = false := by
    rw [Bool.eq_false_iff, Ne, isContinuation_iff, UInt8.toNat_ofNat', Nat.mod_eq_of_lt byte]
    omega
  have continuation (value : Nat) (range : 0x80 ≤ value ∧ value ≤ 0xbf) :
      isContinuation (UInt8.ofNat value) = true := by
    rw [isContinuation_iff, UInt8.toNat_ofNat', Nat.mod_eq_of_lt (by omega)]
    exact range
  have not_esc (value : Nat) (differs : value ≠ 0x1b) (byte : value < 256) :
      UInt8.ofNat value ≠ esc := by
    intro same
    have := congrArg UInt8.toNat same
    rw [UInt8.toNat_ofNat', Nat.mod_eq_of_lt byte] at this
    exact differs this
  have value : scalar.toNat = scalar.val.toNat := rfl
  unfold String.utf8EncodeChar
  simp only
  split
  · exact .character (not_continuation _ (by omega) (by omega)) (not_esc _ (by omega) (by omega))
      (by simp) (by simp)
  · split
    · refine .character (not_continuation _ (by omega) (by omega)) (not_esc _ (by omega) (by omega))
        ?_ (by simp)
      simp only [List.mem_singleton, forall_eq]
      exact continuation _ (by omega)
    · split
      · refine .character (not_continuation _ (by omega) (by omega)) (not_esc _ (by omega) (by omega))
          ?_ (by simp)
        simp only [List.mem_cons, List.not_mem_nil, or_false, forall_eq_or_imp, forall_eq]
        exact ⟨continuation _ (by omega), continuation _ (by omega)⟩
      · refine .character (not_continuation _ (by omega) (by omega)) (not_esc _ (by omega) (by omega))
          ?_ (by simp)
        simp only [List.mem_cons, List.not_mem_nil, or_false, forall_eq_or_imp, forall_eq]
        exact ⟨continuation _ (by omega), continuation _ (by omega), continuation _ (by omega)⟩

theorem csi_shape (params : List UInt8) (final : UInt8)
    (parameters : ∀ byte ∈ params, 0x20 ≤ byte ∧ byte ≤ 0x3f)
    (ends : 0x40 ≤ final ∧ final ≤ 0x7e) (short : params.length + 3 ≤ 64) :
    Shape (esc :: csiIntroducer :: (params ++ [final])) := by
  have not_final (byte : UInt8) (param : 0x20 ≤ byte ∧ byte ≤ 0x3f) :
      (0x40 ≤ byte && byte ≤ 0x7e) = false := by
    have := UInt8.le_iff_toNat_le.mp param.2
    have later : ¬ (0x40 : UInt8) ≤ byte := by
      rw [UInt8.le_iff_toNat_le]
      exact Nat.not_le.mpr (Nat.lt_of_le_of_lt this (by decide))
    simp [later]
  apply Shape.sequence
  · intro byte member same
    subst same
    simp only [List.mem_cons, List.mem_append, List.not_mem_nil, or_false] at member
    rcases member with introducer | param | is_final
    · exact absurd introducer (by decide)
    · exact absurd (parameters _ param).1 (by decide)
    · rw [← is_final] at ends
      exact absurd ends.1 (by decide)
  · simp only [List.length_cons, List.length_append, List.length_nil]
    omega
  · simp [escapeSequenceTerminated, csiIntroducer, ends]
  · intro cut positive before
    match cut with
    | 1 => rfl
    | cut + 2 =>
      have inside : cut ≤ params.length := by
        simp only [List.length_cons, List.length_append, List.length_nil] at before
        omega
      simp only [escapeSequenceTerminated, List.take_succ_cons, List.getElem?_cons_succ,
        List.getElem?_cons_zero, csiIntroducer, if_true, List.drop_succ_cons, List.drop_zero,
        List.take_append_of_le_length inside, List.any_eq_false]
      intro byte member
      simpa using not_final byte (parameters byte (List.mem_of_mem_take member))

theorem token_shape (token : Token) : Shape token.bytes := by
  cases token with
  | char scalar other => exact encoded_shape scalar other
  | csi params final parameters ends short => exact csi_shape params final parameters ends short
  | twoByte byte range other =>
    apply Shape.sequence
    · intro other_byte member same
      rw [List.mem_singleton] at member
      rw [← member, same] at range
      exact absurd range.1 (by decide)
    · simp
    · simp only [escapeSequenceTerminated, List.getElem?_cons_succ, List.getElem?_cons_zero]
      exact if_neg other
    · intro cut positive before
      have one : cut = 1 := by
        simp only [List.length_cons, List.length_nil] at before
        omega
      rw [one]
      rfl

theorem token_bytes_start (tokens : List Token) (byte : UInt8)
    (first : (tokenBytes tokens)[0]? = some byte) : isContinuation byte = false := by
  cases tokens with
  | nil => cases first
  | cons token rest =>
    have shape := token_shape token
    rw [tokenBytes, List.map_cons, List.flatten_cons] at first
    generalize token.bytes = bytes at shape first
    cases shape with
    | character starts plain continues short =>
      cases first
      exact starts
    | sequence plain short closed opened =>
      cases first
      exact isContinuation_esc

theorem none_open_in_token (bytes more : List UInt8) (cut position : Nat) (shape : Shape bytes)
    (complete : bytes.length ≤ cut) (opened : OpenEscape (bytes ++ more) cut position) :
    bytes.length ≤ position := by
  by_contra before
  have starts := opened.starts
  rw [List.getElem?_append_left (by omega)] at starts
  have member := List.mem_of_getElem? starts
  cases shape with
  | character lead_starts plain continues short =>
    rcases List.mem_cons.mp member with same | later
    · exact plain same.symm
    · have continued := continues esc later
      rw [isContinuation_esc] at continued
      cases continued
  | @sequence rest plain short closed opens =>
    cases position with
    | succ position => exact plain esc (List.mem_of_getElem? (by simpa using starts)) rfl
    | zero =>
      have unterminated := opened.unterminated
      have whole : (((esc :: rest ++ more).drop 0).take (cut - 0)).take (esc :: rest).length =
          esc :: rest := by
        rw [List.drop_zero, Nat.sub_zero, List.take_take, Nat.min_eq_left complete, List.take_left]
      rw [terminated_take _ (esc :: rest).length (by rw [whole]; exact closed)] at unterminated
      cases unterminated

theorem initial_getElem (stream whole : List UInt8) (initial : stream <+: whole) (position : Nat)
    (bound : position < stream.length) : stream[position]? = whole[position]? := by
  obtain ⟨tail, same⟩ := initial
  rw [← same, List.getElem?_append_left bound]

theorem cut_in_character (lead : UInt8) (rest more stream : List UInt8) (cut : Nat)
    (plain : lead ≠ esc) (continues : ∀ byte ∈ rest, isContinuation byte = true)
    (short : rest.length ≤ 3) (inside : 0 < cut) (before : cut < (lead :: rest).length)
    (of_token : stream <+: lead :: rest ++ more) (room : cut + 4 ≤ stream.length)
    (next : ∀ byte, more[0]? = some byte → isContinuation byte = false) :
    TrimPoint stream cut (lead :: rest).length := by
  have at_position := initial_getElem stream (lead :: rest ++ more) of_token
  rw [List.length_cons] at before
  have rest_at (position : Nat) (positive : 0 < position) (bound : position < rest.length + 1) :
      ∃ byte, stream[position]? = some byte ∧ byte ∈ rest := by
    refine ⟨rest[position - 1], ?_, List.getElem_mem _⟩
    rw [at_position position (by omega), List.getElem?_append_left (by rw [List.length_cons]; omega),
      List.getElem?_cons, if_neg (by omega), List.getElem?_eq_getElem]
  refine .character ?_ ?_
  · intro position opened
    have early := opened.before
    cases position with
    | zero =>
      have first := opened.starts
      rw [at_position 0 (by omega)] at first
      exact plain (by simpa using first)
    | succ position =>
      obtain ⟨byte, there, member⟩ := rest_at (position + 1) (by omega) (by omega)
      rw [opened.starts] at there
      cases there
      have continued := continues esc member
      rw [isContinuation_esc] at continued
      cases continued
  · constructor
    · rw [List.length_cons]
      omega
    · rw [List.length_cons]
      omega
    · intro position from_cut bound
      rw [List.length_cons] at bound
      obtain ⟨byte, there, member⟩ := rest_at position (by omega) bound
      exact ⟨byte, there, continues byte member⟩
    · intro byte there
      rw [List.length_cons] at there
      by_cases ended : rest.length + 1 < stream.length
      · rw [at_position _ ended, List.getElem?_append_right (by simp)] at there
        exact next byte (by simpa using there)
      · rw [List.getElem?_eq_none (by omega)] at there
        cases there

theorem cut_in_sequence (rest more stream : List UInt8) (cut : Nat)
    (plain : ∀ byte ∈ rest, byte ≠ esc) (short : rest.length < 64)
    (opens : ∀ cut, 0 < cut → cut < (esc :: rest).length →
      escapeSequenceTerminated ((esc :: rest).take cut) = false)
    (inside : 0 < cut) (before : cut < (esc :: rest).length)
    (of_token : stream <+: esc :: rest ++ more) (room : cut + 4 ≤ stream.length) :
    TrimPoint stream cut 0 := by
  have at_position := initial_getElem stream (esc :: rest ++ more) of_token
  apply TrimPoint.escape
  constructor
  · exact inside
  · rw [List.length_cons] at before
    simp only [escapeLookback]
    omega
  · rw [at_position 0 (by omega)]
    rfl
  · intro later after early found
    rw [at_position later (by omega), List.getElem?_append_left (by omega)] at found
    cases later with
    | zero => omega
    | succ later => exact plain esc (List.mem_of_getElem? (by simpa using found)) rfl
  · have same : (stream.drop 0).take (cut - 0) = (esc :: rest).take cut := by
      obtain ⟨tail, split⟩ := of_token
      have shorter := congrArg (List.take cut) split
      rw [List.take_append_of_le_length (by omega), List.take_append_of_le_length (by omega)]
        at shorter
      simpa using shorter
    rw [same]
    exact opens cut inside before

/-- A cut inside a token, with room behind it, moves to one of the token's ends. -/
theorem cut_in_token (bytes more : List UInt8) (cut : Nat) (shape : Shape bytes)
    (inside : 0 < cut) (before : cut < bytes.length) (stream : List UInt8)
    (of_token : stream <+: bytes ++ more) (room : cut + 4 ≤ stream.length)
    (next : ∀ byte, more[0]? = some byte → isContinuation byte = false) :
    TrimPoint stream cut 0 ∨ TrimPoint stream cut bytes.length := by
  cases shape with
  | @character lead rest starts plain continues short =>
    exact .inr (cut_in_character lead rest more stream cut plain continues short inside before of_token
      room next)
  | @sequence rest plain short closed opens =>
    exact .inl (cut_in_sequence rest more stream cut plain short opens inside before of_token room)

/-- A cut at least four bytes before the end of the stream lands between tokens. -/
theorem trim_point_is_boundary (tokens : List Token) (stream : List UInt8) (cut point : Nat)
    (of_tokens : stream <+: tokenBytes tokens) (room : cut + 4 ≤ stream.length)
    (trims : TrimPoint stream cut point) :
    ∃ count, count ≤ tokens.length ∧ point = (tokenBytes (tokens.take count)).length := by
  -- tokens in front of the cut are dropped one by one, with the stream
  induction tokens generalizing stream cut point with
  | nil =>
    rw [tokenBytes, List.map_nil, List.flatten_nil, List.prefix_nil] at of_tokens
    simp [of_tokens] at room
  | cons token rest ih =>
    have shape := token_shape token
    have bytes_cons : tokenBytes (token :: rest) = token.bytes ++ tokenBytes rest := by
      simp [tokenBytes]
    rw [bytes_cons] at of_tokens
    by_cases past : token.bytes.length ≤ cut
    · -- the token is complete before the cut
      obtain ⟨tail, same⟩ : token.bytes <+: stream :=
        List.prefix_of_prefix_length_le (List.prefix_append _ _) of_tokens (by omega)
      subst same
      rw [List.length_append] at room
      obtain ⟨later, _, later_trims⟩ := safe_trim_start_meets tail (cut - token.bytes.length) (by omega)
      have shifted := trim_point_shift (token.bytes ++ tail) token.bytes.length
        (cut - token.bytes.length) later (by simp) (fun position opened => by
          rw [Nat.add_sub_cancel' past] at opened
          exact none_open_in_token token.bytes tail cut position shape past opened)
        (by rwa [List.drop_left])
      rw [Nat.add_sub_cancel' past] at shifted
      obtain ⟨count, bound, boundary⟩ := ih tail _ later
        ((List.prefix_append_right_inj token.bytes).mp of_tokens) (by omega) later_trims
      refine ⟨count + 1, by simpa using bound, ?_⟩
      rw [trim_point_unique _ cut point _ trims shifted, boundary, List.take_succ_cons]
      simp [tokenBytes]
    · rcases Nat.eq_zero_or_pos cut with start | inside
      · subst start
        have here : TrimPoint stream 0 0 := by
          refine .character (fun position opened => absurd opened.before (Nat.not_lt_zero _)) ?_
          constructor
          · exact Nat.le_refl _
          · exact Nat.zero_le _
          · intro position _ before
            exact absurd before (Nat.not_lt_zero _)
          · intro byte first
            apply token_bytes_start (token :: rest) byte
            obtain ⟨tail, same⟩ := of_tokens
            rw [bytes_cons, ← same, List.getElem?_append_left (by omega)]
            exact first
        exact ⟨0, Nat.zero_le _, trim_point_unique stream 0 point 0 trims here⟩
      · rcases cut_in_token token.bytes (tokenBytes rest) cut shape inside (by omega) stream of_tokens
          room (token_bytes_start rest) with front | behind
        · exact ⟨0, Nat.zero_le _, trim_point_unique stream cut point 0 trims front⟩
        · refine ⟨1, by simp, ?_⟩
          rw [trim_point_unique stream cut point _ trims behind]
          simp [tokenBytes]

/-- The content is the stream from a place between two tokens on. -/
def AtBoundary (tokens : List Token) (stream content : List UInt8) : Prop :=
  ∃ count, count ≤ tokens.length ∧ (tokenBytes (tokens.take count)).length ≤ stream.length ∧
    content = stream.drop (tokenBytes (tokens.take count)).length

theorem token_bytes_split (tokens : List Token) (count : Nat) :
    tokenBytes tokens = tokenBytes (tokens.take count) ++ tokenBytes (tokens.drop count) := by
  rw [tokenBytes, tokenBytes, tokenBytes, ← List.flatten_append, ← List.map_append,
    List.take_append_drop]

/-- One trim of a log that starts at a boundary leaves it at a boundary. -/
theorem boundary_trimmed (tokens : List Token) (stream content : List UInt8) (cap count : Nat)
    (enough : 4 ≤ cap) (of_tokens : stream <+: tokenBytes tokens)
    (boundary : AtBoundary tokens stream content) (drops : Drops id cap content count) :
    AtBoundary tokens stream (content.drop count) := by
  cases drops with
  | fits small => simpa using boundary
  | trims large trims =>
    obtain ⟨passed, bound, inside, rfl⟩ := boundary
    rw [List.map_id] at trims
    have of_later : stream.drop (tokenBytes (tokens.take passed)).length <+:
        tokenBytes (tokens.drop passed) := by
      rw [token_bytes_split tokens passed] at of_tokens
      obtain ⟨tail, same⟩ := of_tokens
      refine ⟨tail, ?_⟩
      have shorter := congrArg (List.drop (tokenBytes (tokens.take passed)).length) same
      rwa [List.drop_left, List.drop_append_of_le_length inside] at shorter
    obtain ⟨more, later_bound, point⟩ := trim_point_is_boundary (tokens.drop passed) _ _ count
      of_later (by omega) trims
    have advance : (tokenBytes (tokens.take (passed + more))).length =
        (tokenBytes (tokens.take passed)).length + count := by
      rw [point, List.take_add]
      simp [tokenBytes]
    have dropped := trim_point_inside _ _ count trims
    rw [List.length_drop] at later_bound dropped
    refine ⟨passed + more, by omega, by omega, ?_⟩
    rw [List.drop_drop, advance]

theorem append_all_boundary (tokens : List Token) (cap : Nat) (log : SessionLog)
    (file : FilePrograms.File UInt8) (stream content : List UInt8) (chunks : List (List UInt8))
    (enough : 4 ≤ cap) (same : log.maxSize = cap) (holds : log.Holds file content)
    (of_tokens : stream ++ chunks.flatten <+: tokenBytes tokens)
    (boundary : AtBoundary tokens stream content) :
    ∃ after, appendAll id log file chunks = some (atEnd after) ∧
      AtBoundary tokens (stream ++ chunks.flatten) after := by
  induction chunks generalizing log file stream content with
  | nil => exact ⟨content, by rw [appendAll, holds.file], by simpa using boundary⟩
  | cons chunk rest ih =>
    obtain ⟨count, grown, drops, ran, kept, held⟩ := log.append_exec id file content chunk holds
    rw [same] at drops kept
    rw [List.flatten_cons, ← List.append_assoc] at of_tokens ⊢
    have longer : AtBoundary tokens (stream ++ chunk) (content ++ chunk) := by
      obtain ⟨passed, bound, inside, rfl⟩ := boundary
      refine ⟨passed, bound, ?_, (List.drop_append_of_le_length inside).symm⟩
      exact Nat.le_trans inside (by rw [List.length_append]; exact Nat.le_add_right _ _)
    have trimmed := boundary_trimmed tokens (stream ++ chunk) (content ++ chunk) cap count enough
      ((List.prefix_append _ _).trans of_tokens) longer drops
    rw [appendAll, ran]
    exact ih grown _ (stream ++ chunk) _ kept held of_tokens trimmed

/-- After the open and after any number of appends the log is the stream so far
from a place between two tokens on. -/
theorem log_starts_at_boundary (tokens : List Token) (initial : List UInt8) (cap : Nat)
    (chunks : List (List UInt8)) (enough : 4 ≤ cap)
    (of_tokens : initial ++ chunks.flatten <+: tokenBytes tokens) :
    ∃ content, useLog id initial { cap := cap, chunks := chunks } = some content ∧
      AtBoundary tokens (initial ++ chunks.flatten) content := by
  obtain ⟨count, log, drops, opened, same, holds⟩ := SessionLog.open_exec id cap
    ({ content := initial, cursor := 0 } : FilePrograms.File UInt8)
  have whole : AtBoundary tokens initial initial := ⟨0, Nat.zero_le _, Nat.zero_le _, rfl⟩
  have trimmed := boundary_trimmed tokens initial initial cap count enough
    ((List.prefix_append _ _).trans of_tokens) whole drops
  obtain ⟨content, appended, boundary⟩ := append_all_boundary tokens cap log _ initial _ chunks enough
    same holds of_tokens trimmed
  refine ⟨content, ?_, boundary⟩
  rw [useLog, opened]
  simp only [appended]
  rfl

/-- A two-byte character, an SGR sequence and two letters under a cap of four,
split inside the sequence. -/
theorem log_starts_at_boundary_split_escape :
    ∃ tokens, tokenBytes tokens = [0xc3, 0xa9, 0x1b, 0x5b, 0x31, 0x6d, 0x61, 0x62] ∧
      ∃ content, useLog id [0xc3, 0xa9, 0x1b]
          { cap := 4, chunks := [[0x5b, 0x31], [0x6d, 0x61, 0x62]] } = some content ∧
        AtBoundary tokens [0xc3, 0xa9, 0x1b, 0x5b, 0x31, 0x6d, 0x61, 0x62] content := by
  refine ⟨[.char (Char.ofNat 0xe9) (by decide), .csi [0x31] 0x6d (by simp) (by simp) (by simp),
    .char (Char.ofNat 0x61) (by decide), .char (Char.ofNat 0x62) (by decide)], rfl, ?_⟩
  exact log_starts_at_boundary _ [0xc3, 0xa9, 0x1b] 4 [[0x5b, 0x31], [0x6d, 0x61, 0x62]] (by decide)
    (List.prefix_refl _)

end Hytch.LogBoundaries
