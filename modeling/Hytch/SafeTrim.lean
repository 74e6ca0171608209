import Hytch.BoundedTail

/-!
Where `session_log.rs` may cut a log. `safeTrimStart` and its helpers are the
code; `TrimPoint` says the same in positions of the whole stream, so that a cut
found in a 64-byte window can be compared with the cut of a longer stream.
-/

namespace Hytch.SafeTrim

open BoundedTail

def escapeLookback : Nat := 64

def esc : UInt8 := 0x1b

def isContinuation (byte : UInt8) : Bool := byte &&& 0xc0 == 0x80

/-- `iter().rposition(..)`: the index of the last match. -/
def rposition (found : UInt8 → Bool) : List UInt8 → Option Nat
  | [] => none
  | byte :: rest =>
      match rposition found rest with
      | some index => some (index + 1)
      | none => if found byte then some 0 else none

def escapeSequenceTerminated (seq : List UInt8) : Bool :=
  match seq[1]? with
  | some byte =>
      if byte = 0x5b then (seq.drop 2).any fun byte => 0x40 ≤ byte && byte ≤ 0x7e else true
  | none => false

/-- The loop over `start`; the list is what follows it in the buffer. -/
def skipContinuation : List UInt8 → Nat → Nat
  | [], start => start
  | byte :: rest, start =>
      if isContinuation byte then skipContinuation rest (start + 1) else start

/-- `none` is an index out of bounds. -/
def safeTrimStart (buf : List UInt8) (naiveCut : Nat) : Option Nat := do
  let lookbackStart := naiveCut - escapeLookback
  let window ← slice? buf lookbackStart naiveCut
  match (rposition (fun byte => byte == esc) window).map (lookbackStart + ·) with
  | some escPos =>
      let seq ← slice? buf escPos naiveCut
      if !escapeSequenceTerminated seq then some escPos
      else some (skipContinuation (buf.drop naiveCut) naiveCut)
  | none => some (skipContinuation (buf.drop naiveCut) naiveCut)

/-- The last ESC before the cut is near it and its sequence is still open. -/
structure OpenEscape (stream : List UInt8) (cut position : Nat) : Prop where
  before : position < cut
  near : cut ≤ position + escapeLookback
  starts : stream[position]? = some esc
  last : ∀ later, position < later → later < cut → stream[later]? ≠ some esc
  unterminated : escapeSequenceTerminated ((stream.drop position).take (cut - position)) = false

/-- `stop` is the first position from the cut on that no character continues through. -/
structure SkipsTo (stream : List UInt8) (cut stop : Nat) : Prop where
  forward : cut ≤ stop
  inside : stop ≤ stream.length
  continues : ∀ position, cut ≤ position → position < stop →
    ∃ byte, stream[position]? = some byte ∧ isContinuation byte = true
  stops : ∀ byte, stream[stop]? = some byte → isContinuation byte = false

inductive TrimPoint (stream : List UInt8) (cut : Nat) : Nat → Prop where
  | escape {position : Nat} (opened : OpenEscape stream cut position) :
      TrimPoint stream cut position
  | character {stop : Nat} (closed : ∀ position, ¬ OpenEscape stream cut position)
      (skips : SkipsTo stream cut stop) : TrimPoint stream cut stop

theorem isContinuation_iff (byte : UInt8) :
    isContinuation byte = true ↔ 0x80 ≤ byte.toNat ∧ byte.toNat ≤ 0xbf := by
  have all : ∀ value : Fin 256, isContinuation (UInt8.ofNat value.val) = true ↔
      0x80 ≤ value.val ∧ value.val ≤ 0xbf := by decide +kernel
  have bound := byte.toNat_lt
  have here := all ⟨byte.toNat, bound⟩
  rwa [UInt8.ofNat_toNat] at here

theorem isContinuation_esc : isContinuation esc = false := by decide

section Rposition

variable (found : UInt8 → Bool)

theorem rposition_none (bytes : List UInt8) (missing : rposition found bytes = none)
    (index : Nat) (byte : UInt8) (there : bytes[index]? = some byte) : found byte = false := by
  induction bytes generalizing index with
  | nil => simp at there
  | cons first rest ih =>
    simp only [rposition] at missing
    split at missing
    · cases missing
    · rename_i none_later
      split at missing
      · cases missing
      · cases index with
        | zero => simp_all
        | succ index => exact ih none_later index (by simpa using there)

theorem rposition_some (bytes : List UInt8) (index : Nat) (at_index : rposition found bytes = some index) :
    (∃ byte, bytes[index]? = some byte ∧ found byte = true) ∧
      ∀ later byte, index < later → bytes[later]? = some byte → found byte = false := by
  induction bytes generalizing index with
  | nil => cases at_index
  | cons first rest ih =>
    simp only [rposition] at at_index
    split at at_index
    · rename_i position later_match
      cases at_index
      obtain ⟨present, none_later⟩ := ih position later_match
      constructor
      · simpa using present
      · intro later byte after there
        cases later with
        | zero => omega
        | succ later => exact none_later later byte (by omega) (by simpa using there)
    · rename_i none_later
      split at at_index
      · cases at_index
        constructor
        · exact ⟨first, rfl, ‹_›⟩
        · intro later byte after there
          cases later with
          | zero => omega
          | succ later => exact rposition_none found rest none_later later byte (by simpa using there)
      · cases at_index

end Rposition

theorem terminated_take (seq : List UInt8) (count : Nat)
    (closed : escapeSequenceTerminated (seq.take count) = true) :
    escapeSequenceTerminated seq = true := by
  unfold escapeSequenceTerminated at *
  cases second : (seq.take count)[1]? with
  | none => simp [second] at closed
  | some byte =>
    have room : 1 < count := by
      by_contra short
      rw [List.getElem?_take_eq_none (by omega)] at second
      cases second
    rw [List.getElem?_take_of_lt room] at second
    simp only [List.getElem?_take_of_lt room, second] at closed ⊢
    split
    · rename_i csi
      rw [if_pos csi, List.drop_take] at closed
      obtain ⟨final, member, range⟩ := List.any_eq_true.mp closed
      exact List.any_eq_true.mpr ⟨final, List.mem_of_mem_take member, range⟩
    · rfl

theorem skip_continuation_stops (bytes : List UInt8) (start : Nat) :
    ∃ count, skipContinuation bytes start = start + count ∧ SkipsTo bytes 0 count := by
  induction bytes generalizing start with
  | nil => exact ⟨0, rfl, by constructor <;> simp⟩
  | cons byte rest ih =>
    by_cases continues : isContinuation byte = true
    · obtain ⟨count, same, skips⟩ := ih (start + 1)
      refine ⟨count + 1, ?_, ?_⟩
      · rw [skipContinuation, if_pos continues, same]
        omega
      · constructor
        · exact Nat.zero_le _
        · simpa using skips.inside
        · intro position _ before
          cases position with
          | zero => exact ⟨byte, rfl, continues⟩
          | succ position => simpa using skips.continues position (Nat.zero_le _) (by omega)
        · simpa using skips.stops
    · refine ⟨0, by simp [skipContinuation, continues], ?_⟩
      constructor <;> simp_all

theorem skips_shift (stream : List UInt8) (start cut stop : Nat) (inside : start ≤ stream.length) :
    SkipsTo (stream.drop start) cut stop ↔ SkipsTo stream (start + cut) (start + stop) := by
  constructor
  · intro skips
    constructor
    · have := skips.forward
      omega
    · have := skips.inside
      rw [List.length_drop] at this
      omega
    · intro position from_cut before
      have there := skips.continues (position - start) (by omega) (by omega)
      rwa [List.getElem?_drop, Nat.add_sub_cancel' (by omega)] at there
    · intro byte there
      exact skips.stops byte (by rwa [List.getElem?_drop])
  · intro skips
    constructor
    · have := skips.forward
      omega
    · have := skips.inside
      rw [List.length_drop]
      omega
    · intro position from_cut before
      rw [List.getElem?_drop]
      exact skips.continues (start + position) (by omega) (by omega)
    · intro byte there
      rw [List.getElem?_drop] at there
      exact skips.stops byte there

theorem open_escape_shift (stream : List UInt8) (start cut position : Nat) :
    OpenEscape (stream.drop start) cut position ↔
      OpenEscape stream (start + cut) (start + position) := by
  have same : start + cut - (start + position) = cut - position := by omega
  constructor
  · intro opened
    constructor
    · exact Nat.add_lt_add_left opened.before start
    · have := opened.near
      omega
    · simpa [List.getElem?_drop] using opened.starts
    · intro later after before
      have none_there := opened.last (later - start) (by omega) (by omega)
      rwa [List.getElem?_drop, Nat.add_sub_cancel' (by omega)] at none_there
    · simpa [same, List.drop_drop] using opened.unterminated
  · intro opened
    constructor
    · exact Nat.lt_of_add_lt_add_left opened.before
    · have := opened.near
      omega
    · simpa [List.getElem?_drop] using opened.starts
    · intro later after before
      rw [List.getElem?_drop]
      exact opened.last (start + later) (by omega) (by omega)
    · simpa [same, List.drop_drop] using opened.unterminated

theorem open_escape_unique (stream : List UInt8) (cut first second : Nat)
    (one : OpenEscape stream cut first) (two : OpenEscape stream cut second) : first = second := by
  rcases Nat.lt_trichotomy first second with before | same | after
  · exact absurd two.starts (one.last second before two.before)
  · exact same
  · exact absurd one.starts (two.last first after one.before)

theorem skips_unique (stream : List UInt8) (cut first second : Nat)
    (one : SkipsTo stream cut first) (two : SkipsTo stream cut second) : first = second := by
  have no_later : ∀ first second, SkipsTo stream cut first → SkipsTo stream cut second →
      ¬ first < second := by
    intro first second one two before
    obtain ⟨byte, there, continues⟩ := two.continues first one.forward before
    rw [one.stops byte there] at continues
    cases continues
  have := no_later first second one two
  have := no_later second first two one
  omega

theorem trim_point_unique (stream : List UInt8) (cut first second : Nat)
    (one : TrimPoint stream cut first) (two : TrimPoint stream cut second) : first = second := by
  cases one with
  | escape one =>
    cases two with
    | escape two => exact open_escape_unique stream cut first second one two
    | character closed two => exact absurd one (closed first)
  | character closed one =>
    cases two with
    | escape two => exact absurd two (closed second)
    | character _ two => exact skips_unique stream cut first second one two

theorem trim_point_inside (stream : List UInt8) (cut point : Nat) (trims : TrimPoint stream cut point) :
    point ≤ stream.length := by
  cases trims with
  | escape opened =>
    by_contra beyond
    have starts := opened.starts
    rw [List.getElem?_eq_none (by omega)] at starts
    cases starts
  | character closed skips => exact skips.inside

/-- Dropping bytes in front of the cut moves its trim point along, provided no
open escape sequence was among them. -/
theorem trim_point_shift (stream : List UInt8) (start cut point : Nat)
    (inside : start ≤ stream.length)
    (none_before : ∀ position, OpenEscape stream (start + cut) position → start ≤ position)
    (trims : TrimPoint (stream.drop start) cut point) :
    TrimPoint stream (start + cut) (start + point) := by
  cases trims with
  | escape opened => exact .escape ((open_escape_shift stream start cut point).mp opened)
  | character closed skips =>
    refine .character ?_ ((skips_shift stream start cut point inside).mp skips)
    intro position opened
    have from_start := none_before position opened
    apply closed (position - start)
    rw [open_escape_shift, Nat.add_sub_cancel' from_start]
    exact opened

/-- `safeTrimStart` finds the trim point of its buffer and never panics. -/
theorem safe_trim_start_meets (buf : List UInt8) (naiveCut : Nat) (inside : naiveCut ≤ buf.length) :
    ∃ start, safeTrimStart buf naiveCut = some start ∧ TrimPoint buf naiveCut start := by
  obtain ⟨count, skipped, skips⟩ := skip_continuation_stops (buf.drop naiveCut) naiveCut
  have forward : SkipsTo buf naiveCut (naiveCut + count) :=
    (skips_shift buf naiveCut 0 count inside).mp skips
  have window : slice? buf (naiveCut - escapeLookback) naiveCut =
      some ((buf.drop (naiveCut - escapeLookback)).take (naiveCut - (naiveCut - escapeLookback))) := by
    simp [slice?, inside]
  have in_window (index : Nat) (there : naiveCut - escapeLookback ≤ index) (before : index < naiveCut) :
      ((buf.drop (naiveCut - escapeLookback)).take
        (naiveCut - (naiveCut - escapeLookback)))[index - (naiveCut - escapeLookback)]? =
        buf[index]? := by
    rw [List.getElem?_take_of_lt (by omega), List.getElem?_drop, Nat.add_sub_cancel' there]
  simp only [safeTrimStart, window, Option.bind_eq_bind, Option.bind_some]
  cases located : rposition (fun byte => byte == esc) ((buf.drop (naiveCut - escapeLookback)).take
      (naiveCut - (naiveCut - escapeLookback))) with
  | none =>
    -- an open escape would be an ESC inside the window
    refine ⟨naiveCut + count, by simp [skipped], .character ?_ forward⟩
    intro position opened
    have absent := rposition_none _ _ located (position - (naiveCut - escapeLookback)) esc
      (by rw [in_window position (by have := opened.near; omega) opened.before]; exact opened.starts)
    simp at absent
  | some index =>
    obtain ⟨⟨byte, there, is_esc⟩, none_later⟩ := rposition_some _ _ index located
    have short : index < naiveCut - (naiveCut - escapeLookback) := by
      by_contra beyond
      rw [List.getElem?_take_eq_none (by omega)] at there
      cases there
    have starts : buf[naiveCut - escapeLookback + index]? = some esc := by
      rw [← in_window _ (by omega) (by omega), Nat.add_sub_cancel_left, there]
      simpa using is_esc
    have last : ∀ later, naiveCut - escapeLookback + index < later → later < naiveCut →
        buf[later]? ≠ some esc := by
      intro later after before found
      have other := none_later (later - (naiveCut - escapeLookback)) esc (by omega)
        (by rw [in_window later (by omega) before]; exact found)
      simp at other
    have seq : slice? buf (naiveCut - escapeLookback + index) naiveCut =
        some ((buf.drop (naiveCut - escapeLookback + index)).take
          (naiveCut - (naiveCut - escapeLookback + index))) := by
      rw [slice?, if_pos ⟨by omega, inside⟩]
    simp only [Option.map_some, seq, Option.bind_some]
    cases closed : escapeSequenceTerminated ((buf.drop (naiveCut - escapeLookback + index)).take
        (naiveCut - (naiveCut - escapeLookback + index))) with
    | false =>
      refine ⟨naiveCut - escapeLookback + index, by simp, .escape ?_⟩
      exact { before := by omega, near := by omega, starts := starts, last := last
              unterminated := closed }
    | true =>
      refine ⟨naiveCut + count, by simp [skipped], .character ?_ forward⟩
      intro position opened
      -- any open escape would be this last ESC, which is closed
      have same : position = naiveCut - escapeLookback + index := by
        rcases Nat.lt_trichotomy position (naiveCut - escapeLookback + index) with less | same | more
        · exact absurd starts (opened.last _ less (by omega))
        · exact same
        · exact absurd opened.starts (last position more opened.before)
      have unterminated := opened.unterminated
      rw [same, closed] at unterminated
      cases unterminated

end Hytch.SafeTrim
