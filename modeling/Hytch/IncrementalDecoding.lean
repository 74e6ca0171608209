import Mathlib.Data.List.Induction

/-!
Incremental decoding of a byte stream that arrives in chunks. A decoder looks
at a buffer and answers one item, one fault, or "not yet"; the reader drains
it after every chunk and stops at the first fault. The laws carried by
`Decoder` say that later bytes cannot change an answer already given, which is
what makes the outcome independent of the chunk boundaries.
-/

namespace Hytch.IncrementalDecoding

variable {Byte Item Fault : Type}

structure Decoder (Byte Item Fault : Type) where
  decode : List Byte → Except Fault (Option Item) × List Byte
  pendingKeeps : ∀ buffer rest, decode buffer = (.ok none, rest) → rest = buffer
  itemShrinks : ∀ buffer item rest, decode buffer = (.ok (some item), rest) →
    rest.length < buffer.length
  itemExtends : ∀ buffer item rest more, decode buffer = (.ok (some item), rest) →
    decode (buffer ++ more) = (.ok (some item), rest ++ more)
  faultExtends : ∀ buffer fault rest more, decode buffer = (.error fault, rest) →
    (decode (buffer ++ more)).1 = .error fault

/-- What a reader holds: the items so far and either the undecoded residue or
the fault it stopped at. -/
structure Reading (Byte Item Fault : Type) where
  items : List Item
  state : Except Fault (List Byte)

def drainFuel (decoder : Decoder Byte Item Fault) : Nat → List Byte → Reading Byte Item Fault
  | 0, buffer => ⟨[], .ok buffer⟩
  | fuel + 1, buffer =>
      match decoder.decode buffer with
      | (.ok none, rest) => ⟨[], .ok rest⟩
      | (.ok (some item), rest) =>
          let tail := drainFuel decoder fuel rest
          ⟨item :: tail.items, tail.state⟩
      | (.error fault, _) => ⟨[], .error fault⟩

/-- Decode until the buffer holds no complete item. -/
def drain (decoder : Decoder Byte Item Fault) (buffer : List Byte) : Reading Byte Item Fault :=
  drainFuel decoder (buffer.length + 1) buffer

def feed (decoder : Decoder Byte Item Fault) (reading : Reading Byte Item Fault)
    (chunk : List Byte) : Reading Byte Item Fault :=
  match reading.state with
  | .error _ => reading
  | .ok residue =>
      let next := drain decoder (residue ++ chunk)
      ⟨reading.items ++ next.items, next.state⟩

def feedAll (decoder : Decoder Byte Item Fault) (chunks : List (List Byte)) :
    Reading Byte Item Fault :=
  chunks.foldl (feed decoder) ⟨[], .ok []⟩

-- Every item shortens the buffer, so one more unit than its length is enough
-- and the exhausted branch is never the one that answers.
theorem drain_fuel_enough (decoder : Decoder Byte Item Fault) (fuel : Nat) (buffer : List Byte)
    (enough : buffer.length < fuel) : drainFuel decoder fuel buffer = drain decoder buffer := by
  induction fuel using Nat.strongRecOn generalizing buffer with
  | _ fuel ih =>
    cases fuel with
    | zero => omega
    | succ fuel =>
      unfold drain drainFuel
      cases answer : decoder.decode buffer with
      | mk outcome rest =>
        match outcome with
        | .error fault => rfl
        | .ok none => rfl
        | .ok (some item) =>
          have shorter := decoder.itemShrinks buffer item rest answer
          have short : drainFuel decoder fuel rest = drain decoder rest :=
            ih fuel (Nat.lt_succ_self fuel) rest (by omega)
          have full : drainFuel decoder buffer.length rest = drain decoder rest := by
            by_cases same : buffer.length = fuel
            · rw [same, short]
            · exact ih buffer.length (by omega) rest shorter
          simp only [short, full]

theorem drain_pending (decoder : Decoder Byte Item Fault) (buffer rest : List Byte)
    (answer : decoder.decode buffer = (.ok none, rest)) :
    drain decoder buffer = ⟨[], .ok buffer⟩ := by
  simp [drain, drainFuel, answer, decoder.pendingKeeps buffer rest answer]

theorem drain_item (decoder : Decoder Byte Item Fault) (buffer rest : List Byte) (item : Item)
    (answer : decoder.decode buffer = (.ok (some item), rest)) :
    drain decoder buffer =
      ⟨item :: (drain decoder rest).items, (drain decoder rest).state⟩ := by
  have shorter := decoder.itemShrinks buffer item rest answer
  have tail := drain_fuel_enough decoder buffer.length rest shorter
  rw [drain, drainFuel, answer]
  simp only [tail]

theorem drain_fault (decoder : Decoder Byte Item Fault) (buffer rest : List Byte) (fault : Fault)
    (answer : decoder.decode buffer = (.error fault, rest)) :
    drain decoder buffer = ⟨[], .error fault⟩ := by
  simp [drain, drainFuel, answer]

/-- Draining after each of two chunks is draining once after both. -/
theorem drain_append (decoder : Decoder Byte Item Fault) (buffer more : List Byte) :
    drain decoder (buffer ++ more) = feed decoder (drain decoder buffer) more := by
  induction size : buffer.length using Nat.strongRecOn generalizing buffer with
  | _ size ih =>
    cases answer : decoder.decode buffer with
    | mk outcome rest =>
      match outcome with
      | .ok none =>
        rw [drain_pending decoder buffer rest answer]
        simp [feed]
      | .ok (some item) =>
        have shorter := decoder.itemShrinks buffer item rest answer
        have tail := ih rest.length (by omega) rest rfl
        rw [drain_item decoder buffer rest item answer,
          drain_item decoder _ _ item (decoder.itemExtends buffer item rest more answer), tail]
        cases state : (drain decoder rest).state with
        | error fault => simp [feed, state]
        | ok residue => simp [feed, state]
      | .error fault =>
        have persists := decoder.faultExtends buffer fault rest more answer
        rw [drain_fault decoder buffer rest fault answer,
          drain_fault decoder _ _ fault (Prod.ext persists rfl)]
        rfl

theorem drain_behind (decoder : Decoder Byte Item Fault) (front rest : List Byte)
    (items : List Item) (whole : drain decoder front = ⟨items, .ok []⟩) :
    drain decoder (front ++ rest) =
      ⟨items ++ (drain decoder rest).items, (drain decoder rest).state⟩ := by
  rw [drain_append, whole]
  rfl

theorem drain_initial (decoder : Decoder Byte Item Fault) (buffer more : List Byte) :
    (drain decoder buffer).items <+: (drain decoder (buffer ++ more)).items := by
  rw [drain_append, feed]
  split
  · exact List.prefix_refl _
  · exact List.prefix_append _ _

theorem drain_items_decoded (decoder : Decoder Byte Item Fault) (buffer : List Byte) (item : Item)
    (member : item ∈ (drain decoder buffer).items) :
    ∃ rest after, decoder.decode rest = (.ok (some item), after) := by
  induction size : buffer.length using Nat.strongRecOn generalizing buffer with
  | _ size ih =>
    cases answer : decoder.decode buffer with
    | mk outcome rest =>
      match outcome with
      | .ok none =>
        rw [drain_pending decoder buffer rest answer] at member
        cases member
      | .ok (some first) =>
        have shorter := decoder.itemShrinks buffer first rest answer
        rw [drain_item decoder buffer rest first answer] at member
        rcases List.mem_cons.mp member with rfl | later
        · exact ⟨buffer, rest, answer⟩
        · exact ih rest.length (by omega) rest later rfl
      | .error fault =>
        rw [drain_fault decoder buffer rest fault answer] at member
        cases member

theorem drain_residue_pending (decoder : Decoder Byte Item Fault) (buffer residue : List Byte)
    (state : (drain decoder buffer).state = .ok residue) :
    decoder.decode residue = (.ok none, residue) := by
  induction size : buffer.length using Nat.strongRecOn generalizing buffer with
  | _ size ih =>
    cases answer : decoder.decode buffer with
    | mk outcome rest =>
      match outcome with
      | .ok none =>
        have same := decoder.pendingKeeps buffer rest answer
        rw [drain_pending decoder buffer rest answer] at state
        cases state
        rw [answer, same]
      | .ok (some item) =>
        have shorter := decoder.itemShrinks buffer item rest answer
        rw [drain_item decoder buffer rest item answer] at state
        exact ih rest.length (by omega) rest state rfl
      | .error fault =>
        rw [drain_fault decoder buffer rest fault answer] at state
        cases state

/-- Chunk boundaries are invisible, for well-formed and malformed input alike. -/
theorem feed_all_eq_drain (decoder : Decoder Byte Item Fault)
    (quiet : decoder.decode [] = (.ok none, [])) (chunks : List (List Byte)) :
    feedAll decoder chunks = drain decoder chunks.flatten := by
  induction chunks using List.reverseRecOn with
  | nil => simp [feedAll, drain_pending decoder [] [] quiet]
  | append_singleton chunks last ih =>
    have snoc : feedAll decoder (chunks ++ [last]) = feed decoder (feedAll decoder chunks) last := by
      simp [feedAll]
    rw [snoc, ih, ← drain_append]
    simp

end Hytch.IncrementalDecoding
