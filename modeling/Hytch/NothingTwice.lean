import Hytch.ReplayThenLive

/-!
A cold attach shows no byte twice and keeps the order of the output. The log
with the chunks on their way is always a sublist of the stream, and so is what
the client has read of it followed by what it could still read: a trim in the
middle of the client's reads only moves later bytes to its offset.
-/

namespace Hytch.NothingTwice

open HandleClient Attachments ColdAttach ReplayThenLive Runs

/-- What the client has of the log, with all it may still read, is in order. -/
def ReadInOrder (world : World) (whole : List OutputByte) : Prop :=
  match world.client with
  | .reading bytes => (bytes ++ whole.drop bytes.length).Sublist world.stream
  | .replayed bytes => bytes.Sublist world.stream
  | .connected bytes => bytes.Sublist world.stream
  | .attached _ => True

section Reading

variable (bytes whole later newer stream : List OutputByte)

theorem order_grows (ordered : (bytes ++ whole.drop bytes.length).Sublist stream)
    (grows : later.Sublist (whole ++ newer)) :
    (bytes ++ later.drop bytes.length).Sublist (stream ++ newer) := by
  have remaining : (later.drop bytes.length).Sublist (whole.drop bytes.length ++ newer) := by
    apply (grows.drop bytes.length).trans
    rw [List.drop_append]
    exact (List.Sublist.refl _).append (List.drop_sublist _ _)
  have extended : (bytes ++ later.drop bytes.length).Sublist
      ((bytes ++ whole.drop bytes.length) ++ newer) := by
    rw [List.append_assoc]
    exact (List.Sublist.refl bytes).append remaining
  exact extended.trans (ordered.append (List.Sublist.refl newer))

theorem read_continues (content : List OutputByte) (count : Nat) (shown : content <+: whole)
    (bound : count ≤ content.length - bytes.length) :
    (bytes ++ (content.drop bytes.length).take count) ++
        whole.drop (bytes ++ (content.drop bytes.length).take count).length =
      bytes ++ whole.drop bytes.length := by
  obtain ⟨rest, rfl⟩ := shown
  have taken : ((content.drop bytes.length).take count).length = count := by
    rw [List.length_take, List.length_drop]
    omega
  rw [List.length_append, taken, List.append_assoc]
  congr 1
  rcases Nat.le_total bytes.length content.length with inside | past
  · have same : (content ++ rest).drop bytes.length = content.drop bytes.length ++ rest :=
      List.drop_append_of_le_length inside
    rw [← List.drop_drop, same, List.drop_append_of_le_length (by rw [List.length_drop]; omega),
      ← List.append_assoc, List.take_append_drop]
  · have nothing : count = 0 := by omega
    simp [nothing]

end Reading

theorem read_in_order_step (world next : World) (event : WorldEvent)
    (goal later newer : List OutputByte) (ordered : ReadInOrder world (logged world goal))
    (view : LogView False world goal)
    (grows : LogGrows False world next goal later newer)
    (taken : world.step event = some next) : ReadInOrder next (logged next later) := by
  have longer (bytes : List OutputByte) (sub : bytes.Sublist world.stream) :
      bytes.Sublist next.stream := by
    rw [grows.stream]
    exact sub.trans (List.sublist_append_left _ _)
  have unmoved (same : next.client = world.client) : ReadInOrder next (logged next later) := by
    unfold ReadInOrder at ordered ⊢
    rw [same]
    split
    · rename_i bytes reading
      simp only [reading] at ordered
      rw [grows.stream]
      exact order_grows bytes _ _ newer _ ordered grows.kept
    · rename_i bytes replayed
      simp only [replayed] at ordered
      exact longer bytes ordered
    · rename_i bytes connected
      simp only [connected] at ordered
      exact longer bytes ordered
    · trivial
  have shown := world.writer.explains_shown False goal view.explains
  have in_log : world.writer.file.content <+: logged world goal := by
    rw [logged, LogWriter.whole, List.append_assoc]
    exact shown.trans (List.prefix_append _ _)
  cases world_step_cases world next event taken with
  | ptyRead free pushed => exact unmoved rfl
  | handOff pending => exact unmoved rfl
  | writer moved => exact unmoved rfl
  | hub other moved => exact unmoved rfl
  | @readLog count bytes reading bound =>
    -- the bytes move from what may still be read to what has been read
    simp only [ReadInOrder, reading] at ordered ⊢
    have continued := read_continues bytes (logged world goal) _ count in_log bound.2
    rw [← continued] at ordered
    have after := order_grows _ _ _ newer world.stream ordered grows.kept
    rwa [← grows.stream] at after
  | @readEnds bytes reading =>
    simp only [ReadInOrder, reading] at ordered ⊢
    exact longer bytes ((List.sublist_append_left _ _).trans ordered)
  | readFails reading => exact List.nil_sublist _
  | connect replayed accepted =>
    simp only [ReadInOrder, replayed] at ordered ⊢
    exact ordered
  | attach connected handled => trivial
  | display attached => exact unmoved rfl

structure Ordered (scrollback base : Nat) (octets : List UInt8) (world : World) : Prop where
  stamped : world.stream = stamp 0 octets
  hub : HubView scrollback base List.Sublist world
  log : ∃ goal, LogView False world goal ∧ (logged world goal).Sublist world.stream ∧
    ReadInOrder world (logged world goal)

theorem ordered_step (scrollback base : Nat) (octets : List UInt8) (world next : World)
    (event : WorldEvent) (ordered : Ordered scrollback base octets world)
    (taken : world.step event = some next) :
    Ordered scrollback base (octets ++ ptyOutput [event]) next := by
  obtain ⟨goal, view, inside, reading⟩ := ordered.log
  constructor
  · exact step_stream octets world next event ordered.stamped taken
  · apply hub_view_step scrollback base List.Sublist world next event ordered.hub _ taken
    intro bytes _ connected
    simpa only [ReadInOrder, connected] using reading
  · obtain ⟨later, newer, grows⟩ := log_view_step False world next event goal view False.elim taken
    refine ⟨later, grows.view, ?_, ?_⟩
    · rw [grows.stream]
      exact grows.kept.trans (inside.append (List.Sublist.refl newer))
    · exact read_in_order_step world next event goal later newer reading view grows taken

theorem ordered_start (scrollback broadcast : Nat) (history : List UInt8) (logging : Option Nat)
    (world : World) (started : World.start scrollback broadcast history logging = some world) :
    Ordered scrollback history.length history world := by
  obtain ⟨stamped, fresh, hub, goal, view, suffix⟩ :=
    start_views False scrollback broadcast history logging List.Sublist world started
  refine ⟨stamped, hub, goal, view, suffix.sublist, ?_⟩
  simp only [ReadInOrder, fresh, List.length_nil, List.drop_zero, List.nil_append]
  exact suffix.sublist

/-- What was replayed and what the socket carried form one sublist of the stream. -/
theorem displayed_in_order (scrollback base : Nat) (octets : List UInt8) (world : World)
    (ordered : Ordered scrollback base octets world) : world.displayed.Sublist world.stream := by
  obtain ⟨goal, _, _, reading⟩ := ordered.log
  cases phase : world.client with
  | reading bytes =>
    simp only [World.displayed, phase]
    exact List.nil_sublist _
  | replayed bytes =>
    simp only [World.displayed, phase]
    simpa only [ReadInOrder, phase] using reading
  | connected bytes =>
    simp only [World.displayed, phase]
    simpa only [ReadInOrder, phase] using reading
  | attached bytes =>
    obtain ⟨earlier, pushed, written, split, told, shown, initial⟩ :=
      displayed_attached scrollback base List.Sublist world bytes ordered.hub.connection phase
    rw [shown, split]
    cases bytes with
    | nil =>
      have replayed : ((earlier.drop base).rtake scrollback).Sublist earlier :=
        (List.drop_sublist _ _).trans (List.drop_sublist _ _)
      exact initial.sublist.trans (replayed.append (List.Sublist.refl pushed))
    | cons byte rest => exact told.append initial.sublist

theorem ordered_run (scrollback broadcast : Nat) (history : List UInt8) (logging : Option Nat)
    (world last : World) (events : List WorldEvent)
    (started : World.start scrollback broadcast history logging = some world)
    (ran : run World.step world events = some last) :
    Ordered scrollback history.length (history ++ ptyOutput events) last := by
  apply run_history_invariant World.step
    (fun past state => Ordered scrollback history.length (history ++ ptyOutput past) state)
    ?_ [] events world last ?_ ran
  · intro past state event next kept taken
    rw [ptyOutput_append, ← List.append_assoc]
    exact ordered_step scrollback history.length _ state next event kept taken
  · simpa [ptyOutput] using ordered_start scrollback broadcast history logging world started

/-- In every interleaving the displayed bytes have strictly increasing positions
in the output, and each is the output's byte at its position. -/
theorem nothing_shown_twice (scrollback broadcast : Nat) (history : List UInt8)
    (logging : Option Nat) (world last : World) (events : List WorldEvent)
    (started : World.start scrollback broadcast history logging = some world)
    (ran : run World.step world events = some last) :
    (last.displayed.map OutputByte.position).Pairwise (· < ·) ∧
      ∀ byte ∈ last.displayed, (history ++ ptyOutput events)[byte.position]? = some byte.octet := by
  have ordered := ordered_run scrollback broadcast history logging world last events started ran
  have shown := displayed_in_order scrollback history.length _ last ordered
  rw [ordered.stamped] at shown
  constructor
  · apply List.Pairwise.sublist (shown.map OutputByte.position)
    rw [stamp_positions]
    exact List.pairwise_lt_range'
  · intro byte member
    obtain ⟨index, bound, same⟩ := List.getElem_of_mem (shown.subset member)
    have there := List.getElem?_eq_getElem bound
    rw [stamp_getElem, same, Nat.zero_add, Option.map_eq_some_iff] at there
    obtain ⟨octet, found, rfl⟩ := there
    exact found

/-- The log is trimmed between two reads of the client. -/
def trimmedUnderRead : List WorldEvent :=
  [.ptyRead [0x61, 0x62, 0x63], .handOff, .writer .receive, .writer (.systemCall 3),
    .writer (.systemCall 0), .readLog 1, .writer (.systemCall 0), .writer (.systemCall 0),
    .writer (.systemCall 3), .writer (.systemCall 0), .writer (.systemCall 0),
    .writer (.systemCall 2), .writer (.systemCall 0), .writer (.systemCall 0),
    .writer (.systemCall 0), .writer .returned, .readLog 1, .readEnds, .connect, .attach,
    .ptyRead [0x64], .hub (.live 0), .hub (.write 0 1), .display 1]

theorem nothing_shown_twice_trimmed : ∃ world last, World.start 8 1 [] (some 2) = some world ∧
    run World.step world trimmedUnderRead = some last ∧
      last.displayed.map OutputByte.octet = [0x61, 0x63, 0x64] ∧
      (last.displayed.map OutputByte.position).Pairwise (· < ·) ∧
      ∀ byte ∈ last.displayed,
        ([] ++ ptyOutput trimmedUnderRead)[byte.position]? = some byte.octet := by
  refine ⟨small, _, start_small, rfl, ?_⟩
  refine ⟨rfl, ?_⟩
  exact nothing_shown_twice 8 1 [] (some 2) _ _ trimmedUnderRead start_small rfl

end Hytch.NothingTwice
