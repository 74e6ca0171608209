import Hytch.NothingTwice

/-!
When a cold attach shows the output without a gap. Two moments decide it: the
log must not have been trimmed under the client between two of its reads, and
nothing may have been output between the end of the client's reading and the
daemon handling its Attach, since `skip_ring` drops the only copy of that. The
log itself has no gap as long as its writer is not cut short.
-/

namespace Hytch.NothingLost

open HandleClient Attachments ColdAttach ReplayThenLive Runs

def Unbroken (world : World) : WorldEvent → Prop
  | .writer event => world.writer.Completes event
  -- the log has not been trimmed since the client's last read of it
  | .readLog _ => ∀ bytes, world.client = .reading bytes → bytes ≠ [] →
      world.writer.file.content[bytes.length - 1]? = bytes.getLast?
  -- nothing was output since, for `skip_ring` leaves it out
  | .attach => ∀ bytes, world.client = .connected bytes → bytes ≠ [] →
      bytes.getLast? = world.stream.getLast?
  | _ => True

def ReadTogether (world : World) : Prop :=
  match world.client with
  | .reading bytes => bytes <:+: world.stream
  | .replayed bytes => bytes <:+: world.stream
  | .connected bytes => bytes <:+: world.stream
  | .attached _ => True

section Slices

variable (octets : List UInt8) (bytes : List OutputByte)

theorem slice_position (front back : List OutputByte) (index : Nat) (byte : OutputByte)
    (split : stamp 0 octets = front ++ bytes ++ back) (there : bytes[index]? = some byte) :
    byte.position = front.length + index := by
  have bound : index < bytes.length := (List.getElem?_eq_some_iff.mp there).1
  have in_stream : (stamp 0 octets)[front.length + index]? = some byte := by
    rw [split, List.append_assoc, List.getElem?_append_right (Nat.le_add_right _ _),
      Nat.add_sub_cancel_left, List.getElem?_append_left bound, there]
  rw [stamp_getElem, Nat.zero_add, Option.map_eq_some_iff] at in_stream
  obtain ⟨octet, _, rfl⟩ := in_stream
  rfl

theorem last_position (front back : List OutputByte) (byte : OutputByte)
    (split : stamp 0 octets = front ++ bytes ++ back) (final : bytes.getLast? = some byte) :
    byte.position + 1 = front.length + bytes.length := by
  have some_byte : bytes ≠ [] := by
    rintro rfl
    cases final
  have long := List.length_pos_iff.mpr some_byte
  rw [List.getLast?_eq_getElem?] at final
  rw [slice_position octets bytes front back _ byte split final]
  omega

theorem slice_starts_log (content : List OutputByte) (inside : bytes <:+: stamp 0 octets)
    (shown : content <:+: stamp 0 octets) (some_byte : bytes ≠ [])
    (aligned : content[bytes.length - 1]? = bytes.getLast?) : bytes <+: content := by
  obtain ⟨front, back, split⟩ := inside
  obtain ⟨front', back', split'⟩ := shown
  obtain ⟨byte, final⟩ := Option.ne_none_iff_exists'.mp (mt List.getLast?_eq_none_iff.mp some_byte)
  have long := List.length_pos_iff.mpr some_byte
  have here := last_position octets bytes front back byte split.symm final
  have there := slice_position octets content front' back' _ byte split'.symm (aligned.trans final)
  have same_front : front'.length = front.length := by omega
  have whole : front' ++ (content ++ back') = front ++ (bytes ++ back) := by
    rw [← List.append_assoc, ← List.append_assoc, split, split']
  have rest := (List.append_inj whole same_front).2
  have room : bytes.length ≤ content.length := by
    have := (List.getElem?_eq_some_iff.mp (aligned.trans final)).1
    omega
  have beginning : bytes <+: content ++ back' := ⟨back, rest.symm⟩
  exact List.prefix_of_prefix_length_le beginning (List.prefix_append _ _) room

theorem slice_ends_stream (inside : bytes <:+: stamp 0 octets) (some_byte : bytes ≠ [])
    (newest : bytes.getLast? = (stamp 0 octets).getLast?) : bytes <:+ stamp 0 octets := by
  obtain ⟨front, back, split⟩ := inside
  obtain ⟨byte, final⟩ := Option.ne_none_iff_exists'.mp (mt List.getLast?_eq_none_iff.mp some_byte)
  have here := last_position octets bytes front back byte split.symm final
  have there := last_position octets (stamp 0 octets) [] [] byte (by simp) (newest ▸ final)
  have length := congrArg List.length split
  simp only [List.length_append, List.length_nil] at length there
  have nothing : back = [] := List.length_eq_zero_iff.mp (by omega)
  exact ⟨front, by rw [← split, nothing, List.append_nil]⟩

end Slices

theorem read_together_step (octets : List UInt8) (world next : World) (event : WorldEvent)
    (goal newer : List OutputByte) (stamped : world.stream = stamp 0 octets)
    (together : ReadTogether world) (inside : logged world goal <:+: world.stream)
    (view : LogView True world goal) (stream : next.stream = world.stream ++ newer)
    (unbroken : Unbroken world event) (taken : world.step event = some next) :
    ReadTogether next := by
  have longer (bytes : List OutputByte) (sub : bytes <:+: world.stream) : bytes <:+: next.stream := by
    rw [stream]
    exact sub.trans (List.prefix_append _ _).isInfix
  have unmoved (same : next.client = world.client) : ReadTogether next := by
    unfold ReadTogether at together ⊢
    rw [same]
    split
    · rename_i bytes phase
      simp only [phase] at together
      exact longer bytes together
    · rename_i bytes phase
      simp only [phase] at together
      exact longer bytes together
    · rename_i bytes phase
      simp only [phase] at together
      exact longer bytes together
    · trivial
  have shown : world.writer.file.content <:+: stamp 0 octets := by
    have initial := world.writer.explains_shown True goal view.explains
    have in_log : world.writer.file.content <+: logged world goal := by
      rw [logged, LogWriter.whole, List.append_assoc]
      exact initial.trans (List.prefix_append _ _)
    rw [← stamped]
    exact in_log.isInfix.trans inside
  cases world_step_cases world next event taken with
  | ptyRead free pushed => exact unmoved rfl
  | handOff pending => exact unmoved rfl
  | writer moved => exact unmoved rfl
  | hub other moved => exact unmoved rfl
  | @readLog count bytes reading bound =>
    simp only [ReadTogether, reading] at together ⊢
    rw [stamped] at together ⊢
    by_cases some_byte : bytes = []
    · subst some_byte
      rw [List.nil_append]
      exact ((List.take_prefix _ _).isInfix.trans (List.drop_suffix _ _).isInfix).trans shown
    · obtain ⟨rest, same⟩ := slice_starts_log octets bytes _ together shown some_byte
        (unbroken bytes reading some_byte)
      rw [← same, List.drop_left]
      have more : bytes ++ rest.take count <+: world.writer.file.content := by
        rw [← same]
        exact (List.prefix_append_right_inj bytes).mpr (List.take_prefix count rest)
      exact more.isInfix.trans shown
  | readEnds reading =>
    simp only [ReadTogether, reading] at together ⊢
    exact together
  | readFails reading => exact List.nil_infix
  | connect replayed accepted =>
    simp only [ReadTogether, replayed] at together ⊢
    exact together
  | attach connected handled => trivial
  | display attached => exact unmoved rfl

structure Contiguous (scrollback base : Nat) (octets : List UInt8) (world : World) : Prop where
  stamped : world.stream = stamp 0 octets
  hub : HubView scrollback base List.IsSuffix world
  log : ∃ goal, LogView True world goal ∧ logged world goal <:+: world.stream ∧
    (world.writer.thread ≠ .off → logged world goal <:+ world.stream)
  reading : ReadTogether world

theorem contiguous_step (scrollback base : Nat) (octets : List UInt8) (world next : World)
    (event : WorldEvent) (contiguous : Contiguous scrollback base octets world)
    (unbroken : Unbroken world event) (taken : world.step event = some next) :
    Contiguous scrollback base (octets ++ ptyOutput [event]) next := by
  obtain ⟨stamped, hub, ⟨goal, view, inside, newest⟩, reading⟩ := contiguous
  have full : WriterCompletes world event := by
    cases event with
    | writer event => exact unbroken
    | _ => trivial
  obtain ⟨later, newer, grows⟩ := log_view_step True world next event goal view (fun _ => full) taken
  constructor
  · exact step_stream octets world next event stamped taken
  · apply hub_view_step scrollback base List.IsSuffix world next event hub _ taken
    rintro bytes rfl connected
    by_cases some_byte : bytes = []
    · rw [some_byte]
      exact List.nil_suffix
    · simp only [ReadTogether, connected] at reading
      have final := unbroken bytes connected some_byte
      rw [stamped] at reading final ⊢
      exact slice_ends_stream octets bytes reading some_byte final
  · have latest (on : world.writer.thread ≠ .off) : logged next later <:+ next.stream := by
      obtain ⟨front, same⟩ := newest on
      have extended : logged world goal ++ newer <:+ world.stream ++ newer :=
        ⟨front, by rw [← List.append_assoc, same]⟩
      rw [grows.stream]
      exact (grows.enabled trivial on).trans extended
    refine ⟨later, grows.view, ?_, fun on => latest (mt grows.thread.mpr on)⟩
    by_cases off : world.writer.thread = .off
    · rw [grows.stale off, grows.stream]
      exact inside.trans (List.prefix_append _ _).isInfix
    · exact (latest off).isInfix
  · exact read_together_step octets world next event goal newer stamped reading inside view grows.stream
      unbroken taken

theorem contiguous_start (scrollback broadcast : Nat) (history : List UInt8) (logging : Option Nat)
    (world : World) (started : World.start scrollback broadcast history logging = some world) :
    Contiguous scrollback history.length history world := by
  obtain ⟨stamped, fresh, hub, goal, view, suffix⟩ :=
    start_views True scrollback broadcast history logging List.IsSuffix world started
  refine ⟨stamped, hub, ⟨goal, view, suffix.isInfix, fun _ => suffix⟩, ?_⟩
  simp only [ReadTogether, fresh]
  exact List.nil_infix

theorem joined_slice (front back bytes written : List OutputByte) (ends : bytes <:+ front)
    (starts : written <+: back) : bytes ++ written <:+: front ++ back := by
  obtain ⟨before, rfl⟩ := ends
  obtain ⟨after, rfl⟩ := starts
  exact ⟨before, after, by simp [List.append_assoc]⟩

theorem displayed_contiguous (scrollback base : Nat) (octets : List UInt8) (world : World)
    (contiguous : Contiguous scrollback base octets world) :
    world.displayed <:+: world.stream := by
  have reading := contiguous.reading
  cases phase : world.client with
  | reading bytes =>
    simp only [World.displayed, phase]
    exact List.nil_infix
  | replayed bytes =>
    simp only [World.displayed, phase]
    simpa only [ReadTogether, phase] using reading
  | connected bytes =>
    simp only [World.displayed, phase]
    simpa only [ReadTogether, phase] using reading
  | attached bytes =>
    obtain ⟨earlier, pushed, written, split, told, shown, initial⟩ :=
      displayed_attached scrollback base List.IsSuffix world bytes contiguous.hub.connection phase
    rw [shown, split]
    cases bytes with
    | nil =>
      have replayed : (earlier.drop base).rtake scrollback <:+ earlier :=
        (List.drop_suffix _ _).trans (List.drop_suffix _ _)
      exact initial.isInfix.trans (joined_slice earlier pushed _ pushed replayed (List.prefix_refl _))
    | cons byte rest => exact joined_slice earlier pushed _ written told initial

/-- In every run whose steps open no gap the displayed bytes are one slice of
the output. -/
theorem nothing_lost (scrollback broadcast : Nat) (history : List UInt8) (logging : Option Nat)
    (world last : World) (events : List WorldEvent)
    (started : World.start scrollback broadcast history logging = some world)
    (unbroken : Meets World.step Unbroken world events)
    (ran : run World.step world events = some last) :
    last.displayed <:+: stamp 0 (history ++ ptyOutput events) := by
  have contiguous : Contiguous scrollback history.length (history ++ ptyOutput events) last := by
    apply run_guarded_invariant World.step Unbroken
      (fun past state => Contiguous scrollback history.length (history ++ ptyOutput past) state)
      ?_ [] events world last ?_ unbroken ran
    · intro past state event next kept allowed taken
      rw [ptyOutput_append, ← List.append_assoc]
      exact contiguous_step scrollback history.length _ state next event kept allowed taken
    · simpa [ptyOutput] using contiguous_start scrollback broadcast history logging world started
  have shown := displayed_contiguous scrollback history.length _ last contiguous
  rwa [contiguous.stamped] at shown

/-- The log is read to its end, then connect and Attach follow at once. -/
def promptAttach : List WorldEvent :=
  [.ptyRead [0x61], .handOff, .writer .receive, .writer (.systemCall 1), .writer (.systemCall 0),
    .writer .returned, .readLog 1, .readEnds, .connect, .attach, .ptyRead [0x62], .handOff,
    .hub (.live 0), .hub (.write 0 1), .display 1]

theorem nothing_lost_prompt : ∃ world last, World.start 8 1 [] (some 2) = some world ∧
    run World.step world promptAttach = some last ∧
      last.displayed.map OutputByte.octet = [0x61, 0x62] ∧
      last.displayed <:+: stamp 0 ([] ++ ptyOutput promptAttach) := by
  refine ⟨small, _, start_small, rfl, ?_⟩
  refine ⟨rfl, ?_⟩
  refine nothing_lost 8 1 [] (some 2) _ _ promptAttach start_small ?_ rfl
  -- the pty read up to the writer's return
  apply meets_cons _ _ _ _ _ _ rfl trivial
  apply meets_cons _ _ _ _ _ _ rfl trivial
  apply meets_cons _ _ _ _ _ _ rfl trivial
  apply meets_cons _ _ _ _ _ _ rfl trivial
  apply meets_cons _ _ _ _ _ _ rfl trivial
  apply meets_cons _ _ _ _ _ _ rfl trivial
  apply meets_cons _ _ _ _ _ _ rfl (by rintro bytes ⟨⟩ some_byte; exact absurd rfl some_byte)
  apply meets_cons _ _ _ _ _ _ rfl trivial
  apply meets_cons _ _ _ _ _ _ rfl trivial
  apply meets_cons _ _ _ _ _ _ rfl (by rintro bytes ⟨⟩ _; rfl)
  apply meets_cons _ _ _ _ _ _ rfl trivial
  apply meets_cons _ _ _ _ _ _ rfl trivial
  apply meets_cons _ _ _ _ _ _ rfl trivial
  apply meets_cons _ _ _ _ _ _ rfl trivial
  exact meets_cons _ _ _ _ _ _ rfl trivial trivial

/-- Bytes from before a point followed by the byte at it: one slice only when
the byte just before the point is the last of the former. -/
theorem slice_across (octets : List UInt8) (earlier pushed bytes written : List OutputByte)
    (split : stamp 0 octets = earlier ++ pushed) (inside : bytes.Sublist earlier)
    (some_byte : bytes ≠ []) (starts : written <+: pushed) (more : written ≠ [])
    (slice : bytes ++ written <:+: stamp 0 octets) : bytes.getLast? = earlier.getLast? := by
  obtain ⟨front, back, same⟩ := slice
  obtain ⟨byte, final⟩ := Option.ne_none_iff_exists'.mp (mt List.getLast?_eq_none_iff.mp some_byte)
  obtain ⟨first, rest, rfl⟩ := List.exists_cons_of_ne_nil more
  obtain ⟨tail, rfl⟩ := starts
  have of_bytes := last_position octets bytes front ((first :: rest) ++ back) byte
    (by rw [← same]; simp [List.append_assoc]) final
  have of_first := slice_position octets (first :: rest) (front ++ bytes) back 0 first
    (by rw [← same]; simp [List.append_assoc]) rfl
  have at_point := slice_position octets (first :: rest) earlier tail 0 first
    (by rw [split, List.append_assoc]) rfl
  rw [List.length_append] at of_first
  -- the byte is in `earlier`, at the position of its last
  obtain ⟨index, bound, there⟩ := List.getElem_of_mem (inside.subset (List.mem_of_getLast? final))
  have in_earlier := slice_position octets earlier [] ((first :: rest) ++ tail) index byte
    (by rw [split]; simp) (by rw [List.getElem?_eq_getElem bound, there])
  rw [List.length_nil] at in_earlier
  have last_index : index = earlier.length - 1 := by omega
  rw [final, List.getLast?_eq_getElem?, ← last_index, List.getElem?_eq_getElem bound, there]

/-- The other direction at the Attach: once it came too late, the first live
byte shown leaves a gap behind the replayed log. -/
theorem stale_attach_loses (scrollback broadcast : Nat) (history : List UInt8)
    (logging : Option Nat) (world reached opened last : World) (before after : List WorldEvent)
    (bytes : List OutputByte)
    (started : World.start scrollback broadcast history logging = some world)
    (ran : run World.step world before = some reached)
    (connected : reached.client = .connected bytes) (some_byte : bytes ≠ [])
    (stale : bytes.getLast? ≠ reached.stream.getLast?)
    (attach : reached.step .attach = some opened) (continued : run World.step opened after = some last)
    (live : bytes.length < last.displayed.length) : ¬ last.displayed <:+: last.stream := by
  have ordered := NothingTwice.ordered_run scrollback broadcast history logging world reached before
    started ran
  obtain ⟨goal, _, _, reading⟩ := ordered.log
  have inside : bytes.Sublist reached.stream := by
    simpa only [NothingTwice.ReadInOrder, connected] using reading
  have final := (NothingTwice.ordered_run scrollback broadcast history logging world last
    (before ++ .attach :: after) started (by
      rw [run_append, ran, Option.bind_some, run, attach, Option.bind_some, continued])).stamped
  obtain ⟨_, pushed, written, split, shown, starts⟩ := displayed_after_attach scrollback history.length
    _ reached opened last bytes after ordered.hub connected attach continued
  have not_empty : (!bytes.isEmpty) = true := by simp [some_byte]
  rw [if_pos not_empty, List.nil_append] at starts
  have more : written ≠ [] := by
    rintro rfl
    rw [shown, List.append_nil] at live
    exact Nat.lt_irrefl _ live
  intro slice
  rw [shown, final] at slice
  exact stale (slice_across _ reached.stream pushed bytes written (by rw [← final, split]) inside
    some_byte starts more slice)

/-- Output between the end of the client's reading and its Attach. -/
def lateAttach : List WorldEvent :=
  [.ptyRead [0x61], .handOff, .writer .receive, .writer (.systemCall 1), .writer (.systemCall 0),
    .writer .returned, .readLog 1, .readEnds, .ptyRead [0x62], .handOff, .connect, .attach,
    .ptyRead [0x63], .hub (.live 0), .hub (.write 0 1), .display 1]

theorem late_attach_loses : ∃ world last, World.start 8 1 [] (some 2) = some world ∧
    run World.step world lateAttach = some last ∧
      last.displayed.map OutputByte.octet = [0x61, 0x63] ∧
      ¬ last.displayed <:+: stamp 0 ([] ++ ptyOutput lateAttach) := by
  refine ⟨small, _, start_small, rfl, ?_⟩
  refine ⟨rfl, ?_⟩
  intro inside
  obtain ⟨front, back, split⟩ := inside
  have first : 0 = front.length + 0 := slice_position [0x61, 0x62, 0x63] _ front back 0
    { octet := 0x61, position := 0 } split.symm rfl
  have second : 2 = front.length + 1 := slice_position [0x61, 0x62, 0x63] _ front back 1
    { octet := 0x63, position := 2 } split.symm rfl
  omega

end Hytch.NothingLost
