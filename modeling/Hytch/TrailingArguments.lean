/-!
Command lines whose last positional takes all that is left: options are looked for
until it has its first value, and every token from there on is taken as it stands.
What a token means while options are looked for is a parameter.
-/

namespace Hytch.TrailingArguments

inductive Reading where
  | value
  /-- `--`. -/
  | endOfOptions
  /-- Options, the last of which may have to take its value from the next token. -/
  | options (awaiting : Bool)
  /-- Something else is asked for, such as the help text. -/
  | refused
deriving DecidableEq, Repr

section

variable {Token : Type} (reading : Token → Reading)

/-- The values of the positionals, `before` of which stand before the trailing one.
`awaiting` is whether an option has yet to get its value. -/
def positionals : Bool → Nat → List Token → Option (List Token)
  | awaiting, _, [] => if awaiting then none else some []
  | true, before, token :: rest =>
      if reading token = .value then positionals false before rest else none
  | false, before, token :: rest =>
      match reading token with
      | .value =>
          match before with
          | 0 => some (token :: rest)
          | before + 1 => (positionals false before rest).map fun values => token :: values
      | .endOfOptions => some rest
      | .options awaiting => positionals awaiting before rest
      | .refused => none

/-- Whether each token that stands where options are looked for is a value. -/
def AllValues (before : Nat) (tokens : List Token) : Prop :=
  ∀ token ∈ tokens.take (before + 1), reading token = .value

theorem all_values_cons (before : Nat) (token : Token) (rest : List Token) :
    AllValues reading (before + 1) (token :: rest) ↔
      reading token = .value ∧ AllValues reading before rest := by
  simp [AllValues]

theorem all_values_last (token : Token) (rest : List Token) :
    AllValues reading 0 (token :: rest) ↔ reading token = .value := by
  simp [AllValues]

theorem positionals_of_values (before : Nat) (tokens : List Token)
    (values : AllValues reading before tokens) :
    positionals reading false before tokens = some tokens := by
  induction tokens generalizing before with
  | nil => rfl
  | cons token rest ih =>
    cases before with
    | zero =>
      have value := (all_values_last reading token rest).mp values
      simp [positionals, value]
    | succ before =>
      obtain ⟨value, values⟩ := (all_values_cons reading before token rest).mp values
      simp [positionals, value, ih before values]

-- Tokens are only ever dropped, so their number tells whether one was.
theorem positionals_length (awaiting : Bool) (before : Nat) (tokens values : List Token)
    (read : positionals reading awaiting before tokens = some values) :
    values.length ≤ tokens.length := by
  fun_induction positionals reading awaiting before tokens generalizing values with
  | case1 => cases read
  | case2 =>
    cases read
    exact Nat.le_refl 0
  | case3 before token rest value ih => exact Nat.le_succ_of_le (ih values read)
  | case4 => cases read
  | case5 token rest value =>
    cases read
    exact Nat.le_refl _
  | case6 token rest value before ih =>
    obtain ⟨tail, readTail, rfl⟩ := Option.map_eq_some_iff.mp read
    exact Nat.succ_le_succ (ih tail readTail)
  | case7 =>
    cases read
    exact Nat.le_succ _
  | case8 before token rest awaiting taken ih => exact Nat.le_succ_of_le (ih values read)
  | case9 => cases read

theorem values_of_positionals (before : Nat) (tokens values : List Token)
    (read : positionals reading false before tokens = some values)
    (whole : values.length = tokens.length) : AllValues reading before tokens := by
  induction tokens generalizing before values with
  | nil => simp [AllValues]
  | cons token rest ih =>
    have lost : ∀ awaiting, positionals reading awaiting before rest ≠ some values := by
      intro awaiting read
      have kept := positionals_length reading awaiting before rest values read
      simp only [List.length_cons] at whole
      omega
    cases known : reading token with
    | value =>
      cases before with
      | zero => exact (all_values_last reading token rest).mpr known
      | succ before =>
        simp only [positionals, known, Option.map_eq_some_iff] at read
        obtain ⟨tail, readTail, rfl⟩ := read
        have values := ih before tail readTail (Nat.succ.inj whole)
        exact (all_values_cons reading before token rest).mpr ⟨known, values⟩
    | endOfOptions =>
      simp only [positionals, known, Option.some.injEq] at read
      subst read
      simp at whole
    | options awaiting =>
      simp only [positionals, known] at read
      exact absurd read (lost awaiting)
    | refused => simp [positionals, known] at read

end

end Hytch.TrailingArguments
