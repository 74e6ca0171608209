import Mathlib.Data.List.Basic

/-!
What the program takes from the standard library beside its files and sockets: the
`std::io::Error` values it builds or inspects, a kind and the text shown; unsigned numbers as
decimal text, printed and parsed, where a plus sign in front is taken and anything else than
digits is not; and the pieces of a text cut at a separator.
-/

namespace Hytch

inductive ErrorKind where
  | notFound
  | addrInUse
  | connectionRefused
  | invalidInput
  | invalidData
  | brokenPipe
  | other
  deriving DecidableEq

structure IoError where
  kind : ErrorKind
  message : String
  deriving DecidableEq

/-- Writing to a connection the other end has closed. -/
def brokenPipe : IoError := { kind := .brokenPipe, message := "Broken pipe (os error 32)" }

namespace DecimalNumbers

/-- `to_string`. -/
def printNumber (n : Nat) : List Char := Nat.toDigits 10 n

def withoutPlus : List Char → List Char
  | '+' :: digits => digits
  | digits => digits

/-- `str::parse`, for a type of `size` numbers. -/
def parseNumber (size : Nat) (text : List Char) : Option Nat :=
  let digits := withoutPlus text
  if digits ≠ [] ∧ digits.all Char.isDigit = true ∧ Nat.ofDigitChars 10 digits 0 < size then
    some (Nat.ofDigitChars 10 digits 0)
  else none

theorem printed_nonempty (n : Nat) : printNumber n ≠ [] := Nat.toDigits_ne_nil

theorem printed_digits (n : Nat) : ∀ c ∈ printNumber n, c.isDigit = true :=
  fun _ digit => Nat.isDigit_of_mem_toDigits (by decide) (Nat.le_refl 10) digit

theorem printed_head (n : Nat) : ∃ c rest, printNumber n = c :: rest ∧ c.isDigit = true := by
  obtain ⟨c, rest, known⟩ := List.exists_cons_of_ne_nil (printed_nonempty n)
  exact ⟨c, rest, known, printed_digits n c (by simp [known])⟩

theorem printed_without_plus (n : Nat) : withoutPlus (printNumber n) = printNumber n := by
  obtain ⟨c, rest, known, digit⟩ := printed_head n
  have noPlus : c ≠ '+' := by
    rintro rfl
    exact absurd digit (by decide)
  rw [known, withoutPlus]
  rintro _ plus
  exact noPlus (List.cons.inj plus).1

theorem parse_printed (size n : Nat) (fits : n < size) :
    parseNumber size (printNumber n) = some n := by
  have value : Nat.ofDigitChars 10 (printNumber n) 0 = n := Nat.ofDigitChars_ten_toDigits
  have digits := List.all_eq_true.mpr (printed_digits n)
  simp only [parseNumber, printed_without_plus, value]
  exact if_pos ⟨printed_nonempty n, digits, fits⟩

end DecimalNumbers

namespace SplitPieces

variable {Symbol : Type} [DecidableEq Symbol]

/-- Either there is nothing to cut, or the first piece ends at the first separator. -/
theorem cut_first (separator : Symbol) (text : List Symbol) :
    separator ∉ text ∨ ∃ first rest, text = first ++ separator :: rest ∧ separator ∉ first := by
  by_cases held : separator ∈ text
  · exact Or.inr (List.eq_append_cons_of_mem held)
  · exact Or.inl held

theorem cut_last (separator : Symbol) (text : List Symbol) :
    separator ∉ text ∨ ∃ front last, text = front ++ separator :: last ∧ separator ∉ last := by
  rcases cut_first separator text.reverse with free | ⟨last, front, shape, free⟩
  · exact Or.inl (fun held => free (List.mem_reverse.mpr held))
  · refine Or.inr ⟨front.reverse, last.reverse, ?_, by rwa [List.mem_reverse]⟩
    rw [← List.reverse_reverse text, shape]
    simp

theorem piece_free (separator : Symbol) (text piece : List Symbol)
    (cut : piece ∈ text.splitOn separator) : separator ∉ piece := by
  induction found : text.length using Nat.strongRecOn generalizing text with
  | _ size ih =>
    rcases cut_first separator text with free | ⟨first, rest, shape, free⟩
    · rw [List.splitOn_eq_singleton free, List.mem_singleton] at cut
      rwa [cut]
    · rw [shape, List.splitOn_append_cons_self_of_not_mem free, List.mem_cons] at cut
      rcases cut with rfl | later
      · exact free
      · have shorter : rest.length < size := by
          rw [← found, shape, List.length_append, List.length_cons]
          omega
        exact ih rest.length shorter rest later rfl

end SplitPieces
end Hytch
