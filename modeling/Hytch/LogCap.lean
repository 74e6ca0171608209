import Mathlib.Algebra.Group.Nat.Defs
import Hytch.SpawnRequests

/-!
The log cap of `-C`: digits with a unit behind them. The digits are checked against 64
bits, their product with the unit is not.
-/

namespace Hytch.LogCap

open DecimalNumbers SessionNames SpawnRequests

def defaultLogMaxSize : UInt64 := 1024 * 1024

def digitsAndMult (spec : Text) : Text × UInt64 :=
  match spec.getLast? with
  | some 'k' | some 'K' => (spec.dropLast, 1024)
  | some 'm' | some 'M' => (spec.dropLast, 1024 * 1024)
  | _ => (spec, 1)

/-- `n * mult`: where the build checks for overflow a panic, else the low 64 bits. -/
def times (overflowChecks : Bool) (n mult : UInt64) : Option UInt64 :=
  if overflowChecks ∧ UInt64.size ≤ n.toNat * mult.toNat then none else some (n * mult)

/-- `none` is the panic. -/
def parseLogCap (overflowChecks : Bool) : Option Text → Option UInt64
  | none => some defaultLogMaxSize
  | some spec =>
      match parseNumber UInt64.size (digitsAndMult spec).1 with
      | some n => times overflowChecks (UInt64.ofNat n) (digitsAndMult spec).2
      | none => some defaultLogMaxSize

/-- The power of 1024 the user asked for. -/
def exponent (spec : Text) : Nat :=
  if spec.getLast? = some 'k' ∨ spec.getLast? = some 'K' then 1
  else if spec.getLast? = some 'm' ∨ spec.getLast? = some 'M' then 2
  else 0

def number (spec : Text) : Option Nat :=
  parseNumber (2 ^ 64) (if exponent spec = 0 then spec else spec.dropLast)

/-- The cap in unbounded numbers, the default where there is none that fits. -/
def wantedCap (spec : Text) : Nat :=
  match number spec with
  | some n => if n * 1024 ^ exponent spec < 2 ^ 64 then n * 1024 ^ exponent spec else 1024 * 1024
  | none => 1024 * 1024

/-- In every build the wanted cap is what is parsed, and no session goes without a log
unless a zero was written. -/
def ParsedExactly (spec : Text) : Prop :=
  ∀ overflowChecks, ∃ cap, parseLogCap overflowChecks (some spec) = some cap ∧
    cap.toNat = wantedCap spec ∧
    ∀ env session cmd req, buildSpawnRequest env session cmd cap = .ok req →
      req.logPath = none → number spec = some 0

theorem digits_and_mult_exact (spec : Text) :
    (digitsAndMult spec).1 = (if exponent spec = 0 then spec else spec.dropLast) ∧
      (digitsAndMult spec).2.toNat = 1024 ^ exponent spec := by
  rw [digitsAndMult]
  split
  case h_1 last => simp [exponent, last]
  case h_2 last => simp [exponent, last]
  case h_3 last => simp [exponent, last]
  case h_4 last => simp [exponent, last]
  case h_5 k upperK m upperM =>
    have plain : exponent spec = 0 := by
      rw [exponent, if_neg (not_or.mpr ⟨k, upperK⟩), if_neg (not_or.mpr ⟨m, upperM⟩)]
    simp [plain]

theorem times_within (overflowChecks : Bool) (n mult : UInt64)
    (fits : n.toNat * mult.toNat < UInt64.size) :
    ∃ cap, times overflowChecks n mult = some cap ∧ cap.toNat = n.toNat * mult.toNat := by
  refine ⟨n * mult, if_neg ?_, ?_⟩
  · rintro ⟨-, exceeds⟩
    omega
  · rw [UInt64.toNat_mul]
    exact Nat.mod_eq_of_lt fits

theorem parse_number_fits (size n : Nat) (text : Text) (parsed : parseNumber size text = some n) :
    n < size := by
  simp only [parseNumber] at parsed
  split at parsed
  case isTrue valid =>
    cases parsed
    exact valid.2.2
  case isFalse => cases parsed

theorem parse_log_cap_number (overflowChecks : Bool) (spec : Text) (n : Nat)
    (parsed : number spec = some n) :
    parseLogCap overflowChecks (some spec) =
      times overflowChecks (UInt64.ofNat n) (digitsAndMult spec).2 := by
  rw [number, ← (digits_and_mult_exact spec).1] at parsed
  simp only [parseLogCap]
  rw [show UInt64.size = 2 ^ 64 from rfl, parsed]

theorem parse_log_cap_default (overflowChecks : Bool) (spec : Text) (bad : number spec = none) :
    parseLogCap overflowChecks (some spec) = some defaultLogMaxSize := by
  rw [number, ← (digits_and_mult_exact spec).1] at bad
  simp only [parseLogCap]
  rw [show UInt64.size = 2 ^ 64 from rfl, bad]

theorem cap_of_no_log (env : Environment) (session : Text) (cmd : List Text) (cap : UInt64)
    (req : SpawnRequest) (built : buildSpawnRequest env session cmd cap = .ok req)
    (off : req.logPath = none) : cap.toNat = 0 := by
  obtain ⟨named, -⟩ := built_cases env session cmd cap req built
  obtain ⟨same, again, -, log⟩ := built_of_named env session cmd cap named
  rw [built] at again
  cases again
  rw [off] at log
  split at log
  case isTrue => cases log
  case isFalse zero =>
    rw [UInt64.lt_iff_toNat_lt] at zero
    exact Nat.eq_zero_of_not_pos zero

/-- The product is the one thing that is not checked. -/
theorem parsed_exactly_iff (spec : Text) :
    ParsedExactly spec ↔ ∀ n, number spec = some n → n * 1024 ^ exponent spec < 2 ^ 64 := by
  have mult := (digits_and_mult_exact spec).2
  have exact_number : ∀ n, number spec = some n → (UInt64.ofNat n).toNat = n := by
    intro n parsed
    exact UInt64.toNat_ofNat_of_lt' (parse_number_fits _ n _ parsed)
  constructor
  · intro exact n parsed
    obtain ⟨cap, value, -⟩ := exact true
    rw [parse_log_cap_number true spec n parsed, times, mult, exact_number n parsed] at value
    split at value
    case isTrue => cases value
    case isFalse admitted =>
      have fits : ¬ 2 ^ 64 ≤ n * 1024 ^ exponent spec := fun exceeds => admitted ⟨rfl, exceeds⟩
      omega
  · intro fits overflowChecks
    cases parsed : number spec with
    | none =>
      refine ⟨defaultLogMaxSize, parse_log_cap_default overflowChecks spec parsed, ?_, ?_⟩
      · rw [wantedCap, parsed]
        rfl
      · intro env session cmd req built off
        exact absurd (cap_of_no_log env session cmd _ req built off) (by decide)
    | some n =>
      have small := fits n parsed
      obtain ⟨cap, value, whole⟩ := times_within overflowChecks (UInt64.ofNat n)
        (digitsAndMult spec).2 (by rw [mult, exact_number n parsed]; exact small)
      rw [mult, exact_number n parsed] at whole
      refine ⟨cap, (parse_log_cap_number overflowChecks spec n parsed).trans value, ?_, ?_⟩
      · rw [wantedCap, parsed, whole]
        exact (if_pos small).symm
      · intro env session cmd req built off
        have zero := cap_of_no_log env session cmd cap req built off
        rw [whole] at zero
        -- a power of 1024 is not zero, so the number is
        rcases Nat.mul_eq_zero.mp zero with none_ | power
        · rw [none_]
        · exact absurd power (Nat.ne_of_gt (Nat.pow_pos (by decide : 0 < 1024)))

/-- 2^44 megabytes are a cap of zero, or a panic where overflow is checked. -/
theorem huge_cap_disables_log :
    parseLogCap false (some "17592186044416m".toList) = some 0 ∧
      parseLogCap true (some "17592186044416m".toList) = none ∧
      ¬ ParsedExactly "17592186044416m".toList := by
  have panics : parseLogCap true (some "17592186044416m".toList) = none := by decide
  refine ⟨by decide, panics, fun exact => ?_⟩
  obtain ⟨cap, value, -⟩ := exact true
  rw [panics] at value
  cases value

end Hytch.LogCap
