import Lisplet.Number.Rounding

/-!
# Shortest decimals

Of all decimal numbers that round to a given machine number, the shortest is the one with the
fewest digits, of those with the fewest digits the one nearest to it, and of two that are equally
near the one with an even last digit.  A magnitude is a whole number of some decimal places
(`expansion`); for 1, 2, … 17 digits the two decimals around it with that many digits are tried,
the nearer first, and the first that rounds back is taken.
-/

namespace Lisplet.Binary64

/-- A finite magnitude as a whole number `w` and a number of decimal places `p`: it is
`w · 10 ^ -p`. -/
def expansion (rank : Nat) : Nat × Nat :=
  if 1074 ≤ place rank then (mantissa rank * Nat.pow 2 (place rank - 1074), 0)
  else (mantissa rank * Nat.pow 5 (1074 - place rank), 1074 - place rank)

/-- The two decimals around `whole · 10 ^ -places` that have `cut` digits less, the nearer first,
or the even one if both are equally near. -/
def neighbours (negative : Bool) (whole places cut : Nat) : List Decimal :=
  let digits := whole / Nat.pow 10 cut
  let beyond := 2 * (whole % Nat.pow 10 cut)
  let below : Decimal := ⟨negative, digits, (cut : Int) - places⟩
  let above : Decimal := ⟨negative, digits + 1, (cut : Int) - places⟩
  if beyond < Nat.pow 10 cut ∨ (beyond = Nat.pow 10 cut ∧ digits % 2 = 0) then [below, above]
  else [above, below]

/-- The decimals that are tried, those with fewer digits first. -/
def candidates (negative : Bool) (whole places : Nat) : List Decimal :=
  let size := Decimal.digitCount whole
  (List.range 17).flatMap fun n => neighbours negative whole places (size - (n + 1))

/-- The shortest decimal of a finite magnitude that is not zero. -/
def shortestOfRank (negative : Bool) (rank : Nat) : Decimal :=
  let (whole, places) := expansion rank
  match (candidates negative whole places).find? (·.rank == rank) with
  | some d => d.reduced
  | none => Decimal.reduced ⟨negative, whole, -(places : Int)⟩

/-- The shortest decimal that rounds to a finite machine number. -/
def shortest (x : Float) : Decimal :=
  if rank x = 0 then ⟨isNegative x, 0, 0⟩ else shortestOfRank (isNegative x) (rank x)

end Lisplet.Binary64
