import Metrology.Decimal.Binary

/-!
# The shortest decimal that reads back

Of all decimals that are read as a given double, the shortest is the one on the coarsest decimal
grid `{d · 10 ^ k}` that has a point in the double's interval; of several points on that grid it
is the nearest. The search walks from a grid that is too coarse to finer ones and asks of each
only for the two points next to the double: if any point of a grid lies in the interval, one of
these does.
-/
namespace Metrology.Decimal

/-- Which of two decimals at the same distance is taken. -/
inductive Tie where
  | up | even
  deriving DecidableEq

structure Scaled where
  digits : Nat
  exponent : Int
  deriving DecidableEq

namespace Magnitude.Interval

def contains (i : Interval) (n : Nat) : Bool :=
  if i.closed then i.low ≤ n && n ≤ i.high else i.low < n && n < i.high

/-- The same interval, measured in units of `10 ^ k`. -/
def inUnits (i : Interval) (k : Int) : Interval :=
  let finer := Nat.pow 10 (-k).toNat
  { low := i.low * finer
    value := i.value * finer
    high := i.high * finer
    denominator := i.denominator * Nat.pow 10 k.toNat
    closed := i.closed }

/-- The whole number in the interval that is nearest to its value, if one of the two neighbours of
the value lies in the interval. -/
def nearestWhole? (tie : Tie) (i : Interval) : Option Nat :=
  let below := i.value / i.denominator
  let above := below + 1
  let rest := i.value % i.denominator
  match i.contains (below * i.denominator), i.contains (above * i.denominator) with
  | true, false => some below
  | false, true => some above
  | false, false => none
  | true, true =>
    if 2 * rest < i.denominator then some below
    else if i.denominator < 2 * rest then some above
    else match tie with
      | .up => some above
      | .even => some (if below % 2 = 0 then below else above)

/-- Try the grids from `10 ^ k` downwards. -/
def coarsest (tie : Tie) (i : Interval) : Nat → Int → Scaled
  | 0, k => ⟨(i.inUnits k).value / (i.inUnits k).denominator, k⟩
  | steps + 1, k =>
    match (i.inUnits k).nearestWhole? tie with
    | some digits => ⟨digits, k⟩
    | none => coarsest tie i steps (k - 1)

end Magnitude.Interval

/-- The exponent `k` with which the search begins. The next coarser grid starts with `10 ^ (k + 1)`,
which is beyond the interval, so that no coarser one has a point in it. -/
def Magnitude.startExponent (x : Magnitude) : Int :=
  let bits := (x.mantissa.log2 : Int) + x.exponent
  Int.fdiv ((bits + 2) * 30103) 100000 + 1

/-- The shortest decimal for a finite double other than zero. Seventeen digits tell all doubles
apart, and the first grid is at most three places coarser than the first digit, so that a grid is
found within the given number of steps. -/
def Magnitude.shortest (tie : Tie) (x : Magnitude) : Scaled :=
  x.interval.coarsest tie 24 x.startExponent

end Metrology.Decimal
