/-!
The shortest decimal that reads back as a given double. A finite double is `m * 2^q`; the reals
that round to it form an interval around it, closed exactly when `m` is even. Among the grids of
multiples of a power of ten, the coarsest one that has a point in the interval gives the digits,
and of two such points the nearer one is taken. All arithmetic is on natural numbers.
-/

namespace BehaviorTree.Decimal

/-- A decimal number `coefficient * 10^exponent`. -/
structure Scaled where
  coefficient : Nat
  exponent : Int
  deriving DecidableEq, Repr

/-- A positive double `mantissa * 2^exponent`. It is `narrow` when the next smaller double is only
half as far away as the next larger one. -/
structure Binary where
  mantissa : Nat
  exponent : Int
  narrow : Bool
  deriving DecidableEq, Repr

/-- What the 64 bits of a double stand for. -/
inductive Reading where
  | nan
  | infinite (negative : Bool)
  | zero (negative : Bool)
  | finite (negative : Bool) (magnitude : Binary)
  deriving DecidableEq, Repr

def Reading.ofBits (bits : Nat) : Reading :=
  let negative := bits / Nat.pow 2 63 % 2 == 1
  let field : Nat := bits / Nat.pow 2 52 % Nat.pow 2 11
  let fraction : Nat := bits % Nat.pow 2 52
  if field = 2047 then (if fraction = 0 then .infinite negative else .nan)
  else if field = 0 then
    if fraction = 0 then .zero negative
    else .finite negative { mantissa := fraction, exponent := -1074, narrow := false }
  else
    .finite negative
      { mantissa := Nat.pow 2 52 + fraction, exponent := (field : Int) - 1075,
        narrow := fraction == 0 && field != 1 }

def Reading.ofFloat (x : Float) : Reading := .ofBits x.toBits.toNat

namespace Binary

/-- The interval of reals that round to the double, in quarters of its last place. -/
def lowest (value : Binary) : Nat := 4 * value.mantissa - (if value.narrow then 1 else 2)

def highest (value : Binary) : Nat := 4 * value.mantissa + 2

def closed (value : Binary) : Bool := value.mantissa % 2 == 0

/-- The factors that bring quarters of the last place, and multiples of `10^grid`, to a common
integral unit. -/
def quarterUnit (value : Binary) (grid : Int) : Nat :=
  Nat.pow 2 (value.exponent - 2).toNat * Nat.pow 10 (-grid).toNat

def gridUnit (value : Binary) (grid : Int) : Nat :=
  Nat.pow 10 grid.toNat * Nat.pow 2 (2 - value.exponent).toNat

/-- Whether `point * 10^grid` reads back as the double. -/
def accepts (value : Binary) (grid : Int) (point : Nat) : Bool :=
  let scaled := point * value.gridUnit grid
  let low := value.lowest * value.quarterUnit grid
  let high := value.highest * value.quarterUnit grid
  if value.closed then low ≤ scaled && scaled ≤ high else low < scaled && scaled < high

/-- The grid point at or below the double. -/
def floorPoint (value : Binary) (grid : Int) : Nat :=
  4 * value.mantissa * value.quarterUnit grid / value.gridUnit grid

/-- The nearest grid point that reads back, if one of the two neighbours does. A tie goes to the
even point. -/
def pointOn? (value : Binary) (grid : Int) : Option Nat :=
  let below := value.floorPoint grid
  let exact := 4 * value.mantissa * value.quarterUnit grid
  let fromBelow := exact - below * value.gridUnit grid
  let toAbove := (below + 1) * value.gridUnit grid - exact
  match value.accepts grid below, value.accepts grid (below + 1) with
  | true, true =>
      if fromBelow < toAbove || (fromBelow == toAbove && below % 2 == 0) then some below
      else some (below + 1)
  | true, false => some below
  | false, true => some (below + 1)
  | false, false => none

/-- Tries ever finer grids. The last one, at which the double itself is a point, needs no test. -/
def search (value : Binary) : Nat → Int → Scaled
  | 0, grid => ⟨value.floorPoint grid, grid⟩
  | steps + 1, grid =>
      match value.pointOn? grid with
      | some point => ⟨point, grid⟩
      | none => value.search steps (grid - 1)

/-- The finest grid needed: on it the double itself is a point. -/
def finest (value : Binary) : Int := min value.exponent 0

/-- A grid too coarse for any positive double of this size, because `8^k ≤ 10^k`. -/
def coarsest (value : Binary) : Int :=
  max 0 ((Nat.log2 value.mantissa + 2 + value.exponent) / 3 + 1)

def shortest (value : Binary) : Scaled :=
  value.search (value.coarsest - value.finest).toNat value.coarsest

end Binary

end BehaviorTree.Decimal
