/-
  The shortest decimal of a binary number. A binary number stands for the interval of reals that
  round to it; its shortest decimal is the point of that interval on the coarsest grid of powers of
  ten that has one, and of two such points the nearer.
-/

namespace Gherkin.Decimal

/-- The positive number `mantissa * 2 ^ exponent`; the gap to its lower neighbour is half the gap
to its upper one if `narrow`. -/
structure Binary where
  mantissa : Nat
  exponent : Int
  narrow : Bool

/-- The magnitude of a finite double by its bits. -/
def Binary.ofBits (bits : UInt64) : Binary :=
  let e := ((bits >>> 52) &&& 0x7ff).toNat
  let m := (bits &&& 0xfffffffffffff).toNat
  if e = 0 then ⟨m, -1074, false⟩ else ⟨Nat.pow 2 52 + m, e - 1075, m = 0 && e > 1⟩

/-- The number `digits * 10 ^ exponent`. -/
structure Scientific where
  digits : Nat
  exponent : Int
deriving DecidableEq

/-- The point of the grid of `10 ^ k` that reads back as `b`, if there is one. With `unit` the
quarter of the last binary place, the ends of the interval and the grid are whole multiples of a
common measure, so the comparisons are exact. An even mantissa owns the ends of its interval; a tie
between two points goes to the even one. -/
def onGrid (b : Binary) (k : Int) : Option Nat :=
  let unit := b.exponent - 2
  let scale := Nat.pow 2 unit.toNat * Nat.pow 10 (-k).toNat
  let grid := Nat.pow 2 (-unit).toNat * Nat.pow 10 k.toNat
  let value := 4 * b.mantissa * scale
  let low := (4 * b.mantissa - if b.narrow then 1 else 2) * scale
  let high := (4 * b.mantissa + 2) * scale
  let inside (n : Nat) : Bool :=
    if b.mantissa % 2 = 0 then low ≤ n * grid && n * grid ≤ high
    else low < n * grid && n * grid < high
  let below := value / grid
  let above := below + 1
  match inside below, inside above with
  | true, true =>
    let twice := 2 * value
    let middle := (below + above) * grid
    some (if twice < middle || (twice = middle && below % 2 = 0) then below else above)
  | true, false => some below
  | false, true => some above
  | false, false => none

/-- Searches the grids of `10 ^ (top - n)`, …, from the coarsest one. -/
def search (b : Binary) (k : Int) : Nat → Option Scientific
  | 0 => none
  | n + 1 =>
    match onGrid b k with
    | some digits => some ⟨digits, k⟩
    | none => search b (k - 1) n

/-- The shortest decimal of a positive double. No double reaches `10 ^ 309`, and on the grid of
`10 ^ (-343)` each one has a point of its own. -/
def shortest (b : Binary) : Scientific := (search b 309 653).getD ⟨0, 0⟩

end Gherkin.Decimal
