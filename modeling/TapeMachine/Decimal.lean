import TapeMachine.Text

namespace TapeMachine

structure Decimal where
  digits : Nat
  exponent : Int
deriving DecidableEq

namespace Decimal

/-- A binary number `mantissa * 2 ^ exponent`; `narrow` says that the next number below is only
half as far away as the next number above. -/
structure Binary where
  mantissa : Nat
  exponent : Int
  narrow : Bool

/-- The magnitude of a finite double. -/
def Binary.ofFloat (x : Float) : Binary :=
  let bits : Nat := x.toBits.toNat
  let field : Nat := (bits >>> 52) % (1 <<< 11)
  let fraction : Nat := bits % (1 <<< 52)
  if field = 0 then ⟨fraction, -1074, false⟩
  else ⟨fraction + (1 <<< 52), (field : Int) - 1075, fraction = 0 ∧ 1 < field⟩

/-- The number of digits of the integer part of `b * 10 ^ 400`, less 400: the place of the first
digit of `b`, where units are place 1. -/
def Binary.place (b : Binary) : Int :=
  let scaled := (b.mantissa * Nat.pow 10 400) <<< b.exponent.toNat >>> (-b.exponent).toNat
  ((Nat.toDigits 10 scaled).length : Int) - 400

/-- The multiple of `10 ^ unit` that is nearest to `b` and rounds to it, if there is one; of two
equally near the even one. Both sides are compared in quarters of `2 ^ b.exponent`. -/
def Binary.onGrid? (b : Binary) (unit : Int) : Option Decimal :=
  let scale := Nat.pow 10 (-unit).toNat <<< (b.exponent - 2).toNat
  let step := Nat.pow 10 unit.toNat <<< (2 - b.exponent).toNat
  let value := 4 * b.mantissa * scale
  let low := (4 * b.mantissa - if b.narrow then 1 else 2) * scale
  let high := (4 * b.mantissa + 2) * scale
  let rounds (d : Nat) : Bool :=
    if b.mantissa % 2 = 0 then low ≤ d * step ∧ d * step ≤ high
    else low < d * step ∧ d * step < high
  let below := value / step
  let above := below + 1
  let nearer : Bool :=
    let down := value - below * step
    let up := above * step - value
    down < up ∨ (down = up ∧ below % 2 = 0)
  if rounds below ∧ (nearer ∨ ¬ rounds above) then some ⟨below, unit⟩
  else if rounds above then some ⟨above, unit⟩
  else none

def trim : (fuel : Nat) → Decimal → Decimal
  | 0, d => d
  | fuel + 1, d =>
    if d.digits ≠ 0 ∧ d.digits % 10 = 0 then trim fuel ⟨d.digits / 10, d.exponent + 1⟩ else d

/-- Tries grids of 1, 2, … 17 digits in turn; seventeen digits always suffice. -/
def shortest (b : Binary) : Decimal :=
  if b.mantissa = 0 then ⟨0, 0⟩
  else
    let grids := (List.range 17).map fun (n : Nat) => b.place - 1 - n
    trim 17 ((grids.findSome? b.onGrid?).getD ⟨0, 0⟩)

end Decimal

end TapeMachine

namespace TapeMachine.Decimal

/-- Numbers whose first digit stands at a power of ten between `least` and `greatest` are written
positionally, with at least one digit after the point. -/
structure Layout where
  least : Int
  greatest : Int

/-- Positional from `0.00001` to below `10 ^ 16`. -/
def diagnostic : Layout := ⟨-5, 15⟩

/-- Digits with a point after the first `whole` of them, and zeros where digits are missing. -/
def positional (digits : List Char) (whole : Int) : List Char :=
  if whole ≤ 0 then
    ['0', '.'] ++ List.replicate (-whole).toNat '0' ++ digits
  else if digits.length ≤ whole.toNat then
    digits ++ List.replicate (whole.toNat - digits.length) '0' ++ ['.', '0']
  else
    digits.take whole.toNat ++ ['.'] ++ digits.drop whole.toNat

/-- One digit, the others after a point if there are any, and the signed power of ten. -/
def scientific (digits : List Char) (power : Int) : List Char :=
  let fraction := if digits.length ≤ 1 then [] else '.' :: digits.drop 1
  digits.take 1 ++ fraction ++ ['e', if power < 0 then '-' else '+'] ++
    Nat.toDigits 10 power.natAbs

def Layout.text (n : Layout) (x : Float) : String :=
  let d := shortest (Binary.ofFloat x)
  let digits := Nat.toDigits 10 d.digits
  let power := d.exponent + digits.length - 1
  let sign := if x.toBits.toNat >>> 63 = 1 then ['-'] else []
  String.ofList <| sign ++
    if n.least ≤ power ∧ power ≤ n.greatest then positional digits (power + 1)
    else scientific digits power

end TapeMachine.Decimal
