namespace TapeMachine.Json

/-- The value of a number: an unsigned or a negative 64-bit integer, or a double. -/
inductive Number where
  | natural (n : UInt64)
  | negative (n : Int64)
  | real (x : Float)

structure Spelling where
  negative : Bool
  whole : List Char
  fraction : Option (List Char)
  exponent : Option (Bool × List Char)
deriving DecidableEq

def digits (cs : List Char) : List Char × List Char :=
  (cs.takeWhile Char.isDigit, cs.dropWhile Char.isDigit)

/-- The part after a point, if there is a point; a point needs a digit after it. -/
def readFraction : List Char → Option (Option (List Char) × List Char)
  | '.' :: cs =>
    match digits cs with
    | ([], _) => none
    | (ds, rest) => some (some ds, rest)
  | cs => some (none, cs)

def readPower (negative : Bool) (cs : List Char) :
    Option (Option (Bool × List Char) × List Char) :=
  match digits cs with
  | ([], _) => none
  | (ds, rest) => some (some (negative, ds), rest)

/-- The part after `e` or `E`, if there is one: a sign, which may be missing, and digits. -/
def readExponent : List Char → Option (Option (Bool × List Char) × List Char)
  | c :: cs =>
    if c = 'e' ∨ c = 'E' then
      match cs with
      | '+' :: rest => readPower false rest
      | '-' :: rest => readPower true rest
      | rest => readPower false rest
    else some (none, c :: cs)
  | [] => some (none, [])

/-- The spelling of a number at the front of a text. A zero in front of another digit is refused. -/
def Spelling.read? (cs : List Char) : Option (Spelling × List Char) := do
  let (negative, cs) := match cs with
    | '-' :: rest => (true, rest)
    | cs => (false, cs)
  let (whole, cs) ← match digits cs with
    | ([], _) => none
    | ('0' :: _ :: _, _) => none
    | (ds, rest) => some (ds, rest)
  let (fraction, cs) ← readFraction cs
  let (exponent, cs) ← readExponent cs
  return (⟨negative, whole, fraction, exponent⟩, cs)

def digitValue (c : Char) : Nat := c.toNat - '0'.toNat

/-- A significand below `2 ^ 64` and a power of ten. -/
structure Scaled where
  significand : Nat
  exponent : Int
deriving DecidableEq

/-- Takes in the digits before the point. From the first one that the significand has no room
for, digits only raise the exponent. -/
def Scaled.addWhole (s : Scaled) : List Char → Scaled
  | [] => s
  | d :: ds =>
    let next := s.significand * 10 + digitValue d
    if s.exponent = 0 ∧ next < UInt64.size then Scaled.addWhole ⟨next, 0⟩ ds
    else Scaled.addWhole ⟨s.significand, s.exponent + 1⟩ ds

/-- Takes in the digits after the point, up to the first one that the significand has no room
for. -/
def Scaled.addFraction (s : Scaled) : List Char → Scaled
  | [] => s
  | d :: ds =>
    let next := s.significand * 10 + digitValue d
    if next < UInt64.size then Scaled.addFraction ⟨next, s.exponent - 1⟩ ds else s

def powerOfTen (n : Nat) : Float := Float.ofScientific 1 false n

/-- Divides by `10 ^ n`, at most 308 powers at a time; zero stays zero. -/
def divideByPower (x : Float) (n : Nat) : Float :=
  if n ≤ 308 then x / powerOfTen n
  else if x == 0 then x
  else divideByPower (x / powerOfTen 308) (n - 308)
termination_by n

/-- The double that a scaled significand stands for: one multiplication or division, each rounded.
There is none when it would be infinite. -/
def Scaled.toFloat? (s : Scaled) : Option Float :=
  let x := s.significand.toUInt64.toFloat
  if s.exponent < 0 then some (divideByPower x s.exponent.natAbs)
  else if s.exponent ≤ 308 then
    let y := x * powerOfTen s.exponent.natAbs
    if y.isInf then none else some y
  else if s.significand = 0 then some x
  else none

def greatestExponent : Nat := 1 <<< 31 - 1

/-- Adds a spelled exponent. One past the greatest leaves zero, or no number at all when a
significand other than zero is raised by it. -/
def Scaled.raise? (s : Scaled) (negative : Bool) (ds : List Char) : Option Scaled :=
  let power := ds.foldl (fun n d => n * 10 + digitValue d) 0
  if greatestExponent < power then
    if s.significand ≠ 0 ∧ ¬ negative then none else some ⟨0, 0⟩
  else
    let sum := if negative then s.exponent - power else s.exponent + power
    some ⟨s.significand, max (-greatestExponent - 1) (min greatestExponent sum)⟩

def signed (negative : Bool) (x : Float) : Float := if negative then -x else x

/-- The value of a spelling. Without fraction and exponent it is an integer where 64 bits hold it,
except that a negative zero is a double. A number too great for a double has no value. -/
def Spelling.value? (p : Spelling) : Option Number :=
  let s := Scaled.addWhole ⟨0, 0⟩ p.whole
  match p.fraction, p.exponent with
  | none, none =>
    if s.exponent = 0 then
      if p.negative then
        if 0 < s.significand ∧ s.significand ≤ 1 <<< 63 then
          some (.negative (Int64.ofInt (-s.significand)))
        else some (.real (-s.significand.toUInt64.toFloat))
      else some (.natural s.significand.toUInt64)
    else s.toFloat?.map fun x => .real (signed p.negative x)
  | fraction, exponent => do
    let s := s.addFraction (fraction.getD [])
    let s ← match exponent with
      | none => some s
      | some (negative, ds) => s.raise? negative ds
    let x ← s.toFloat?
    return .real (signed p.negative x)

end TapeMachine.Json
