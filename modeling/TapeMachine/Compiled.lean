import TapeMachine.Automaton
import TapeMachine.Tape.Reserved
import TapeMachine.Utf8.Basic

namespace TapeMachine

/-- An address, as its distance in bytes from the origin cell. -/
abbrev Displacement := Int64

namespace Reserved

def addressOf (p : Position) : Displacement := p * 4

/-- The position of the cell that an address lies in: every cell takes four bytes. -/
def positionOf (d : Displacement) : Position := Int64.ofInt (d.toInt.fdiv 4)

/-- The cell at an address, which has to be the address of its first byte. -/
def cellAt? (t : Reserved) (d : Displacement) : Option (Fin t.capacity) :=
  if d.toInt % 4 = 0 then t.index? (positionOf d) else none

end Reserved

/-- A compiled automaton is handed the address of a cell and returns the address it halts on. -/
abbrev Compiled := Reserved → Displacement → Except Stop Displacement × Reserved

namespace Compiled

/-- A missing transition as a compiled automaton reports it: the state is a string that ends at
the first null byte, or is not given at all. -/
def failure (state : Option (List UInt8)) (symbol : Symbol) : NoTransition :=
  match state with
  | none => ⟨"<unknown>", symbol⟩
  | some bytes => ⟨Utf8.lossyText (bytes.takeWhile (· ≠ 0)), symbol⟩

/-- Runs a compiled automaton on a tape: heads are turned into addresses and back. Compiled code has
to halt on an address of the reservation; what becomes of any other shows in `Mapping.run`. -/
def automaton (f : Compiled) : Automaton Reserved := fun t head =>
  match f t (Reserved.addressOf head) with
  | (.error e, t) => (.error e, t)
  | (.ok d, t) => (.ok (Reserved.positionOf d), t)

end Compiled

namespace Program

variable {σ : Type}

def compileFrom (p : Program σ) : (fuel : Nat) → σ → Compiled
  | 0, _, t, _ => (.error .unfinished, t)
  | fuel + 1, s, t, d =>
    if p.halted s then (.ok d, t)
    else
      match t.cellAt? d with
      | none => (.error (.fault (.outside (Reserved.positionOf d) t.capacity)), t)
      | some i =>
        let symbol := t.cells.getD i .blank
        match p.action? s symbol with
        | none =>
          let name := Utf8.bytesOf (p.name s)
          (.error (.error (.transition (Compiled.failure (some name) symbol))), t)
        | some a =>
          let t := match a.write with
            | none => t
            | some written => { t with cells := t.cells.insert i written }
          compileFrom p fuel a.next t (d + a.move * 4)

/-- The compiled form of a program: the same steps, with cells as words in memory. -/
def compile (p : Program σ) : Compiled := p.compileFrom stepLimit p.start

end Program

/-- The difference of two numbers, if there is one of 64 bits. -/
def checkedSub (x y : Int64) : Except Fault Int64 :=
  if Int64.minValue.toInt ≤ x.toInt - y.toInt ∧ x.toInt - y.toInt ≤ Int64.maxValue.toInt then
    .ok (x - y)
  else .error .subtractOverflow

namespace Mapping

/-- The address of the cell at position 0. -/
def originPtr (m : Mapping) : Pointer := m.base + UInt64.ofNat (Reserved.cellBytes * m.tape.origin)

def addressAt (m : Mapping) (d : Displacement) : Pointer := m.originPtr + d.toUInt64

/-- The address of a cell, whether the reservation has it or not. -/
def cellPtr (m : Mapping) (p : Position) : Pointer := m.addressAt (Reserved.addressOf p)

/-- The distance of an address from the origin cell, as linked code finds it. -/
def displacementOf (m : Mapping) (a : Pointer) : Displacement := a.toInt64 - m.originPtr.toInt64

/-- The position of the cell that an address lies in. Both addresses are taken as signed numbers,
and it is a fault if these are too far from each other. -/
def positionOf (m : Mapping) (a : Pointer) : Except Fault Position :=
  (checkedSub a.toInt64 m.originPtr.toInt64).map Reserved.positionOf

/-- Runs linked code: it is handed the pointer to a cell and returns the one it halts on. -/
def run (m : Mapping) (code : Mapping → Pointer → Except Stop Pointer × Mapping)
    (head : Position) : Except Stop Position × Mapping :=
  match code m (m.cellPtr head) with
  | (.error e, m) => (.error e, m)
  | (.ok a, m) => ((m.positionOf a).mapError .fault, m)

end Mapping

def Compiled.link (f : Compiled) (m : Mapping) (a : Pointer) : Except Stop Pointer × Mapping :=
  let (r, t) := f m.tape (m.displacementOf a)
  let after : Mapping := { m with tape := t }
  (r.map after.addressAt, after)

end TapeMachine
