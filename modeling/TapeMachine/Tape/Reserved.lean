import Std.Data.HashMap
import TapeMachine.Memory
import TapeMachine.Tape.Basic

namespace TapeMachine

/-- A number of cells, and the contents of those that were written. -/
structure Reserved where
  capacity : Nat
  cells : Std.HashMap (Fin capacity) Symbol := ∅

namespace Reserved

def cellBytes : Nat := 4

/-- The cell that position 0 stands for: the middle one. -/
def origin (t : Reserved) : Nat := t.capacity / 2

/-- The cell of a position, if the reservation has one. -/
def index? (t : Reserved) (p : Position) : Option (Fin t.capacity) :=
  if h : 0 ≤ p.toInt + t.origin ∧ p.toInt + t.origin < t.capacity then
    some ⟨(p.toInt + t.origin).toNat, by omega⟩
  else none

def read (t : Reserved) (p : Position) : Symbol :=
  match t.index? p with
  | some i => t.cells.getD i .blank
  | none => .blank

def refusal? (t : Reserved) (p : Position) : Option Fault :=
  if (t.index? p).isSome then none else some (.outside p t.capacity)

def set (t : Reserved) (p : Position) (s : Symbol) : Reserved :=
  match t.index? p with
  | some i => { t with cells := t.cells.insert i s }
  | none => t

def stop (t : Reserved) : Position := Int64.ofNat (t.capacity - t.origin)

instance : Tape Reserved := ⟨read, refusal?, set, fun t => some t.stop⟩

end Reserved

/-- A reservation, and the address of its first cell. -/
structure Mapping where
  base : Pointer
  tape : Reserved

/-- Reserves as many whole cells as fit into `size` bytes. -/
def Mapping.allocate (memory : Memory) (size : UInt64) : Except IoError Mapping :=
  match memory.reserve size with
  | .error e => .error e
  | .ok base =>
    if base = 0 then .error (.described .other "mmap returned a null mapping")
    else .ok ⟨base, { capacity := size.toNat / Reserved.cellBytes }⟩

def Reserved.allocate (memory : Memory) (size : UInt64) : Except IoError Reserved :=
  (Mapping.allocate memory size).map (·.tape)

end TapeMachine
