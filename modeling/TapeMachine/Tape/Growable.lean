import Std.Data.HashMap
import TapeMachine.Tape.Basic

namespace TapeMachine

/-- Cells left of the origin, nearest first, and cells from the origin on. -/
structure Growable where
  left : Array Symbol := #[]
  right : Array Symbol := #[]
deriving DecidableEq

namespace Growable

def empty : Growable := {}

/-- A half of this many cells would take more bytes than can be addressed. -/
def cellLimit : Nat := 1 <<< 61

def leftIndex (p : Position) : Nat := (-p.toInt - 1).toNat

/-- The place of a position in its half. -/
def index (p : Position) : Nat := if 0 ≤ p then p.toInt.toNat else leftIndex p

/-- Writes into a half, which is filled up with blanks as far as needed. -/
def put (half : Array Symbol) (i : Nat) (s : Symbol) : Array Symbol :=
  if h : i < half.size then half.set i s
  else (half ++ Array.replicate (i - half.size) Symbol.blank).push s

def read (t : Growable) (p : Position) : Symbol :=
  if 0 ≤ p then t.right.getD (index p) .blank else t.left.getD (index p) .blank

/-- A write that would make a half too large is refused. -/
def refusal? (p : Position) : Option Fault :=
  if cellLimit ≤ index p + 1 then some .capacityOverflow else none

def set (t : Growable) (p : Position) (s : Symbol) : Growable :=
  if 0 ≤ p then { t with right := put t.right (index p) s }
  else { t with left := put t.left (index p) s }

/-- The leftmost position in use, at most 0. -/
def min (t : Growable) : Position := -Int64.ofNat t.left.size

/-- One past the rightmost position in use, at least 0. -/
def max (t : Growable) : Position := Int64.ofNat t.right.size

instance : Tape Growable := ⟨read, fun _ => refusal?, set, fun t => some t.max⟩

end Growable

structure Sparse where
  cells : Std.HashMap Position Symbol := ∅

namespace Sparse

def empty : Sparse := {}

def read (t : Sparse) (p : Position) : Symbol := t.cells.getD p .blank

def set (t : Sparse) (p : Position) (s : Symbol) : Sparse := ⟨t.cells.insert p s⟩

instance : Tape Sparse := ⟨read, fun _ _ => none, set, fun _ => none⟩

end Sparse

end TapeMachine
