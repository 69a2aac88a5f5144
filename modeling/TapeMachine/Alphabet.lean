import TapeMachine.Text

namespace TapeMachine

structure Symbol where
  code : UInt32
deriving DecidableEq, Hashable

namespace Symbol

/-- The symbol of a cell that was never written. -/
def blank : Symbol := ⟨0⟩

instance : Inhabited Symbol := ⟨blank⟩

/-- Every character is a symbol: its scalar value. -/
def ofChar (c : Char) : Symbol := ⟨c.val⟩

/-- The character of a symbol in the printable range of ASCII, from space to tilde. -/
def printable? (s : Symbol) : Option Char :=
  if 0x20 ≤ s.code ∧ s.code ≤ 0x7E then some (Char.ofNat s.code.toNat) else none

/-- `U+` and at least four upper-case hexadecimal digits. -/
def label (s : Symbol) : String :=
  "U+" ++ String.ofList (Text.hexDigits 4 s.code.toNat)

end Symbol

structure Alphabet where
  symbols : List Symbol
deriving DecidableEq

namespace Alphabet

def empty : Alphabet := ⟨[]⟩

instance : Inhabited Alphabet := ⟨empty⟩

def ofString (s : String) : Alphabet := ⟨s.toList.map Symbol.ofChar⟩

def ofTable (table : List Symbol) (count : Nat) : Alphabet := ⟨table.take count⟩

def size (a : Alphabet) : Nat := a.symbols.length

def isEmpty (a : Alphabet) : Bool := a.symbols.isEmpty

instance : Membership Symbol Alphabet := ⟨fun a s => s ∈ a.symbols⟩

instance (s : Symbol) (a : Alphabet) : Decidable (s ∈ a) :=
  inferInstanceAs (Decidable (s ∈ a.symbols))

end Alphabet

end TapeMachine
