import TapeMachine.Tape.Basic

namespace TapeMachine

abbrev Automaton (T : Type) := T → Position → Except Stop Position × T

namespace Automaton

/-- Halts at once, so that what was ingested is what is reported. -/
def echo {T : Type} : Automaton T := fun t head => (.ok head, t)

/-- Has no transition on the symbol under the head. -/
def reject {T : Type} [Tape T] : Automaton T := fun t head =>
  (.error (.error (.transition ⟨"reject", Tape.read t head⟩)), t)

end Automaton

structure Action (σ : Type) where
  write : Option Symbol
  move : Int64
  next : σ

/-- A program with states in `σ`. Where `action?` has nothing to offer, the run fails in the state
called `name`. -/
structure Program (σ : Type) where
  start : σ
  halted : σ → Bool
  name : σ → String
  action? : σ → Symbol → Option (Action σ)

namespace Program

/-- No run that ends takes this many steps. -/
def stepLimit : Nat := 1 <<< 62

variable {σ T : Type} [Tape T]

def runFrom (p : Program σ) : (fuel : Nat) → σ → Automaton T
  | 0, _, t, _ => (.error .unfinished, t)
  | fuel + 1, s, t, head =>
    if p.halted s then (.ok head, t)
    else
      let symbol := Tape.read t head
      match p.action? s symbol with
      | none => (.error (.error (.transition ⟨p.name s, symbol⟩)), t)
      | some a =>
        match a.write with
        | none => runFrom p fuel a.next t (head + a.move)
        | some written =>
          match Tape.refusal? t head with
          | some f => (.error (.fault f), t)
          | none => runFrom p fuel a.next (Tape.set t head written) (head + a.move)

def automaton (p : Program σ) : Automaton T := p.runFrom stepLimit p.start

end Program

/-- A rule: in a state and on a symbol, or on any symbol, write or leave the cell, move, go on. -/
structure Rule where
  state : String
  read : Option Symbol
  write : Option Symbol
  move : Int64
  next : String
deriving DecidableEq

/-- A program as a list of rules, of which the first that fits counts. -/
structure RuleTable where
  start : String := "H"
  halt : List String := ["H"]
  rules : List Rule := []
deriving DecidableEq

namespace RuleTable

def fits (state : String) (symbol : Symbol) (r : Rule) : Bool :=
  r.state = state && (r.read.all (· = symbol))

def program (m : RuleTable) : Program String where
  start := m.start
  halted := (· ∈ m.halt)
  name := id
  action? state symbol :=
    (m.rules.find? (fits state symbol)).map fun r => ⟨r.write, r.move, r.next⟩

end RuleTable

end TapeMachine
