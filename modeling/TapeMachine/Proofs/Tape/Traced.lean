import TapeMachine.Automaton
import TapeMachine.Tape.Basic

namespace TapeMachine

/-- What is left of a run: it ends, or it reads or writes a cell, anywhere, and goes on. -/
inductive Script where
  | done (result : Except Stop Position)
  | read (p : Position) (next : Symbol → Script)
  | write (p : Position) (s : Symbol) (next : Script)

namespace Script

variable {T : Type} [Tape T]

def run : Script → T → Except Stop Position × T
  | done result, t => (result, t)
  | read p next, t => run (next (Tape.read t p)) t
  | write p s next, t =>
    match Tape.refusal? t p with
    | some f => (.error (.fault f), t)
    | none => run next (Tape.set t p s)

def automaton (scripts : Position → Script) : Automaton T := fun t head => (scripts head).run t

end Script

namespace Program

variable {σ T : Type} [Tape T]

/-- The script of a program that is given so many steps. -/
def script (p : Program σ) : (fuel : Nat) → σ → Position → Script
  | 0, _, _ => .done (.error .unfinished)
  | fuel + 1, s, head =>
    if p.halted s then .done (.ok head)
    else
      .read head fun symbol =>
        match p.action? s symbol with
        | none => .done (.error (.error (.transition ⟨p.name s, symbol⟩)))
        | some a =>
          match a.write with
          | none => script p fuel a.next (head + a.move)
          | some written => .write head written (script p fuel a.next (head + a.move))

theorem run_script (p : Program σ) (fuel : Nat) (s : σ) (head : Position) (t : T) :
    (p.script fuel s head).run t = p.runFrom fuel s t head := by
  induction fuel generalizing s head t with
  | zero => rfl
  | succ fuel ih =>
    rw [script, runFrom]
    split
    next => rfl
    next =>
      simp only [Script.run]
      cases p.action? s (Tape.read t head) with
      | none => rfl
      | some a =>
        simp only
        cases a.write with
        | none => exact ih a.next (head + a.move) t
        | some written =>
          simp only [Script.run]
          cases Tape.refusal? t head with
          | none => exact ih a.next (head + a.move) (Tape.set t head written)
          | some f => rfl

/-- Every program reaches its tape through reads and writes only. -/
theorem automaton_eq_script (p : Program σ) :
    (p.automaton : Automaton T) = Script.automaton (p.script stepLimit p.start) := by
  funext t head
  exact (p.run_script stepLimit p.start head t).symm

end Program

/-- A tape and the positions at which a write was tried, the last one first. It refuses nothing: a
write that the tape underneath refuses has been tried, and leaves it as it was. -/
structure Traced (T : Type) where
  tape : T
  tried : List Position := []

namespace Traced

variable {T : Type} [Tape T]

def set (t : Traced T) (p : Position) (s : Symbol) : Traced T where
  tape :=
    match Tape.refusal? t.tape p with
    | some _ => t.tape
    | none => Tape.set t.tape p s
  tried := p :: t.tried

instance : Tape (Traced T) :=
  ⟨fun t => Tape.read t.tape, fun _ _ => none, set, fun t => Tape.stop t.tape⟩

theorem mem_tried_place {p : Position} {t : Traced T} (h : p ∈ t.tried) (q : Position)
    (xs : List Symbol) : p ∈ (Tape.place t q xs).2.tried := by
  induction xs generalizing t q with
  | nil => exact h
  | cons s xs ih => exact ih (List.mem_cons_of_mem q h) (q + 1)

theorem mem_tried_run {p : Position} {t : Traced T} (h : p ∈ t.tried) (script : Script) :
    p ∈ (script.run t).2.tried := by
  induction script generalizing t with
  | done result => exact h
  | read q next ih => exact ih (Tape.read t q) h
  | write q s next ih => exact ih (List.mem_cons_of_mem q h)

end Traced

/-- Tapes that cannot be told apart by reading, before and after both are written alike at some of
the positions, where neither refuses. -/
structure Interchangeable {S T : Type} [Tape S] [Tape T] (allowed : Position → Prop)
    (R : S → T → Prop) : Prop where
  read : ∀ {s t}, R s t → ∀ p, Tape.read s p = Tape.read t p
  refusal : ∀ {s t}, R s t → ∀ {p}, allowed p →
    Tape.refusal? s p = none ∧ Tape.refusal? t p = none
  set : ∀ {s t}, R s t → ∀ {p}, allowed p → ∀ x, R (Tape.set s p x) (Tape.set t p x)

namespace Interchangeable

variable {S T : Type} [Tape S] [Tape T] {allowed : Position → Prop} {R : S → T → Prop}
  {s : Traced S} {t : T}

theorem set_traced (i : Interchangeable allowed R) (h : R s.tape t) {p : Position}
    (hp : allowed p) (x : Symbol) :
    Tape.refusal? t p = none ∧ R (Tape.set s p x).tape (Tape.set t p x) := by
  obtain ⟨hs, ht⟩ := i.refusal h hp
  refine ⟨ht, ?_⟩
  have he : (Tape.set s p x).tape = Tape.set s.tape p x := by
    change (match Tape.refusal? s.tape p with
      | some _ => s.tape
      | none => Tape.set s.tape p x) = _
    rw [hs]
  rw [he]
  exact i.set h hp x

theorem place (i : Interchangeable allowed R) (h : R s.tape t) {p : Position} {xs : List Symbol}
    (within : ∀ q ∈ (Tape.place s p xs).2.tried, allowed q) :
    (∃ r, (Tape.place s p xs).1 = .ok r ∧ (Tape.place t p xs).1 = .ok r) ∧
      R (Tape.place s p xs).2.tape (Tape.place t p xs).2 := by
  induction xs generalizing s t p with
  | nil => exact ⟨⟨p, rfl, rfl⟩, h⟩
  | cons x xs ih =>
    have hp : allowed p := within p (Traced.mem_tried_place List.mem_cons_self (p + 1) xs)
    obtain ⟨ht, hset⟩ := i.set_traced h hp x
    have hs : Tape.place s p (x :: xs) = Tape.place (Tape.set s p x) (p + 1) xs := rfl
    rw [hs] at within ⊢
    rw [Tape.place, ht]
    exact ih hset within

theorem run (i : Interchangeable allowed R) (h : R s.tape t) {script : Script}
    (within : ∀ q ∈ (script.run s).2.tried, allowed q) :
    (script.run s).1 = (script.run t).1 ∧ R (script.run s).2.tape (script.run t).2 := by
  induction script generalizing s t with
  | done result => exact ⟨rfl, h⟩
  | read p next ih =>
    rw [Script.run] at within ⊢
    rw [Script.run, ← i.read h p]
    exact ih (Tape.read s.tape p) h within
  | write p x next ih =>
    have hp : allowed p := within p (Traced.mem_tried_run List.mem_cons_self next)
    obtain ⟨ht, hset⟩ := i.set_traced h hp x
    have hs : (Script.write p x next).run s = next.run (Tape.set s p x) := rfl
    rw [hs] at within ⊢
    rw [Script.run, ht]
    exact ih hset within

end Interchangeable

end TapeMachine
