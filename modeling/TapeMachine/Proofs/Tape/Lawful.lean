import Mathlib.Algebra.Ring.Nat
import TapeMachine.Tape.Configured
import TapeMachine.Tape.Growable

namespace TapeMachine

/-- A tape whose cells are independent of each other. -/
class LawfulTape (T : Type) [Tape T] : Prop where
  read_set : ∀ (t : T) (p q : Position) (s : Symbol), Tape.refusal? t p = none →
    Tape.read (Tape.set t p s) q = if q = p then s else Tape.read t q
  refusal_set : ∀ (t : T) (p q : Position) (s : Symbol),
    Tape.refusal? (Tape.set t p s) q = Tape.refusal? t q

namespace Growable

theorem getD_put (half : Array Symbol) (i j : Nat) (s : Symbol) :
    (put half i s).getD j .blank = if j = i then s else half.getD j .blank := by
  simp only [Array.getD_eq_getD_getElem?]
  unfold put
  split
  next h =>
    rw [Array.getElem?_set]
    by_cases hj : i = j
    · simp [hj]
    · simp [hj, Ne.symm hj]
  next h =>
    rw [Array.getElem?_push, Array.getElem?_append, Array.size_append, Array.size_replicate,
      Array.getElem?_replicate]
    by_cases hj : j = i
    · simp [hj, show half.size + (i - half.size) = i by omega]
    · rw [if_neg (by omega), if_neg hj]
      by_cases hb : j < half.size
      · rw [if_pos hb]
      · rw [if_neg hb, Array.getElem?_eq_none (by omega)]
        split <;> rfl

theorem index_inj {p q : Position} (side : 0 ≤ p ↔ 0 ≤ q) : index p = index q ↔ p = q := by
  rw [← Int64.toInt_inj]
  rw [Int64.le_iff_toInt_le, Int64.le_iff_toInt_le, Int64.toInt_zero] at side
  simp only [index, leftIndex, Int64.le_iff_toInt_le, Int64.toInt_zero]
  split <;> split <;> omega

theorem read_set (t : Growable) (p q : Position) (s : Symbol) :
    (t.set p s).read q = if q = p then s else t.read q := by
  unfold read set
  by_cases hp : 0 ≤ p
  · by_cases hq : 0 ≤ q
    · simp only [if_pos hp, if_pos hq, getD_put, index_inj (iff_of_true hq hp)]
    · have hne : q ≠ p := by rintro rfl; exact hq hp
      simp only [if_pos hp, if_neg hq, if_neg hne]
  · by_cases hq : 0 ≤ q
    · have hne : q ≠ p := by rintro rfl; exact hp hq
      simp only [if_neg hp, if_pos hq, if_neg hne]
    · simp only [if_neg hp, if_neg hq, getD_put, index_inj (iff_of_false hq hp)]

instance : LawfulTape Growable := ⟨fun t p q s _ => t.read_set p q s, fun _ _ _ _ => rfl⟩

end Growable

namespace Reserved

theorem index?_inj {t : Reserved} {p q : Position} {i : Fin t.capacity}
    (hp : t.index? p = some i) (hq : t.index? q = some i) : p = q := by
  unfold index? at hp hq
  split at hp
  next hp' =>
    split at hq
    next hq' =>
      have hi := congrArg Fin.val ((Option.some.inj hp).trans (Option.some.inj hq).symm)
      simp only at hi
      apply Int64.toInt_inj.mp
      omega
    next => simp at hq
  next => simp at hp

theorem refusal_eq_none_iff {t : Reserved} {p : Position} :
    t.refusal? p = none ↔ ∃ i, t.index? p = some i := by
  rw [refusal?, ← Option.isSome_iff_exists]
  split <;> simp_all

theorem read_of_index? {t : Reserved} {q : Position} {i : Fin t.capacity}
    (h : t.index? q = some i) (cells : Std.HashMap (Fin t.capacity) Symbol) :
    ({ t with cells } : Reserved).read q = cells.getD i .blank := by
  have hq : ({ t with cells } : Reserved).index? q = some i := h
  simp [read, hq]

theorem read_of_none {t : Reserved} {q : Position} (h : t.index? q = none)
    (cells : Std.HashMap (Fin t.capacity) Symbol) :
    ({ t with cells } : Reserved).read q = .blank := by
  have hq : ({ t with cells } : Reserved).index? q = none := h
  simp [read, hq]

theorem read_set {t : Reserved} {p : Position} (h : t.refusal? p = none) (q : Position)
    (s : Symbol) : (t.set p s).read q = if q = p then s else t.read q := by
  obtain ⟨i, hp⟩ := refusal_eq_none_iff.mp h
  have hset : t.set p s = { t with cells := t.cells.insert i s } := by simp [set, hp]
  rw [hset]
  by_cases hqp : q = p
  · subst q
    simp [read_of_index? hp]
  · rw [if_neg hqp]
    cases hq : t.index? q with
    | none => rw [read_of_none hq, read_of_none hq t.cells]
    | some j =>
      have hne : i ≠ j := by
        rintro rfl
        exact hqp (index?_inj hq hp)
      rw [read_of_index? hq, read_of_index? hq t.cells, Std.HashMap.getD_insert]
      simp [hne]

theorem refusal_set (t : Reserved) (p q : Position) (s : Symbol) :
    (t.set p s).refusal? q = t.refusal? q := by
  unfold set
  split <;> rfl

instance : LawfulTape Reserved :=
  ⟨fun _ _ q s h => read_set h q s, fun t p q s => t.refusal_set p q s⟩

end Reserved

namespace Sparse

instance : LawfulTape Sparse where
  read_set t p q s _ := by
    change (t.cells.insert p s).getD q .blank = _
    rw [Std.HashMap.getD_insert]
    by_cases h : q = p
    · simp [h]
    · simp [h, Ne.symm h, Tape.read, read]
  refusal_set _ _ _ _ := rfl

end Sparse

namespace Configured

instance : LawfulTape Configured where
  read_set t p q s h := by
    cases t with
    | growable t => exact t.read_set p q s
    | reserved t => exact Reserved.read_set h q s
  refusal_set t p q s := by
    cases t with
    | growable t => rfl
    | reserved t => exact t.refusal_set p q s

end Configured

end TapeMachine

namespace TapeMachine.Tape

/-- A write call, and what it met if it could not be done. -/
structure Attempt where
  position : Position
  symbol : Symbol
  fault : Option Fault
deriving DecidableEq

def Attempt.done (a : Attempt) : Bool := a.fault.isNone

variable {T : Type} [Tape T]

/-- One write call. A write that is refused leaves the tape as it was. -/
def attempt (t : T) (p : Position) (s : Symbol) : Attempt × T :=
  match write t p s with
  | .ok u => (⟨p, s, none⟩, u)
  | .error f => (⟨p, s, some f⟩, t)

/-- Write calls one after another, and how each of them went. -/
def attempts (t : T) : List (Position × Symbol) → List Attempt × T
  | [] => ([], t)
  | (p, s) :: calls =>
    let rest := attempts (attempt t p s).2 calls
    ((attempt t p s).1 :: rest.1, rest.2)

/-- The symbol of the last write at a position that was done, if there was one. -/
def lastDone? (log : List Attempt) (p : Position) : Option Symbol :=
  (log.reverse.find? fun a => a.done && a.position = p).map Attempt.symbol

/-- Where writes were done. -/
def donePositions (log : List Attempt) : List Position := (log.filter Attempt.done).map Attempt.position

theorem attempt_of_refusal {t : T} {p : Position} {f : Fault} (h : refusal? t p = some f)
    (s : Symbol) : attempt t p s = (⟨p, s, some f⟩, t) := by
  simp only [attempt, write, h]

theorem attempt_of_none {t : T} {p : Position} (h : refusal? t p = none) (s : Symbol) :
    attempt t p s = (⟨p, s, none⟩, set t p s) := by
  simp only [attempt, write, h]

theorem fst_attempt (t : T) (p : Position) (s : Symbol) :
    (attempt t p s).1 = ⟨p, s, refusal? t p⟩ := by
  cases h : refusal? t p with
  | none => rw [attempt_of_none h]
  | some f => rw [attempt_of_refusal h]

theorem lastDone?_cons (a : Attempt) (log : List Attempt) (p : Position) :
    lastDone? (a :: log) p =
      (lastDone? log p).or (if a.done && a.position = p then some a.symbol else none) := by
  rw [lastDone?, List.reverse_cons, List.find?_append, Option.map_or, List.find?_singleton]
  congr 1
  split <;> rfl

theorem donePositions_cons (a : Attempt) (log : List Attempt) :
    donePositions (a :: log) =
      if a.done then a.position :: donePositions log else donePositions log := by
  rw [donePositions, List.filter_cons]
  split <;> rfl

theorem attempts_keep {P : T → Prop} {t : T} (start : P t)
    (step : ∀ {t : T} {p : Position}, refusal? t p = none → P t → ∀ s, P (set t p s))
    (calls : List (Position × Symbol)) : P (attempts t calls).2 := by
  induction calls generalizing t with
  | nil => exact start
  | cons c calls ih =>
    apply ih
    cases h : refusal? t c.1 with
    | none =>
      rw [attempt_of_none h]
      exact step h start c.2
    | some f =>
      rw [attempt_of_refusal h]
      exact start

theorem place_keep {P : T → Prop} {t : T} (start : P t)
    (step : ∀ {t : T} {p : Position}, refusal? t p = none → P t → ∀ s, P (set t p s))
    (p : Position) (xs : List Symbol) : P (place t p xs).2 := by
  induction xs generalizing t p with
  | nil => exact start
  | cons s xs ih =>
    rw [place]
    cases h : refusal? t p with
    | none => exact ih (step h start s) (p + 1)
    | some f => exact start

/-- A measure that a write changes as its position says is, after all write calls, what the
positions of those that were done make of it. -/
theorem attempts_measure {α : Type} (measure : T → α) (change : α → Position → α)
    (step : ∀ (t : T) (p : Position) (s : Symbol), refusal? t p = none →
      measure (set t p s) = change (measure t) p)
    (t : T) (calls : List (Position × Symbol)) :
    measure (attempts t calls).2 =
      (donePositions (attempts t calls).1).foldl change (measure t) := by
  induction calls generalizing t with
  | nil => rfl
  | cons c calls ih =>
    rw [attempts, donePositions_cons]
    refine (ih _).trans ?_
    cases h : refusal? t c.1 with
    | none =>
      rw [attempt_of_none h, step t c.1 c.2 h]
      rfl
    | some f =>
      rw [attempt_of_refusal h]
      rfl

theorem length_cells (t : T) (p : Position) (count : Nat) : (cells t p count).length = count := by
  rw [cells, List.length_map, List.length_range]

theorem add_ofNat_succ (p : Position) (i : Nat) :
    p + Int64.ofNat (i + 1) = p + 1 + Int64.ofNat i := by
  rw [Int64.ofNat_add, Int64.add_comm (Int64.ofNat i), Int64.add_assoc]
  rfl

theorem cells_succ (t : T) (p : Position) (count : Nat) :
    cells t p (count + 1) = read t p :: cells t (p + 1) count := by
  have first : p + Int64.ofNat 0 = p := Int64.add_zero p
  rw [cells, cells, List.range_succ_eq_map, List.map_cons, List.map_map, first]
  congr 1
  apply List.map_congr_left
  intro i _
  exact congrArg (read t) (add_ofNat_succ p i)

variable [LawfulTape T]

theorem read_attempt (t : T) (p q : Position) (s : Symbol) :
    read (attempt t p s).2 q =
      if (attempt t p s).1.done && (attempt t p s).1.position = q then (attempt t p s).1.symbol
      else read t q := by
  cases h : refusal? t p with
  | none =>
    rw [attempt_of_none h, LawfulTape.read_set t p q s h]
    simp [Attempt.done, eq_comm]
  | some f =>
    rw [attempt_of_refusal h]
    rfl

theorem refusal_attempt (t : T) (p q : Position) (s : Symbol) :
    refusal? (attempt t p s).2 q = refusal? t q := by
  cases h : refusal? t p with
  | none => rw [attempt_of_none h, LawfulTape.refusal_set]
  | some f => rw [attempt_of_refusal h]

theorem fst_attempts (t : T) (calls : List (Position × Symbol)) :
    (attempts t calls).1 = calls.map fun c => ⟨c.1, c.2, refusal? t c.1⟩ := by
  induction calls generalizing t with
  | nil => rfl
  | cons c calls ih =>
    rw [attempts, List.map_cons, ← fst_attempt]
    simp only [ih, refusal_attempt]

/-- Every cell shows the last write to it that was done, or what it held before. -/
theorem read_attempts (t : T) (calls : List (Position × Symbol)) (p : Position) :
    read (attempts t calls).2 p = (lastDone? (attempts t calls).1 p).getD (read t p) := by
  induction calls generalizing t with
  | nil => rfl
  | cons c calls ih =>
    rw [attempts, lastDone?_cons]
    refine (ih _).trans ?_
    cases lastDone? (attempts (attempt t c.1 c.2).2 calls).1 p with
    | none =>
      rw [Option.none_or, Option.getD_none, read_attempt]
      split <;> rfl
    | some s => rfl

end TapeMachine.Tape
