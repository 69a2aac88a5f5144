import Mathlib.Data.List.TakeWhile
import TapeMachine.Proofs.Compiled.Address
import TapeMachine.Proofs.Tape.Embedding
import TapeMachine.Proofs.Utf8.Texts

namespace TapeMachine

/-- How an end of a run looks to a compiled automaton, for which the name of a state is a string
that ends at its first null byte. -/
def Stop.linked : Stop → Stop
  | .error (.transition f) =>
    .error (.transition (Compiled.failure (some (Utf8.bytesOf f.state)) f.symbol))
  | e => e

namespace Program

section
variable {σ T : Type} [Tape T]

/-- The positions whose cells a run comes to, one for each step. -/
def visits (p : Program σ) : (fuel : Nat) → σ → T → Position → List Position
  | 0, _, _, _ => []
  | fuel + 1, s, t, head =>
    if p.halted s then []
    else
      head ::
        match p.action? s (Tape.read t head) with
        | none => []
        | some a =>
          match a.write with
          | none => visits p fuel a.next t (head + a.move)
          | some written =>
            match Tape.refusal? t head with
            | some _ => []
            | none => visits p fuel a.next (Tape.set t head written) (head + a.move)

end

variable {σ : Type}

def addressed (r : Except Stop Position × Reserved) : Except Stop Displacement × Reserved :=
  ((r.1.map Reserved.addressOf).mapError Stop.linked, r.2)

theorem cellAt?_of_inside {t : Reserved} (granted : t.Granted) {head : Position}
    (inside : (t.index? head).isSome) :
    ∃ i, t.cellAt? (Reserved.addressOf head) = some i ∧
      t.cells.getD i .blank = Tape.read t head ∧ Tape.refusal? t head = none ∧
      ∀ s, Tape.set t head s = { t with cells := t.cells.insert i s } := by
  obtain ⟨i, hi⟩ := Option.isSome_iff_exists.mp inside
  refine ⟨i, ?_, ?_, Reserved.refusal_eq_none_iff.mpr ⟨i, hi⟩, fun s => ?_⟩
  · rw [t.cellAt?_addressOf (granted.near hi), hi]
  · exact (Reserved.read_of_index? hi t.cells).symm
  · change t.set head s = _
    rw [Reserved.set, hi]

theorem isSome_index?_set (t : Reserved) (p q : Position) (s : Symbol) :
    ((t.set p s).index? q).isSome = (t.index? q).isSome := by
  have h := t.refusal_set p q s
  have hcapacity := t.capacity_set p s
  unfold Reserved.refusal? at h
  cases hs : ((t.set p s).index? q).isSome <;> cases ht : (t.index? q).isSome <;> simp_all

theorem compileFrom_addressOf (p : Program σ) (fuel : Nat) (s : σ) {t : Reserved}
    (granted : t.Granted) {head : Position}
    (inside : ∀ q ∈ p.visits fuel s t head, (t.index? q).isSome) :
    p.compileFrom fuel s t (Reserved.addressOf head) = addressed (p.runFrom fuel s t head) := by
  induction fuel generalizing s t head with
  | zero => rfl
  | succ fuel ih =>
    rw [compileFrom, runFrom]
    by_cases halted : p.halted s
    · rw [if_pos halted, if_pos halted]
      rfl
    · rw [visits, if_neg halted] at inside
      rw [if_neg halted, if_neg halted]
      have here := inside head List.mem_cons_self
      have later := fun q hq => inside q (List.mem_cons_of_mem head hq)
      obtain ⟨i, hcell, hread, hrefusal, hset⟩ := cellAt?_of_inside granted here
      simp only [hcell, hread]
      cases haction : p.action? s (Tape.read t head) with
      | none => rfl
      | some a =>
        simp only [haction] at later
        simp only [← Reserved.addressOf_add]
        cases hwrite : a.write with
        | none =>
          simp only [hwrite] at later
          exact ih a.next granted later
        | some written =>
          simp only [hwrite, hrefusal] at later
          simp only [hrefusal, ← hset]
          exact ih a.next (granted.of_capacity (t.capacity_set head written)) fun q hq => by
            rw [isSome_index?_set]
            exact later q hq

end Program

namespace Compiled

variable {σ : Type}

end Compiled

namespace Compiled

/-- An automaton does to a tape what a compiled one does to its cells: it ends in the same way, and
leaves the same tape. -/
def Alike (f : Compiled) (automaton : Automaton Configured) (t : Reserved) : Prop :=
  automaton (.reserved t) 0 = ((f.automaton t 0).1, .reserved (f.automaton t 0).2)

theorem failure_bytesOf {name : String} (plain : '\x00' ∉ name.toList) (symbol : Symbol) :
    failure (some (Utf8.bytesOf name)) symbol = ⟨name, symbol⟩ := by
  have whole : (Utf8.bytesOf name).takeWhile (· ≠ 0) = Utf8.bytesOf name := by
    rw [List.takeWhile_eq_self_iff]
    intro b hb
    have nonzero : b ≠ 0 := by
      rintro rfl
      exact Utf8.zero_not_mem_encode plain hb
    exact decide_eq_true nonzero
  rw [failure, whole, Utf8.lossyText_bytesOf]

end Compiled

namespace Reserved

theorem capacity_ingest (a : Alphabet) (chunkSize : UInt64) (t : Reserved) (source : Source) :
    (ingest a chunkSize t source).tape.capacity = t.capacity := by
  obtain ⟨written, result, places⟩ := Ingestion.ingest_places a chunkSize source
  obtain ⟨left, he⟩ := places t
  have same := t.capacity_place 0 written
  rw [he]
  generalize Tape.place t 0 written = o at same ⊢
  rcases o with ⟨f | q, u⟩
  · exact same
  · exact same

end Reserved

namespace Program

variable {σ T : Type} [Tape T]

theorem linked_runFrom {p : Program σ} (plain : ∀ s, '\x00' ∉ (p.name s).toList) (fuel : Nat)
    (s : σ) (t : T) (head : Position) :
    (p.runFrom fuel s t head).1.mapError Stop.linked = (p.runFrom fuel s t head).1 := by
  induction fuel generalizing s t head with
  | zero => rfl
  | succ fuel ih =>
    rw [runFrom]
    split
    next => rfl
    next =>
      simp only
      cases p.action? s (Tape.read t head) with
      | none =>
        simp only [Except.mapError, Stop.linked]
        rw [Compiled.failure_bytesOf (plain s)]
      | some a =>
        simp only
        cases a.write with
        | none => exact ih a.next t (head + a.move)
        | some written =>
          simp only
          cases Tape.refusal? t head with
          | none => exact ih a.next (Tape.set t head written) (head + a.move)
          | some f => rfl

theorem alike_compile {p : Program σ} (plain : ∀ s, '\x00' ∉ (p.name s).toList) {t : Reserved}
    (granted : t.Granted) (inside : ∀ q ∈ p.visits stepLimit p.start t 0, (t.index? q).isSome)
    (near : ∀ last, (p.automaton t 0).1 = .ok last → Reserved.Near last) :
    p.compile.Alike p.automaton t := by
  have linked := linked_runFrom plain stepLimit p.start t 0
  have simulated := p.compileFrom_addressOf stepLimit p.start granted inside
  unfold automaton at near
  rw [Compiled.Alike, automaton, Configured.embedding_reserved.runFrom, Compiled.automaton,
    compile, simulated, addressed]
  generalize p.runFrom stepLimit p.start t 0 = o at near linked
  rcases o with ⟨stop | last, u⟩
  · simp only [Except.map, Except.mapError] at linked ⊢
    rw [linked]
  · simp only [Except.map, Except.mapError]
    rw [Reserved.positionOf_addressOf (near last rfl)]

end Program

end TapeMachine
