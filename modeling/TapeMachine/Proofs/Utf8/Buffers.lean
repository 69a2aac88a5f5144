import TapeMachine.Proofs.Utf8.Chunking

namespace TapeMachine.Utf8

structure Buffer (size : Nat) where
  bytes : List UInt8
  length_bytes : bytes.length = size

/-- The part of some bytes from one place up to another; there is none if the places are the wrong
way round or past the end. -/
def slice? (bytes : List UInt8) (start stop : Nat) : Option (List UInt8) :=
  if start ≤ stop ∧ stop ≤ bytes.length then some ((bytes.drop start).take (stop - start)) else none

namespace Buffer

variable {size : Nat}

def zeros (size : Nat) : Buffer size := ⟨List.replicate size 0, List.length_replicate⟩

def copy? (b : Buffer size) (start : Nat) (bytes : List UInt8) : Option (Buffer size) :=
  if h : start + bytes.length ≤ size then
    some ⟨b.bytes.take start ++ bytes ++ b.bytes.drop (start + bytes.length), by
      simp only [List.length_append, List.length_take, List.length_drop, b.length_bytes]
      omega⟩
  else none

theorem copy?_of_fits (b : Buffer size) {start : Nat} {bytes : List UInt8}
    (fits : start + bytes.length ≤ size) :
    ∃ b', b.copy? start bytes = some b' ∧
      b'.bytes.take (start + bytes.length) = b.bytes.take start ++ bytes := by
  have full := b.length_bytes
  refine ⟨_, dif_pos fits, List.take_left' ?_⟩
  rw [List.length_append, List.length_take]
  omega

end Buffer

theorem slice?_of_le {bytes : List UInt8} {start stop : Nat} (ordered : start ≤ stop)
    (inside : stop ≤ bytes.length) :
    slice? bytes start stop = some ((bytes.drop start).take (stop - start)) :=
  if_pos ⟨ordered, inside⟩

theorem slice?_front {bytes : List UInt8} {stop : Nat} (inside : stop ≤ bytes.length) :
    slice? bytes 0 stop = some (bytes.take stop) := slice?_of_le (Nat.zero_le stop) inside

theorem slice?_rest {bytes : List UInt8} {start : Nat} (inside : start ≤ bytes.length) :
    slice? bytes start bytes.length = some (bytes.drop start) := by
  rw [slice?_of_le inside (Nat.le_refl _), ← List.length_drop, List.take_length]

/-- A decoder whose waiting bytes are the first `used` ones of a buffer. -/
structure Buffered where
  buffer : Buffer 3 := .zeros 3
  used : Nat := 0
  skipped : Nat := 0

namespace Buffered

/-- Keeps the bytes of a sequence that a piece breaks off. -/
def stash? (d : Buffered) (tail : List UInt8) : Option Buffered := do
  let buffer ← d.buffer.copy? 0 tail
  return { d with buffer, used := tail.length }

/-- One loop: reads the sequences that begin from a position on and before another one, and says
where it came to, if no sequence is broken off. It is given up after too many rounds. -/
def read? (bytes : List UInt8) (stop : Nat) :
    (rounds pos : Nat) → Buffered → Option (List Char × Buffered × Option Nat)
  | 0, pos, d => if pos < stop then none else some ([], d, some pos)
  | rounds + 1, pos, d =>
    if pos < stop then do
      let rest ← slice? bytes pos bytes.length
      match step rest with
      | .pass c size => do
        let (scalars, d, reached) ← read? bytes stop rounds (pos + size) d
        return (c :: scalars, d, reached)
      | .skip => read? bytes stop rounds (pos + 1) { d with skipped := d.skipped + 1 }
      | .wait => do
        let d ← d.stash? rest
        return ([], d, none)
    else some ([], d, some pos)

/-- The waiting bytes with as many of a piece behind them as can end what they begin. -/
def window? (d : Buffered) (chunk : List UInt8) : Option (List UInt8) := do
  let borrowed := min chunk.length 4
  let window ← (Buffer.zeros 7).copy? 0 (← slice? d.buffer.bytes 0 d.used)
  let window ← window.copy? d.used (← slice? chunk 0 borrowed)
  slice? window.bytes 0 (d.used + borrowed)

/-- The offset in a piece for a position in the window, which has to lie in the part borrowed. -/
def offset? (carried pos : Nat) (chunk : List UInt8) : Option Nat :=
  if carried ≤ pos ∧ pos - carried ≤ chunk.length then some (pos - carried) else none

/-- Reads what begins among the waiting bytes. Without any there is nothing to read. -/
def resume? (d : Buffered) (chunk : List UInt8) : Option (List Char × Buffered × Option Nat) := do
  if 0 < d.used then
    let window ← d.window? chunk
    read? window d.used d.used 0 { d with used := 0 }
  else return ([], d, some 0)

def decode? (d : Buffered) (chunk : List UInt8) : Option (List Char × Buffered) := do
  match ← d.resume? chunk with
  | (before, next, none) => return (before, next)
  | (before, next, some pos) => do
    let offset ← offset? d.used pos chunk
    let (after, last, _) ← read? chunk chunk.length (chunk.length - offset) offset next
    return (before ++ after, last)

def finish (d : Buffered) : Buffered := { d with used := 0, skipped := d.skipped + d.used }

def call? (d : Buffered) : Decoder.Call → Option (Decoder.Sight × Buffered)
  | .feed chunk => do
    let (scalars, next) ← d.decode? chunk
    return (⟨scalars, next.skipped, 0 < next.used, none⟩, next)
  | .finish => some (⟨[], d.finish.skipped, 0 < d.finish.used, some d.finish.skipped⟩, d.finish)

def run? (d : Buffered) : List Decoder.Call → Option (List Decoder.Sight × Buffered)
  | [] => some ([], d)
  | c :: calls => do
    let (sight, next) ← d.call? c
    let (sights, last) ← next.run? calls
    return (sight :: sights, last)

/-- The buffered decoder is in the state of the other one. -/
structure Holds (b : Buffered) (d : Decoder) : Prop where
  bytes : b.buffer.bytes.take b.used = d.pending
  used : b.used = d.pending.length
  skipped : b.skipped = d.skipped

theorem holds_idle {b : Buffered} (unused : b.used = 0) : b.Holds (.idle b.skipped) := by
  refine ⟨?_, unused, rfl⟩
  rw [unused]
  rfl

theorem holds_fresh : Holds {} .fresh := holds_idle rfl

theorem stash?_of_wait (b : Buffered) {tail : List UInt8} (h : step tail = .wait) :
    ∃ b', b.stash? tail = some b' ∧
      b'.Holds ⟨tail, b.skipped, length_le_three_of_step h⟩ := by
  have fits : 0 + tail.length ≤ 3 := by
    rw [Nat.zero_add]
    exact length_le_three_of_step h
  obtain ⟨buffer, copied, front⟩ := b.buffer.copy?_of_fits fits
  rw [Nat.zero_add, List.take_zero, List.nil_append] at front
  refine ⟨{ b with buffer, used := tail.length }, ?_, front, rfl, rfl⟩
  rw [stash?, copied]
  rfl

theorem read?_eq_stitch {bytes : List UInt8} {stop pos : Nat} (inside : stop ≤ bytes.length)
    (b : Buffered) (unused : b.used = 0) (rounds : Nat) (enough : stop - pos ≤ rounds) :
    ∃ b', read? bytes stop rounds pos b =
        some ((stitch bytes stop pos).1.scalars, b', (stitch bytes stop pos).2) ∧
      b'.Holds ((Decoder.idle b.skipped).keep (stitch bytes stop pos).1) := by
  fun_induction stitch bytes stop pos generalizing b rounds with
  | case1 pos lt c n hs positive found reached he ih =>
    obtain ⟨rounds, rfl⟩ : ∃ r, rounds = r + 1 := Nat.exists_eq_add_one.mpr (by omega)
    obtain ⟨b', run, holds⟩ := ih b unused rounds (by omega)
    rw [he] at run holds
    refine ⟨b', ?_, holds⟩
    rw [read?, if_pos lt, slice?_rest (by omega)]
    simp only [bind, Option.bind, hs, run]
    rfl
  | case2 pos lt hs found reached he ih =>
    obtain ⟨rounds, rfl⟩ : ∃ r, rounds = r + 1 := Nat.exists_eq_add_one.mpr (by omega)
    obtain ⟨b', run, holds⟩ := ih { b with skipped := b.skipped + 1 } unused rounds (by omega)
    rw [he] at run holds
    refine ⟨b', ?_, holds.bytes, holds.used, ?_⟩
    · rw [read?, if_pos lt, slice?_rest (by omega)]
      simp only [bind, Option.bind, hs, run]
      rfl
    · rw [holds.skipped]
      exact Nat.add_right_comm b.skipped 1 found.skipped
  | case3 pos lt hs =>
    obtain ⟨rounds, rfl⟩ : ∃ r, rounds = r + 1 := Nat.exists_eq_add_one.mpr (by omega)
    obtain ⟨b', stashed, holds⟩ := b.stash?_of_wait hs
    refine ⟨b', ?_, holds⟩
    rw [read?, if_pos lt, slice?_rest (by omega)]
    simp only [bind, Option.bind, hs, stashed]
    rfl
  | case4 pos ge =>
    refine ⟨b, ?_, holds_idle unused⟩
    cases rounds with
    | zero => rw [read?, if_neg ge]
    | succ rounds => rw [read?, if_neg ge]

theorem pending_of_stitch {window : List UInt8} {carried pos stop : Nat} {found : Scan}
    (h : stitch window carried pos = (found, some stop)) : found.pending = [] := by
  fun_induction stitch window carried pos generalizing found with
  | case1 pos lt c n hs positive found' reached he ih =>
    obtain ⟨rfl, rfl⟩ := Prod.mk.inj h
    have rest := ih he
    exact rest
  | case2 pos lt hs found' reached he ih =>
    obtain ⟨rfl, rfl⟩ := Prod.mk.inj h
    have rest := ih he
    exact rest
  | case3 pos lt hs => cases (Prod.mk.inj h).2
  | case4 pos ge =>
    obtain ⟨rfl, -⟩ := Prod.mk.inj h
    rfl

theorem read?_eq_scan {chunk : List UInt8} {offset : Nat} (inside : offset ≤ chunk.length)
    (b : Buffered) (unused : b.used = 0) :
    ∃ b' reached, read? chunk chunk.length (chunk.length - offset) offset b =
        some ((scan (chunk.drop offset)).scalars, b', reached) ∧
      b'.Holds ((Decoder.idle b.skipped).keep (scan (chunk.drop offset))) := by
  obtain ⟨b', run, holds⟩ := read?_eq_stitch (Nat.le_refl chunk.length) b unused _ (Nat.le_refl _)
  have enough : ([] : List UInt8) = [] ∨ chunk.length + 3 ≤ chunk.length := Or.inl rfl
  rcases found : stitch chunk chunk.length offset with ⟨s, reached⟩
  have whole : scan (chunk.drop offset) = s := by
    cases reached with
    | none =>
      have hs := stitch_none enough (Nat.le_refl _) found
      rwa [List.append_nil] at hs
    | some stop =>
      obtain ⟨ge, le, hs⟩ := stitch_some enough inside (Nat.le_refl _) found
      rw [List.append_nil, List.append_nil, List.drop_eq_nil_of_le ge, Decoder.scan_nil] at hs
      rw [hs]
      exact Scan.ext (List.append_nil _) rfl (pending_of_stitch found).symm
  rw [found] at run holds
  rw [whole]
  exact ⟨b', reached, run, holds⟩

section

variable {b : Buffered} {d : Decoder}

theorem Holds.window? (holds : b.Holds d) (chunk : List UInt8) :
    b.window? chunk = some (d.window chunk) := by
  have small := d.fits
  have used := holds.used
  have borrowed : (chunk.take (min chunk.length 4)).length = min chunk.length 4 := by
    rw [List.length_take]
    omega
  have fits : 0 + d.pending.length ≤ 7 := by omega
  have fits' : b.used + (chunk.take (min chunk.length 4)).length ≤ 7 := by omega
  obtain ⟨first, copied, front⟩ := (Buffer.zeros 7).copy?_of_fits fits
  obtain ⟨second, copied', front'⟩ := first.copy?_of_fits fits'
  rw [Nat.zero_add, List.take_zero, List.nil_append, ← used] at front
  rw [borrowed, front] at front'
  rw [Buffered.window?, slice?_front (by rw [b.buffer.length_bytes]; omega), holds.bytes]
  simp only [bind, Option.bind, copied]
  rw [slice?_front (Nat.min_le_left _ _)]
  simp only [copied']
  rw [slice?_front (by rw [second.length_bytes]; omega), front', Decoder.window, Nat.min_comm,
    ← List.take_eq_take_min]
  rfl

theorem Holds.resume? (holds : b.Holds d) (chunk : List UInt8) :
    ∃ b', b.resume? chunk = some ((stitch (d.window chunk) d.pending.length 0).1.scalars, b',
        (stitch (d.window chunk) d.pending.length 0).2) ∧
      b'.Holds (d.keep (stitch (d.window chunk) d.pending.length 0).1) := by
  have same (s : Scan) : d.keep s = (Decoder.idle b.skipped).keep s := by
    rw [holds.skipped]
    rfl
  rw [Buffered.resume?, same, ← holds.used]
  split
  next waiting =>
    rw [holds.window? chunk]
    have inside : b.used ≤ (d.window chunk).length := by
      rw [holds.used]
      exact d.pending_le_window chunk
    exact read?_eq_stitch inside { b with used := 0 } rfl _ (Nat.le_refl _)
  next idle =>
    rw [stitch, if_neg idle]
    exact ⟨b, rfl, holds_idle (by omega)⟩

/-- No check fails in a call, and it is the call of the other decoder. -/
theorem Holds.decode? (holds : b.Holds d) (chunk : List UInt8) :
    ∃ b', b.decode? chunk = some ((d.feed chunk).1, b') ∧ b'.Holds (d.feed chunk).2 := by
  obtain ⟨b₁, resumed, holds₁⟩ := holds.resume? chunk
  rcases found : stitch (d.window chunk) d.pending.length 0 with ⟨s, reached⟩
  rw [found] at resumed holds₁
  rw [Buffered.decode?, resumed, Decoder.feed, found]
  cases reached with
  | none => exact ⟨b₁, rfl, holds₁⟩
  | some pos =>
    -- The window ends in the bytes borrowed, so its end is a place in the piece.
    obtain ⟨ge, le, -⟩ := stitch_some (d.window_enough chunk) (Nat.zero_le _)
      (d.pending_le_window chunk) found
    have inside : pos - d.pending.length ≤ chunk.length := by
      simp only [Decoder.window, List.length_append, List.length_take] at le
      omega
    have unused : b₁.used = 0 := by
      rw [holds₁.used]
      exact congrArg List.length (pending_of_stitch found)
    obtain ⟨b₂, last, run, holds₂⟩ := read?_eq_scan inside b₁ unused
    refine ⟨b₂, ?_, holds₂.bytes, holds₂.used, ?_⟩
    · simp only [bind, Option.bind, offset?, holds.used, if_pos (And.intro ge inside), run]
      rfl
    · rw [holds₂.skipped]
      change b₁.skipped + _ = d.skipped + (s.skipped + _)
      rw [holds₁.skipped]
      exact Nat.add_assoc d.skipped s.skipped _

theorem Holds.finish (holds : b.Holds d) : b.finish.Holds d.finish := by
  refine ⟨rfl, rfl, ?_⟩
  change b.skipped + b.used = d.skipped + d.pending.length
  rw [holds.skipped, holds.used]

theorem Holds.waiting (holds : b.Holds d) : decide (0 < b.used) = d.hasPending := by
  rw [holds.used, Decoder.hasPending]
  cases d.pending <;> rfl

theorem Holds.call? (holds : b.Holds d) (c : Decoder.Call) :
    ∃ b', b.call? c = some ((d.call c).1, b') ∧ b'.Holds (d.call c).2 := by
  cases c with
  | feed chunk =>
    obtain ⟨b', decoded, holds'⟩ := holds.decode? chunk
    refine ⟨b', ?_, holds'⟩
    simp only [Buffered.call?, bind, Option.bind, decoded, holds'.skipped, holds'.waiting]
    rfl
  | finish =>
    refine ⟨b.finish, ?_, holds.finish⟩
    rw [Buffered.call?, holds.finish.waiting, holds.finish.skipped]
    rfl

/-- In no series of calls does a check fail, and what is seen of them is what is seen of the other
decoder. -/
theorem Holds.run? (holds : b.Holds d) (calls : List Decoder.Call) :
    ∃ b', b.run? calls = some (d.sights calls, b') ∧ b'.Holds (d.after calls) := by
  induction calls generalizing b d with
  | nil => exact ⟨b, rfl, holds⟩
  | cons c calls ih =>
    obtain ⟨b₁, called, holds₁⟩ := holds.call? c
    obtain ⟨b₂, run, holds₂⟩ := ih holds₁
    refine ⟨b₂, ?_, holds₂⟩
    simp only [Buffered.run?, bind, Option.bind, called, run]
    rfl

end

end Buffered

end TapeMachine.Utf8
