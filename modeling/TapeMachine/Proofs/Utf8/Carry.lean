import TapeMachine.Proofs.Utf8.Buffers
import TapeMachine.Proofs.Utf8.Occurrences
import TapeMachine.Proofs.Utf8.Recognition

namespace TapeMachine.Utf8

theorem pending_suffix (bytes : List UInt8) : (scan bytes).pending <:+ bytes := by
  induction bytes using scan_induction with
  | pass bytes c n h ih =>
    rw [scan_of_pass h]
    exact ih.trans (List.drop_suffix n bytes)
  | skip bytes h ih =>
    rw [scan_of_skip h]
    exact ih.trans (List.drop_suffix 1 bytes)
  | wait bytes h => simp only [scan_of_wait h, List.suffix_rfl]

theorem isProperPart_pending (bytes : List UInt8) : IsProperPart (scan bytes).pending :=
  front_eq_incomplete_iff.mp (step_eq_wait_iff.mp (step_pending bytes))

/-- A pass always comes to where an incomplete end begins, whatever is before it. -/
theorem pending_of_suffix {bytes part : List UInt8} (ends : part <:+ bytes)
    (proper : IsProperPart part) : part <:+ (scan bytes).pending := by
  have incomplete := front_eq_incomplete_iff.mpr proper
  obtain ⟨junk, rfl⟩ := ends
  cases part with
  | nil => exact List.nil_suffix
  | cons b more =>
    have begins : ¬IsContinuation b := by
      intro hb
      rw [front_of_continuation hb more] at incomplete
      cases incomplete
    have waits := scan_of_wait (step_eq_wait_iff.mpr incomplete)
    rw [scan_append, scan_of_break (step_pending junk) begins, waits]
    exact List.suffix_rfl

namespace Decoder

/-- The bytes given to a decoder since its last stream ended, if `bytes` of the present one were
given already. -/
def unended (bytes : List UInt8) : List Call → List UInt8
  | [] => bytes
  | .feed chunk :: calls => unended (bytes ++ chunk) calls
  | .finish :: calls => unended [] calls

theorem after_eq_begun (calls : List Call) (total : Nat) (bytes : List UInt8) :
    ∃ total', (begun total bytes).after calls = begun total' (unended bytes calls) := by
  induction calls generalizing total bytes with
  | nil => exact ⟨total, rfl⟩
  | cons c calls ih =>
    cases c with
    | feed chunk =>
      obtain ⟨total', h⟩ := ih total (bytes ++ chunk)
      refine ⟨total', ?_⟩
      rw [unended, ← h, after, List.foldl_cons, call, feed_begun, after]
    | finish =>
      obtain ⟨total', h⟩ := ih (total + (scan bytes).skipped + (scan bytes).pending.length) []
      refine ⟨total', ?_⟩
      rw [unended, ← h, after, List.foldl_cons, call, finish_begun, after]

theorem pending_after (calls : List Call) :
    (fresh.after calls).pending = (scan (unended [] calls)).pending := by
  obtain ⟨total, h⟩ := after_eq_begun calls 0 []
  rw [begun_zero] at h
  rw [h]
  rfl

def held (d : Decoder) : Nat := d.skipped + d.pending.length

def passed (scalars : List Char) : Nat := (scalars.map Char.utf8Size).sum

theorem passed_append (cs ds : List Char) : passed (cs ++ ds) = passed cs + passed ds := by
  rw [passed, List.map_append, List.sum_append]
  rfl

theorem call_balance (d : Decoder) (c : Call) :
    (d.call c).2.held + passed (d.call c).1.scalars = d.held + c.bytes.length := by
  cases c with
  | feed chunk =>
    have whole := scan_length (d.pending ++ chunk)
    rw [List.length_append] at whole
    simp only [call, feed_eq, held, keep, passed, Call.bytes]
    omega
  | finish => rfl

theorem balance (calls : List Call) (d : Decoder) :
    (d.after calls).held + passed ((d.sights calls).flatMap Sight.scalars) =
      d.held + (calls.flatMap Call.bytes).length := by
  induction calls generalizing d with
  | nil => rfl
  | cons c calls ih =>
    have first := d.call_balance c
    have rest := ih (d.call c).2
    rw [sights, List.flatMap_cons, List.flatMap_cons, passed_append, List.length_append]
    change ((d.call c).2.after calls).held + _ = _
    omega

/-- Whatever a decoder is given, in whatever pieces: the same series of calls on buffers of three and
seven bytes meets no copy, part or offset out of range and ends within as many rounds as there are
bytes; the bytes that wait are the longest end of the present stream that is a proper part of an
encoding, at most three; and the bytes given are those skipped, those of the characters passed on and
those that wait. -/
theorem carries_longest_incomplete_end (calls : List Call) :
    let d := fresh.after calls
    let stream := unended [] calls
    (∃ b, Buffered.run? {} calls = some (fresh.sights calls, b) ∧ b.Holds d) ∧
    d.pending <:+ stream ∧ IsProperPart d.pending ∧
    (∀ part, part <:+ stream → IsProperPart part → part <:+ d.pending) ∧
    d.pending.length ≤ 3 ∧
    (d.hasPending = true ↔ ∃ part, part ≠ [] ∧ part <:+ stream ∧ IsProperPart part) ∧
    d.skipped + (((fresh.sights calls).flatMap Sight.scalars).map Char.utf8Size).sum +
        d.pending.length = (calls.flatMap Call.bytes).length := by
  intro d stream
  have pending : d.pending = (scan stream).pending := pending_after calls
  have ends : d.pending <:+ stream := by
    rw [pending]
    exact pending_suffix stream
  have proper : IsProperPart d.pending := by
    rw [pending]
    exact isProperPart_pending stream
  have longest (part) (h : part <:+ stream) (hp : IsProperPart part) : part <:+ d.pending := by
    rw [pending]
    exact pending_of_suffix h hp
  refine ⟨Buffered.holds_fresh.run? calls, ends, proper, longest, ?_, ?_, ?_⟩
  · exact length_le_three_of_front (front_eq_incomplete_iff.mpr proper)
  · constructor
    · intro waiting
      refine ⟨d.pending, ?_, ends, proper⟩
      rintro none
      rw [hasPending, none] at waiting
      cases waiting
    · rintro ⟨part, nonempty, h, hp⟩
      have waiting : d.pending ≠ [] := by
        intro none
        have whole := longest part h hp
        rw [none] at whole
        exact nonempty (List.suffix_nil.mp whole)
      rw [hasPending, List.isEmpty_eq_false_iff.mpr waiting]
      rfl
  · have whole := balance calls fresh
    change d.skipped + d.pending.length + passed _ = 0 + _ at whole
    change d.skipped + passed _ + d.pending.length = _
    omega

/-- A sequence that is broken off and goes on wrong, in pieces of one byte and less, and an ended
stream before it. -/
example :
    let calls : List Call := [.feed [0xE2], .finish, .feed [0x41, 0xF0], .feed [], .feed [0x9F],
      .feed [0xF0], .feed [0x9F]]
    (fresh.after calls).pending = [0xF0, 0x9F] ∧ (fresh.after calls).skipped = 3 ∧
    unended [] calls = [0x41, 0xF0, 0x9F, 0xF0, 0x9F] := by
  decide +kernel

end Decoder

end TapeMachine.Utf8
