import TapeMachine.Proofs.Emission.Scan
import TapeMachine.RunError
import TapeMachine.Tape.Growable

namespace TapeMachine

namespace RunError

theorem report_eq (e : RunError) (sink : Sink) :
    e.report sink = sink.deliver [Utf8.bytesOf e.line] := by
  rw [report, Sink.deliver]
  rcases sink.writeAll (Utf8.bytesOf e.line) with ⟨_ | _, sink⟩ <;> rfl

theorem report_of_reliable (e : RunError) {sink : Sink} (reliable : sink.Reliable) :
    (e.report sink).2.accepted.toList = sink.accepted.toList ++ Utf8.bytesOf e.line := by
  obtain ⟨written, done, still, accepted⟩ := reliable.writeAll (Utf8.bytesOf e.line)
  rw [RunError.report, done]
  simp only [still.flush]
  exact accepted

end RunError

theorem Sink.reliable_default : Sink.Reliable {} := ⟨by decide, by simp, rfl⟩

/-- Whatever a sink does, what it has taken of an emission, of a diagnostic, or of any text that
comes in pieces, is a front part of the text that a perfect sink takes. The answer is a success
exactly if that is all of it and the flush succeeded. After a call that fails or takes nothing there
is no other, and its error is the answer. If a scan comes to no end, its lines are still given to the
sink. -/
theorem faulty_sinks_truncate :
    (∀ {T : Type} [Tape T] (t : T) (head : Position) (a : Alphabet) (sink : Sink),
      let symbols := Emission.scan t head a
      let o := sink.deliver (Emission.lines symbols)
      (Emission.Terminates t head a →
        emit t head a sink = (Emission.answer symbols.length o.1, o.2)) ∧
      (emit t head a sink).2.accepted = o.2.accepted ∧
      Sink.Truncates (emit t head a {}).2.accepted.toList sink o) ∧
    (∀ (e : RunError) (sink : Sink),
      Sink.Truncates (e.report {}).2.accepted.toList sink (e.report sink)) ∧
    ∀ (pieces : List (List UInt8)) (sink : Sink),
      Sink.Truncates pieces.flatten sink (sink.deliver pieces) := by
  refine ⟨?_, ?_, fun pieces sink => sink.truncates_deliver pieces⟩
  · intro T _ t head a sink symbols o
    have text : (emit t head a {}).2.accepted.toList = Emission.report symbols := by
      obtain ⟨perfect, written, done, stuck⟩ :=
        Emission.emit_of_reliable Sink.reliable_default t head a
      by_cases ends : Emission.Terminates t head a
      · rw [done ends]
        exact written
      · rw [stuck ends]
        exact written
    refine ⟨fun ends => Emission.emit_of_terminates ends sink, Emission.accepted_emit t head a sink,
      ?_⟩
    rw [text, ← Emission.flatten_lines]
    exact sink.truncates_deliver _
  · intro e sink
    have text : (e.report {}).2.accepted.toList = [Utf8.bytesOf e.line].flatten := by
      rw [e.report_of_reliable Sink.reliable_default, List.flatten_singleton]
      rfl
    rw [text, e.report_eq]
    exact sink.truncates_deliver _

/-- A pipe that is interrupted once and breaks inside the second line. It is not flushed, so that it
could not be flushed is not noticed. -/
theorem faulty_sinks_truncate_broken_pipe :
    let t : Growable := (Growable.empty.set 0 (.ofChar '1')).set 1 (.ofChar '1')
    let a : Alphabet := Alphabet.ofString "1"
    let sink : Sink :=
      { script := [.room 33, .fail (.plain .interrupted), .room 5, .fail (.plain .brokenPipe)]
        flushError := some (.plain .other) }
    Emission.Terminates t 0 a ∧
    (emit t 0 a sink).1 = .error (.error (.output (.plain .brokenPipe))) ∧
    (emit t 0 a sink).2.flushes = sink.flushes ∧
    ∃ front, front <+: Emission.report [.ofChar '1', .ofChar '1'] ∧ front.length = 38 ∧
      (emit t 0 a sink).2.accepted.toList = front := by
  intro t a sink
  have terminates : Emission.Terminates t 0 a :=
    ⟨2, by decide, by decide, Or.inl ⟨2, rfl, by decide⟩⟩
  have found : Emission.scan t 0 a = [.ofChar '1', .ofChar '1'] := by decide +kernel
  have text : (emit t 0 a {}).2.accepted.toList = Emission.report [.ofChar '1', .ofChar '1'] := by
    decide +kernel
  obtain ⟨main, -⟩ := faulty_sinks_truncate
  obtain ⟨ended, -, course⟩ := main t 0 a sink
  have emitted := ended terminates
  rw [found] at emitted course
  rw [text] at course
  have flushes : (sink.deliver (Emission.lines [.ofChar '1', .ofChar '1'])).2.flushes =
      sink.flushes := by decide +kernel
  have length :
      (sink.deliver (Emission.lines [.ofChar '1', .ofChar '1'])).2.accepted.size = 38 := by
    decide +kernel
  have failure : (sink.deliver (Emission.lines [.ofChar '1', .ofChar '1'])).1 =
      .error (.plain .brokenPipe) := by decide +kernel
  obtain ⟨front, within, accepted⟩ := course.front
  rw [emitted]
  refine ⟨terminates, by rw [failure]; rfl, flushes, front, within, ?_, accepted⟩
  have taken := congrArg List.length accepted
  rw [Array.length_toList, length] at taken
  exact taken.symm

end TapeMachine
