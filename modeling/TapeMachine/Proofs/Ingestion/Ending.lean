import TapeMachine.Proofs.Ingestion.Delivery

namespace TapeMachine

open Utf8

/-- Everything up to the end of the stream was read, and nothing after it. -/
def Source.ReadToEnd (source rest : Source) : Prop :=
  ∃ deliveries ending, source.events = deliveries ++ ending ∧ (∀ e ∈ deliveries, e.Delivers) ∧
    Source.Ends ending ∧ rest.events = ending.tail

namespace Ingestion

variable {T : Type} [Tape T]

theorem pump_error {a : Alphabet} {room : Nat} {st : State} {t : T} {source : Source}
    {e : RunError} (h : (pump a room st t source).result = .error (.error e)) :
    ∃ i, e = .input i ∧ i.isInterrupted = false := by
  induction hw : source.weight using Nat.strongRecOn generalizing st t source with
  | ind weight ih =>
    subst weight
    rw [pump_eq] at h
    split at h
    next => simp at h
    next hr =>
      split at h
      next => simp at h
      next => exact ih _ (Source.weight_read_of_bytes hr) h rfl
    next i rest hr =>
      split at h
      next => exact ih _ (Source.weight_read_of_error hr) h rfl
      next hi =>
        cases h
        exact ⟨i, rfl, Bool.eq_false_iff.mpr hi⟩

theorem ingest_error {a : Alphabet} {chunkSize : UInt64} {t : T} {source : Source} {e : RunError}
    (positive : chunkSize ≠ 0)
    (h : (ingest a chunkSize t source).result = .error (.error e)) :
    ∃ i, e = .input i ∧ i.isInterrupted = false := by
  rw [ingest, if_neg positive] at h
  split at h
  next => simp at h
  next => exact pump_error h

theorem ingest_ok {a : Alphabet} {chunkSize : UInt64} {t : T} {source : Source}
    {summary : IngestSummary} (h : (ingest a chunkSize t source).result = .ok summary) :
    source.ReadToEnd (ingest a chunkSize t source).source := by
  have positive : 0 < chunkSize := by
    rw [UInt64.pos_iff_ne_zero]
    rintro rfl
    simp [ingest_zero] at h
  have bound : chunkSize.toNat < 2 ^ 63 := by
    apply Nat.lt_of_not_le
    intro large
    simp [ingest_of_large large] at h
  obtain ⟨events, reads⟩ := source
  obtain ⟨deliveries, rest, rfl, delivers, hrest⟩ := Source.exists_deliveries events
  obtain ⟨f, u, left, -, he⟩ | ⟨r, u, reads', -, he⟩ :=
    ingest_delivered (a := a) positive bound t rest delivers reads
  · simp [he] at h
  · rcases hrest with ends | ⟨i, left, rfl, hi⟩
    · refine ⟨deliveries, rest, rfl, delivers, ends, ?_⟩
      rw [he, pump_of_ends ends]
    · rw [he, pump_of_fatal hi] at h
      simp at h

end Ingestion

end TapeMachine

namespace TapeMachine

open Utf8

/-- A reader delivers these bytes, in any number of reads some of which may be interrupted, and then
fails with an error for good. -/
def Source.BreaksAfter (source : Source) (bytes : List UInt8) (i : IoError)
    (rest : List Source.Event) : Prop :=
  ∃ deliveries, source.events = deliveries ++ .fail i :: rest ∧ (∀ e ∈ deliveries, e.Delivers) ∧
    Source.delivered deliveries = bytes ∧ i.isInterrupted = false

namespace Ingestion

/-- A read error that is no interruption is reported as it is. The tape keeps the symbols for the
characters that occur in what was read before, and no others: what they are depends on the bytes
read, not on how they were delivered or how many were asked for at a time. Without room to read
anything into, nothing is read. -/
theorem ingest_of_breakage {T : Type} [Tape T] [LawfulTape T] (a : Alphabet) (t : T)
    (bytes : List UInt8) :
    (∃ found, Listed bytes found ∧ (Decoder.fresh.feed bytes).1 = found.map Prod.snd ∧
      let written := accepted a (found.map Prod.snd)
      Symbol.blank ∉ written ∧
      (Tape.Writable t written.length →
        ∀ chunkSize : UInt64, 0 < chunkSize → chunkSize.toNat < 2 ^ 63 →
        ∀ source i rest, source.BreaksAfter bytes i rest →
          let o := ingest a chunkSize t source
          o.result = .error (.error (.input i)) ∧
          (∀ (p : Position) (k : Nat), p.toInt = k → k < written.length →
            written[k]? = some (Tape.read o.tape p)) ∧
          (∀ p : Position, p.toInt < 0 ∨ written.length ≤ p.toInt →
            Tape.read o.tape p = Tape.read t p) ∧
          o.tape = (Tape.place t 0 written).2 ∧ o.source.events = rest)) ∧
    ∀ source, ingest a 0 t source = ⟨.error (.error (.config .zeroChunkSize)), t, source⟩ := by
  refine ⟨?_, ingest_zero a t⟩
  -- What is written is fixed here, before any way to deliver the bytes is looked at.
  obtain ⟨found, listed, scalars, -⟩ := scan_listed bytes
  refine ⟨found, listed, by rw [Decoder.feed_fresh, scalars], ?_⟩
  intro written
  have hwritten : symbols a bytes = written := by rw [symbols, scalars]
  refine ⟨by rw [← hwritten]; exact blank_not_mem_symbols a bytes, ?_⟩
  intro room chunkSize positive bound source i rest breaks o
  obtain ⟨events, reads⟩ := source
  obtain ⟨deliveries, rfl, delivers, rfl, fatal⟩ := breaks
  have placed : Tape.place t 0 written = _ :=
    Tape.place_of_writable room (Nat.le_of_eq (Nat.zero_add _))
  obtain ⟨reads', ho⟩ : ∃ reads', o = ⟨.error (.error (.input i)), (Tape.place t 0 written).2,
      ⟨rest, reads'⟩⟩ :=
    ingest_broken positive bound delivers fatal reads (by rw [hwritten]; exact placed)
  rw [ho]
  exact ⟨rfl, fun p k hk lt => Tape.read_place_inside room hk lt,
    fun p outside => Tape.read_place_outside room outside, rfl, rfl⟩

/-- A character that an interrupted read cuts in two, and one that is not complete when the pipe
breaks. -/
theorem ingest_of_breakage_interrupted :
    let source : Source := ⟨[.data [0x61, 0xC3], .fail (.plain .interrupted),
      .data [0xA9, 0xE2, 0x82], .fail (.plain .brokenPipe), .data [0xAC]], 0⟩
    let o := ingest (Alphabet.ofString "aé€") 2 Growable.empty source
    source.BreaksAfter [0x61, 0xC3, 0xA9, 0xE2, 0x82] (.plain .brokenPipe) [.data [0xAC]] ∧
    o.result = .error (.error (.input (.plain .brokenPipe))) ∧
    Tape.read o.tape 0 = .ofChar 'a' ∧ Tape.read o.tape 1 = .ofChar 'é' ∧
    Tape.read o.tape 2 = .blank ∧ o.source.events = [.data [0xAC]] := by
  intro source o
  have breaks : source.BreaksAfter [0x61, 0xC3, 0xA9, 0xE2, 0x82] (.plain .brokenPipe)
      [.data [0xAC]] :=
    ⟨[.data [0x61, 0xC3], .fail (.plain .interrupted), .data [0xA9, 0xE2, 0x82]], rfl,
      by simp [Source.Event.Delivers, IoError.isInterrupted], rfl, rfl⟩
  have decoded : (Decoder.fresh.feed [0x61, 0xC3, 0xA9, 0xE2, 0x82]).1 = ['a', 'é'] := by
    decide +kernel
  have written : accepted (Alphabet.ofString "aé€") ['a', 'é'] = [.ofChar 'a', .ofChar 'é'] := by
    decide
  obtain ⟨⟨found, -, hfound, -, main⟩, -⟩ :=
    ingest_of_breakage (Alphabet.ofString "aé€") Growable.empty [0x61, 0xC3, 0xA9, 0xE2, 0x82]
  rw [← hfound, decoded, written] at main
  obtain ⟨result, inside, outside, -, rest⟩ :=
    main (Growable.writable _ (by decide +kernel)) 2 (by decide) (by decide) source _ _ breaks
  refine ⟨breaks, result, ?_, ?_, ?_, rest⟩
  · exact (Option.some.inj (inside 0 0 (by decide) (by decide))).symm
  · exact (Option.some.inj (inside 1 1 (by decide) (by decide))).symm
  · rw [outside 2 (by decide)]
    rfl

/-- A null is no symbol to be written, though its encoding is complete as it stands: a blank that
belongs to the alphabet does not get on the tape, and the next symbol takes its place. -/
theorem ingest_drops_null :
    let a : Alphabet := ⟨[.blank, .ofChar 'a']⟩
    let o := ingest a 16 Growable.empty ⟨[.data [0x00, 0x61], .fail (.plain .brokenPipe)], 0⟩
    ['\x00', 'a'].flatMap String.utf8EncodeChar = [0x00, 0x61] ∧
    accepted a ['\x00', 'a'] = [.blank, .ofChar 'a'] ∧
    o.result = .error (.error (.input (.plain .brokenPipe))) ∧
    Tape.cells o.tape 0 2 = [.ofChar 'a', .blank] ∧
    Tape.cells o.tape 0 2 ≠ accepted a ['\x00', 'a'] := by
  intro a o
  have encoded : ['\x00', 'a'].flatMap String.utf8EncodeChar = [0x00, 0x61] := by decide
  have members : accepted a ['\x00', 'a'] = [.blank, .ofChar 'a'] := by decide
  have written : symbols a [0x00, 0x61] = [.ofChar 'a'] := by decide +kernel
  have delivers : ∀ e ∈ [Source.Event.data [0x00, 0x61]], e.Delivers := by
    simp [Source.Event.Delivers]
  have placed : Tape.place Growable.empty 0
      (symbols a (Source.delivered [.data [0x00, 0x61]])) =
        (.ok 1, Growable.empty.set 0 (.ofChar 'a')) := by
    change Tape.place Growable.empty 0 (symbols a [0x00, 0x61]) = _
    rw [written]
    rfl
  obtain ⟨reads', ho⟩ : ∃ reads', o = ⟨.error (.error (.input (.plain .brokenPipe))),
      Growable.empty.set 0 (.ofChar 'a'), ⟨[], reads'⟩⟩ :=
    ingest_broken (by decide) (by decide) delivers rfl 0 placed
  have found : Tape.cells (Growable.empty.set 0 (.ofChar 'a')) 0 2 = [.ofChar 'a', .blank] := by
    decide +kernel
  rw [ho, found, members]
  exact ⟨encoded, rfl, rfl, rfl, by decide⟩

end Ingestion

end TapeMachine
