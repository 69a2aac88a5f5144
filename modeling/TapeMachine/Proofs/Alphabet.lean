import TapeMachine.Proofs.Emission.Reading
import TapeMachine.Proofs.Ingestion.Tally

namespace TapeMachine

open Utf8

namespace Alphabet

/-- One alphabet is part of another if its members are members of the other, in whatever order and
however often. -/
instance : HasSubset Alphabet := ⟨fun a b => ∀ s ∈ a, s ∈ b⟩

instance (a b : Alphabet) : Decidable (a ⊆ b) :=
  inferInstanceAs (Decidable (∀ s ∈ a.symbols, s ∈ b.symbols))

end Alphabet

theorem Sink.accepted_deliver_append (s : Sink) (pieces more : List (List UInt8)) :
    (s.deliver pieces).2.accepted.toList <+: (s.deliver (pieces ++ more)).2.accepted.toList := by
  induction pieces generalizing s with
  | nil =>
    obtain ⟨front, -, taken⟩ := (s.truncates_deliver more).front
    rw [List.nil_append, taken, deliver, s.accepted_flush]
    exact List.prefix_append _ _
  | cons piece pieces ih =>
    rw [List.cons_append, deliver, deliver]
    rcases s.writeAll piece with ⟨e | ⟨⟩, mid⟩
    · exact List.prefix_refl _
    · exact ih mid

namespace Emission

variable {T : Type} [Tape T] {a b : Alphabet}

theorem scanFrom_mono (part : a ⊆ b) (t : T) (count : Nat) (p : Position) :
    scanFrom t a count p <+: scanFrom t b count p := by
  induction count generalizing p with
  | zero => exact List.prefix_refl _
  | succ count ih =>
    rw [scanFrom, scanFrom]
    by_cases member : Tape.read t p ∈ a
    · rw [if_pos member, if_pos (part _ member)]
      exact (List.prefix_cons_inj _).mpr (ih (p + 1))
    · rw [if_neg member]
      exact List.nil_prefix

theorem report_mono {xs ys : List Symbol} (h : xs <+: ys) : report xs <+: report ys := by
  obtain ⟨more, rfl⟩ := h
  rw [report, report, List.flatMap_append]
  exact List.prefix_append _ _

/-- Whatever the sink does, with the larger alphabet it has taken the same and more at most. -/
theorem accepted_emit_mono (part : a ⊆ b) (t : T) (head : Position) (sink : Sink) :
    (emit t head a sink).2.accepted.toList <+: (emit t head b sink).2.accepted.toList := by
  -- How many cells a scan may look at depends on the tape alone.
  obtain ⟨more, longer⟩ := scanFrom_mono part t (reach t head) head
  rw [accepted_emit, accepted_emit, scan, scan, ← longer]
  simp only [lines, List.map_append]
  exact sink.accepted_deliver_append _ _

theorem Terminates.of_subset (part : a ⊆ b) {t : T} {head : Position} (h : Terminates t head b) :
    Terminates t head a := by
  obtain ⟨p, right, before, stopped | other⟩ := h
  · exact ⟨p, right, before, Or.inl stopped⟩
  · exact ⟨p, right, before, Or.inr (mt (part _) other)⟩

theorem emitFrom_congr (same : ∀ s, s ∈ a ↔ s ∈ b) (t : T) (count : Nat) (p : Position)
    (written : Nat) (sink : Sink) :
    emitFrom t a count p written sink = emitFrom t b count p written sink := by
  induction count generalizing p written sink with
  | zero => rfl
  | succ count ih => simp only [emitFrom, same, ih]

end Emission

namespace Ingestion

variable {a b : Alphabet}

theorem accepted_of_subset (part : a ⊆ b) (cs : List Char) :
    accepted a cs = (accepted b cs).filter (· ∈ a) := by
  rw [accepted, accepted, List.filter_filter]
  apply List.filter_congr
  intro s _
  by_cases member : s ∈ a
  · simp [member, part s member]
  · simp [member]

theorem symbols_of_subset (part : a ⊆ b) (bytes : List UInt8) :
    symbols a bytes = (symbols b bytes).filter (· ∈ a) :=
  accepted_of_subset part _

theorem tally_written_add_discarded (a : Alphabet) (bytes : List UInt8) :
    (tally a bytes).symbolsWritten + (tally a bytes).symbolsDiscarded =
      (scan bytes).scalars.length :=
  Nat.add_sub_cancel' (length_accepted_le a _)

theorem accepted_congr (same : ∀ s, s ∈ a ↔ s ∈ b) : accepted a = accepted b := by
  funext cs
  simp only [accepted, same]

variable {T : Type} [Tape T]

theorem absorb_congr (same : ∀ s, s ∈ a ↔ s ∈ b) (st : State) (t : T) (chunk : List UInt8) :
    absorb a st t chunk = absorb b st t chunk := by
  simp only [absorb, accepted_congr same]

theorem pump_congr (same : ∀ s, s ∈ a ↔ s ∈ b) (room : Nat) (st : State) (t : T)
    (source : Source) : pump a room st t source = pump b room st t source := by
  induction hw : source.weight using Nat.strongRecOn generalizing st t source with
  | ind weight ih =>
    subst weight
    rw [pump_eq, pump_eq]
    rcases hr : source.read room with ⟨i | bytes, rest⟩
    · have less := Source.weight_read_of_error hr
      simp only
      split
      next => exact ih _ less st t rest rfl
      next => rfl
    · cases bytes with
      | nil => rfl
      | cons byte bytes =>
        have less := Source.weight_read_of_bytes hr
        simp only [absorb_congr same]
        rcases absorb b st t (byte :: bytes) with ⟨f | st, t⟩
        · rfl
        · exact ih _ less st t rest rfl

theorem ingest_congr (same : ∀ s, s ∈ a ↔ s ∈ b) (chunkSize : UInt64) (t : T) (source : Source) :
    ingest a chunkSize t source = ingest b chunkSize t source := by
  simp only [ingest, pump_congr same]

end Ingestion

/-- A larger alphabet only adds. An emission writes the same text and more at most, and so it is with
what a sink that may fail has taken. An ingestion puts on the tape, in
their order, the symbols that it puts there with the smaller alphabet and others between them. It
reads and skips as many bytes, and the characters it does not discard any more are those it writes
in addition. More symbols than a growable tape can have cells end the ingestion, and the first of
them fill the tape. If both alphabets have the same members, nothing differs at all. -/
theorem Alphabet.larger_only_adds {a b : Alphabet} (part : a ⊆ b) :
    (∀ {T : Type} [Tape T] (t : T) (head : Position) (sink : Sink),
      (emit t head a sink).2.accepted.toList <+: (emit t head b sink).2.accepted.toList ∧
      (Emission.Terminates t head b → sink.Reliable → ∃ m n text text',
        Emission.Emits t head a sink m text ∧ Emission.Emits t head b sink n text' ∧ m ≤ n ∧
          text <+: text')) ∧
    (∀ (bytes : List UInt8) (less more : Ingestion.Outcome Growable),
      Ingestion.Ingested a bytes less → Ingestion.Ingested b bytes more →
        let kept := Ingestion.accepted b (Decoder.fresh.feed bytes).1
        (kept.length < Growable.cellLimit →
          (∃ xs, xs.Sublist kept ∧ xs = kept.filter (· ∈ a) ∧ less.tape = .ofList xs) ∧
          more.tape = .ofList kept ∧
          ∃ s t, less.result = .ok s ∧ more.result = .ok t ∧ s.bytesRead = t.bytesRead ∧
            s.bytesSkipped = t.bytesSkipped ∧
            s.symbolsWritten + s.symbolsDiscarded = t.symbolsWritten + t.symbolsDiscarded) ∧
        (Growable.cellLimit ≤ kept.length →
          less.tape = .ofList ((kept.filter (· ∈ a)).take (Growable.cellLimit - 1)) ∧
          more.tape = .ofList (kept.take (Growable.cellLimit - 1)) ∧
          more.result = .error (.fault .capacityOverflow))) ∧
    (b ⊆ a → ∀ {T : Type} [Tape T] (t : T),
      (∀ (chunkSize : UInt64) (source : Source),
        ingest a chunkSize t source = ingest b chunkSize t source) ∧
      ∀ (head : Position) (sink : Sink), emit t head a sink = emit t head b sink) := by
  refine ⟨?_, ?_, ?_⟩
  · intro T _ t head sink
    refine ⟨Emission.accepted_emit_mono part t head sink, fun terminates reliable => ?_⟩
    have longer : Emission.scan t head a <+: Emission.scan t head b :=
      Emission.scanFrom_mono part t _ head
    exact ⟨_, _, _, _, Emission.emits_report (terminates.of_subset part) reliable,
      Emission.emits_report terminates reliable, longer.length_le, Emission.report_mono longer⟩
  · intro bytes less more ingested ingested'
    simp -zeta only [Ingestion.accepted_feed_fresh]
    intro kept
    have filtered : Ingestion.symbols a bytes = kept.filter (· ∈ a) :=
      Ingestion.symbols_of_subset part bytes
    refine ⟨fun fits => ?_, fun overfull => ?_⟩
    · have sublist : (Ingestion.symbols a bytes).Sublist kept := by
        rw [filtered]
        exact List.filter_sublist
      obtain ⟨result, tape⟩ := ingested.of_fits (Nat.lt_of_le_of_lt sublist.length_le fits)
      obtain ⟨result', tape'⟩ := ingested'.of_fits fits
      refine ⟨⟨_, sublist, filtered, tape⟩, tape', _, _, result, result', rfl, rfl, ?_⟩
      rw [Ingestion.tally_written_add_discarded, Ingestion.tally_written_add_discarded]
    · obtain ⟨result', tape'⟩ := ingested'.of_overfull overfull
      have tape := ingested.tape_eq
      rw [filtered] at tape
      exact ⟨tape, tape', result'⟩
  · intro whole T _ t
    have same : ∀ s, s ∈ a ↔ s ∈ b := fun s => ⟨part s, whole s⟩
    exact ⟨fun chunkSize source => Ingestion.ingest_congr same chunkSize t source,
      fun head sink => Emission.emitFrom_congr same t _ head 0 sink⟩

/-- With one letter more in the alphabet an emission goes on past the first cell, and an ingestion
has one symbol more on the tape and one less discarded. In another order, and with the letter once,
the larger alphabet is the same to an ingestion that breaks. -/
theorem Alphabet.larger_only_adds_letter :
    let a := Alphabet.ofString "a"
    let b := Alphabet.ofString "éaé"
    let t : Growable := .ofList [.ofChar 'a', .ofChar 'é', .ofChar 'a']
    let bytes : List UInt8 := [0x61, 0xC3, 0xA9, 0x78, 0xFF, 0x61]
    let less := ingest a 2 Growable.empty (.ofBytes bytes)
    let more := ingest b 8192 Growable.empty (.ofBytes bytes)
    let broken : Source := ⟨[.data [0x61, 0xC3], .fail (.plain .brokenPipe)], 0⟩
    a ⊆ b ∧ Emission.Terminates t 0 b ∧
    (∃ m n text text', Emission.Emits t 0 a {} m text ∧ Emission.Emits t 0 b {} n text' ∧
      m ≤ n ∧ text <+: text') ∧
    less.tape = .ofList [.ofChar 'a', .ofChar 'a'] ∧ more.tape = t ∧
    (∃ s t, less.result = .ok s ∧ more.result = .ok t ∧ s.bytesRead = t.bytesRead ∧
      s.bytesSkipped = t.bytesSkipped ∧
      s.symbolsWritten + s.symbolsDiscarded = t.symbolsWritten + t.symbolsDiscarded) ∧
    ingest (.ofString "aé") 3 t broken = ingest b 3 t broken := by
  intro a b t bytes less more broken
  have part : a ⊆ b := by decide
  have reordered : Alphabet.ofString "aé" ⊆ b := by decide
  have whole : b ⊆ Alphabet.ofString "aé" := by decide
  have terminates : Emission.Terminates t 0 b :=
    ⟨3, by decide, by decide, Or.inl ⟨3, rfl, by decide⟩⟩
  have gives : (Source.ofBytes bytes).Gives bytes := ⟨rfl, rfl⟩
  have decoded : (Decoder.fresh.feed bytes).1 = ['a', 'é', 'x', 'a'] := by decide +kernel
  obtain ⟨emission, ingestion, -⟩ := Alphabet.larger_only_adds part
  obtain ⟨-, -, same⟩ := Alphabet.larger_only_adds reordered
  obtain ⟨-, texts⟩ := emission t 0 {}
  obtain ⟨fits, -⟩ := ingestion bytes less more ⟨2, _, by decide, by decide, gives, rfl⟩
    ⟨8192, _, by decide, by decide, gives, rfl⟩
  rw [decoded] at fits
  obtain ⟨⟨xs, -, filtered, tape⟩, tape', counts⟩ := fits (by decide)
  rw [filtered] at tape
  exact ⟨part, terminates, texts terminates Sink.reliable_default, tape, tape', counts,
    (same whole t).1 3 broken⟩

end TapeMachine
