import TapeMachine.Proofs.Ingestion.Overrun

namespace TapeMachine

open Utf8

namespace Growable

def ofList (xs : List Symbol) : Growable := ⟨#[], xs.toArray⟩

theorem ofList_injective {xs ys : List Symbol} (h : ofList xs = ofList ys) : xs = ys :=
  congrArg (fun t => t.right.toList) h

theorem put_size (half : Array Symbol) (s : Symbol) : put half half.size s = half.push s := by
  rw [put, dif_neg (Nat.lt_irrefl _), Nat.sub_self, Array.replicate_zero, Array.append_empty]

theorem set_ofList {xs : List Symbol} (small : xs.length < 2 ^ 63) (s : Symbol) :
    (ofList xs).set (Int64.ofNat xs.length) s = ofList (xs ++ [s]) := by
  have value : (Int64.ofNat xs.length).toInt = xs.length := Int64.toInt_ofNat_of_lt small
  have right : 0 ≤ Int64.ofNat xs.length := by
    rw [Int64.le_iff_toInt_le, Int64.toInt_zero, value]
    omega
  have last : index (Int64.ofNat xs.length) = xs.toArray.size := by
    rw [index, if_pos right, value, Int.toNat_natCast, List.size_toArray]
  rw [set, if_pos right, last, ofList, put_size, List.push_toArray]
  rfl

theorem place_ofList (xs ys : List Symbol) (fits : xs.length + ys.length < cellLimit) :
    Tape.place (ofList xs) (Int64.ofNat xs.length) ys =
      (.ok (Int64.ofNat (xs.length + ys.length)), ofList (xs ++ ys)) := by
  induction ys generalizing xs with
  | nil =>
    rw [List.append_nil]
    rfl
  | cons s ys ih =>
    have more : (xs ++ [s]).length = xs.length + 1 := List.length_append
    rw [List.length_cons] at fits ⊢
    have small : xs.length < 2 ^ 63 := by
      unfold cellLimit at fits
      omega
    have writable := (ofList xs).writable (k := xs.length + 1) (by omega)
    have extended : Tape.set (ofList xs) (Int64.ofNat xs.length) s = ofList (xs ++ [s]) :=
      set_ofList small s
    have rest := ih (xs ++ [s]) (by omega)
    rw [more, List.append_assoc] at rest
    rw [Tape.place_cons_of_writable writable (Nat.lt_succ_self _), extended, rest]
    congr 3
    omega

theorem place_empty {xs : List Symbol} (fits : xs.length < cellLimit) :
    Tape.place empty 0 xs = (.ok (Int64.ofNat xs.length), ofList xs) := by
  have placed := place_ofList [] xs (by rwa [List.length_nil, Nat.zero_add])
  rwa [List.length_nil, Nat.zero_add] at placed

theorem place_empty_of_more {xs : List Symbol} (more : cellLimit ≤ xs.length) :
    Tape.place empty 0 xs = (.error .capacityOverflow, ofList (xs.take (cellLimit - 1))) := by
  have positive : 0 < cellLimit := by decide
  have shorter : (xs.take (cellLimit - 1)).length < cellLimit := by
    rw [List.length_take]
    omega
  have beyond : cellLimit - 1 < xs.length := by omega
  obtain ⟨f, refused, overfull⟩ := empty.room.place_of_lt beyond
  have limit : Tape.refusal? empty (Int64.ofNat (cellLimit - 1)) = some .capacityOverflow := by
    decide
  cases refused.symm.trans limit
  rw [overfull, place_empty shorter]

end Growable

/-- A reader delivers these bytes, in any number of reads some of which may be interrupted, and
then its stream ends. -/
def Source.Gives (source : Source) (bytes : List UInt8) : Prop :=
  Source.stream source.events = bytes ∧ Source.breakage? source.events = none

theorem Source.Gives.exists_deliveries {source : Source} {bytes : List UInt8}
    (h : source.Gives bytes) :
    ∃ deliveries ending, source.events = deliveries ++ ending ∧ (∀ e ∈ deliveries, e.Delivers) ∧
      Source.Ends ending ∧ Source.delivered deliveries = bytes := by
  obtain ⟨events, reads⟩ := source
  obtain ⟨stream, unbroken⟩ := h
  obtain ⟨deliveries, ending, rfl, delivers, stops⟩ := Source.exists_deliveries events
  rw [Source.stream_append delivers stops] at stream
  rw [Source.breakage?_append delivers] at unbroken
  obtain ends | ⟨i, left, rfl, fatal⟩ := stops
  · exact ⟨deliveries, ending, rfl, delivers, ends, stream⟩
  · cases unbroken.symm.trans (Source.breakage?_of_fatal fatal left)

namespace Ingestion

/-- What the summary of an ingestion says of the bytes, if there is room for their symbols. -/
def tally (a : Alphabet) (bytes : List UInt8) : IngestSummary where
  bytesRead := bytes.length
  symbolsWritten := (symbols a bytes).length
  symbolsDiscarded := (scan bytes).scalars.length - (symbols a bytes).length
  bytesSkipped := (scan bytes).skipped + (scan bytes).pending.length

/-- An ingestion of these bytes onto an empty growable tape has this outcome, for some way to
deliver them and some number of bytes that are asked for at a time. -/
def Ingested (a : Alphabet) (bytes : List UInt8) (o : Outcome Growable) : Prop :=
  ∃ (chunkSize : UInt64) (source : Source), 0 < chunkSize ∧ chunkSize.toNat < 2 ^ 63 ∧
    source.Gives bytes ∧ ingest a chunkSize .empty source = o

variable {a : Alphabet} {bytes : List UInt8} {o : Outcome Growable}

theorem Ingested.of_fits (h : Ingested a bytes o)
    (fits : (symbols a bytes).length < Growable.cellLimit) :
    o.result = .ok (tally a bytes) ∧ o.tape = .ofList (symbols a bytes) := by
  obtain ⟨chunkSize, ⟨events, reads⟩, positive, bound, gives, rfl⟩ := h
  obtain ⟨deliveries, ending, rfl, delivers, ends, rfl⟩ := gives.exists_deliveries
  have small : (symbols a (Source.delivered deliveries)).length < 2 ^ 64 :=
    Nat.lt_trans fits (by decide)
  obtain ⟨reads', he⟩ :=
    ingest_ended positive bound delivers ends reads (Growable.place_empty fits)
  rw [he, close_reached a small]
  exact ⟨rfl, rfl⟩

theorem Ingested.of_overfull (h : Ingested a bytes o)
    (more : Growable.cellLimit ≤ (symbols a bytes).length) :
    o.result = .error (.fault .capacityOverflow) ∧
      o.tape = .ofList ((symbols a bytes).take (Growable.cellLimit - 1)) := by
  obtain ⟨chunkSize, ⟨events, reads⟩, positive, bound, gives, rfl⟩ := h
  obtain ⟨deliveries, ending, rfl, delivers, ends, rfl⟩ := gives.exists_deliveries
  have overfull := Growable.place_empty_of_more more
  obtain ⟨f, u, left, hp, he⟩ | ⟨r, u, reads', hp, -⟩ :=
    ingest_delivered positive bound Growable.empty ending delivers reads
  · cases hp.symm.trans overfull
    rw [he]
    exact ⟨rfl, rfl⟩
  · cases hp.symm.trans overfull

theorem Ingested.tape_eq (h : Ingested a bytes o) :
    o.tape = .ofList ((symbols a bytes).take (Growable.cellLimit - 1)) := by
  rcases Nat.lt_or_ge (symbols a bytes).length Growable.cellLimit with fits | more
  · rw [(h.of_fits fits).2, List.take_of_length_le (Nat.le_sub_one_of_lt fits)]
  · exact (h.of_overfull more).2

theorem Ingested.symbols_eq_nil (h : Ingested a bytes o) (nothing : o.tape = .empty) :
    symbols a bytes = [] := by
  have none : (symbols a bytes).take (Growable.cellLimit - 1) = [] :=
    Growable.ofList_injective (h.tape_eq.symm.trans nothing)
  rcases List.take_eq_nil_iff.mp none with limit | empty
  · exact absurd limit (by decide)
  · exact empty

end Ingestion

end TapeMachine

namespace TapeMachine

open Utf8

namespace Utf8

/-- A byte string that goes on with no sequence begun before it. -/
def BeginsAnew (bytes : List UInt8) : Prop := ∀ b ∈ bytes.head?, ¬IsContinuation b

/-- What the first part leaves incomplete is skipped, be it at the end of a stream or by what
follows. -/
theorem scan_append_of_beginsAnew (bytes : List UInt8) {more : List UInt8} (h : BeginsAnew more) :
    (scan (bytes ++ more)).scalars = (scan bytes).scalars ++ (scan more).scalars ∧
      (scan (bytes ++ more)).skipped + (scan (bytes ++ more)).pending.length =
        (scan bytes).skipped + (scan bytes).pending.length +
          ((scan more).skipped + (scan more).pending.length) := by
  cases more with
  | nil => simp [Decoder.scan_nil]
  | cons b more =>
    -- The byte that begins anew breaks off what is pending, and this is skipped byte by byte.
    have anew : ¬IsContinuation b := h b rfl
    rw [scan_append, scan_of_break (step_pending bytes) anew]
    refine ⟨rfl, ?_⟩
    simp only [Scan.andThen]
    omega

end Utf8

instance : Add IngestSummary where
  add s t :=
    { bytesRead := s.bytesRead + t.bytesRead
      symbolsWritten := s.symbolsWritten + t.symbolsWritten
      symbolsDiscarded := s.symbolsDiscarded + t.symbolsDiscarded
      bytesSkipped := s.bytesSkipped + t.bytesSkipped }

namespace Ingestion

variable {a : Alphabet} {bytes more : List UInt8}

theorem symbols_append_of_beginsAnew (a : Alphabet) (bytes : List UInt8) (h : BeginsAnew more) :
    symbols a (bytes ++ more) = symbols a bytes ++ symbols a more := by
  rw [symbols, (scan_append_of_beginsAnew bytes h).1, accepted_append]
  rfl

theorem tally_append_of_beginsAnew (a : Alphabet) (bytes : List UInt8) (h : BeginsAnew more) :
    tally a (bytes ++ more) = tally a bytes + tally a more := by
  obtain ⟨scalars, skipped⟩ := scan_append_of_beginsAnew bytes h
  have fewer := length_accepted_le a (scan bytes).scalars
  have fewer' := length_accepted_le a (scan more).scalars
  rw [← symbols] at fewer fewer'
  rw [tally, symbols_append_of_beginsAnew a bytes h, scalars, skipped]
  simp only [List.length_append]
  change _ = IngestSummary.mk _ _ _ _
  congr 1
  simp only [tally]
  omega

/-- Taken apart where its second part begins anew, a stream of bytes puts on the tape what its parts
put there, one after the other, and all four counts add up. If these are more symbols than a
growable tape can have cells, the first of them fill it. Bytes that put nothing on a tape of their
own, and that begin anew too, can stand between the parts without a trace on the tape. -/
theorem ingested_append {a b : List UInt8} (anew : BeginsAnew b) {alphabet : Alphabet}
    {first second whole : Outcome Growable} (one : Ingested alphabet a first)
    (other : Ingested alphabet b second) (both : Ingested alphabet (a ++ b) whole) :
    let xs := accepted alphabet (Decoder.fresh.feed a).1
    let ys := accepted alphabet (Decoder.fresh.feed b).1
    ((xs ++ ys).length < Growable.cellLimit →
      first.tape = .ofList xs ∧ second.tape = .ofList ys ∧ whole.tape = .ofList (xs ++ ys) ∧
      ∃ s t, first.result = .ok s ∧ second.result = .ok t ∧ whole.result = .ok (s + t)) ∧
    (Growable.cellLimit ≤ (xs ++ ys).length →
      whole.tape = .ofList ((xs ++ ys).take (Growable.cellLimit - 1)) ∧
      whole.result = .error (.fault .capacityOverflow)) ∧
    ∀ (m : List UInt8) (between inserted : Outcome Growable), BeginsAnew m →
      Ingested alphabet m between → between.tape = .empty →
      Ingested alphabet (a ++ m ++ b) inserted → inserted.tape = whole.tape := by
  simp -zeta only [accepted_feed_fresh]
  intro xs ys
  have joined : symbols alphabet (a ++ b) = xs ++ ys := symbols_append_of_beginsAnew alphabet a anew
  refine ⟨fun fits => ?_, fun more => ?_, ?_⟩
  · have length : (xs ++ ys).length = xs.length + ys.length := List.length_append
    obtain ⟨result, tape⟩ := one.of_fits (show xs.length < _ by omega)
    obtain ⟨result', tape'⟩ := other.of_fits (show ys.length < _ by omega)
    obtain ⟨result'', tape''⟩ := both.of_fits (by rwa [joined])
    rw [joined] at tape''
    rw [tally_append_of_beginsAnew alphabet a anew] at result''
    exact ⟨tape, tape', tape'', _, _, result, result', result''⟩
  · obtain ⟨result, tape⟩ := both.of_overfull (by rwa [joined])
    rw [joined] at tape
    exact ⟨tape, result⟩
  · intro m between inserted anew' neutral nothing around
    have none := neutral.symbols_eq_nil nothing
    have same : symbols alphabet (a ++ m ++ b) = symbols alphabet (a ++ b) := by
      rw [symbols_append_of_beginsAnew alphabet (a ++ m) anew,
        symbols_append_of_beginsAnew alphabet a anew', none, List.append_nil, joined]
    rw [around.tape_eq, both.tape_eq, same]

/-- A euro sign without its last byte, and after it a character, a null and a byte that begins
nothing. In a row they come in other pieces than alone, and a character that is not wanted can stand
between them. -/
theorem ingested_append_euro :
    let alphabet := Alphabet.ofString "aé"
    let first := ingest alphabet 2 Growable.empty (.ofBytes [0x61, 0xE2, 0x82])
    let second := ingest alphabet 1 Growable.empty (.ofBytes [0xC3, 0xA9, 0x00, 0x61, 0x78, 0xFF])
    let whole := ingest alphabet 3 Growable.empty
      ⟨[.data [0x61, 0xE2], .fail (.plain .interrupted),
        .data [0x82, 0xC3, 0xA9, 0x00, 0x61, 0x78, 0xFF]], 0⟩
    let inserted := ingest alphabet 8 Growable.empty
      (.ofBytes [0x61, 0xE2, 0x82, 0x78, 0xF0, 0xC3, 0xA9, 0x00, 0x61, 0x78, 0xFF])
    first.tape = .ofList [.ofChar 'a'] ∧ second.tape = .ofList [.ofChar 'é', .ofChar 'a'] ∧
    whole.tape = .ofList [.ofChar 'a', .ofChar 'é', .ofChar 'a'] ∧
    (∃ s t, first.result = .ok s ∧ second.result = .ok t ∧ whole.result = .ok (s + t)) ∧
    inserted.tape = whole.tape := by
  intro alphabet first second whole inserted
  have gives (bytes : List UInt8) (h : bytes ≠ []) : (Source.ofBytes bytes).Gives bytes := by
    obtain ⟨b, bytes, rfl⟩ := List.exists_cons_of_ne_nil h
    exact ⟨List.append_nil _, rfl⟩
  have one : Ingested alphabet [0x61, 0xE2, 0x82] first :=
    ⟨2, _, by decide, by decide, gives _ (by simp), rfl⟩
  have other : Ingested alphabet [0xC3, 0xA9, 0x00, 0x61, 0x78, 0xFF] second :=
    ⟨1, _, by decide, by decide, gives _ (by simp), rfl⟩
  have both : Ingested alphabet [0x61, 0xE2, 0x82, 0xC3, 0xA9, 0x00, 0x61, 0x78, 0xFF] whole :=
    ⟨3, _, by decide, by decide, ⟨rfl, rfl⟩, rfl⟩
  have around : Ingested alphabet
      [0x61, 0xE2, 0x82, 0x78, 0xF0, 0xC3, 0xA9, 0x00, 0x61, 0x78, 0xFF] inserted :=
    ⟨8, _, by decide, by decide, gives _ (by simp), rfl⟩
  have neutral : Ingested alphabet [0x78, 0xF0] _ :=
    ⟨1, _, by decide, by decide, gives _ (by simp), rfl⟩
  have none : symbols alphabet [0x78, 0xF0] = [] := by decide +kernel
  have decoded : (Decoder.fresh.feed [0x61, 0xE2, 0x82]).1 = ['a'] := by decide +kernel
  have decoded' : (Decoder.fresh.feed [0xC3, 0xA9, 0x00, 0x61, 0x78, 0xFF]).1 =
      ['é', 'a', 'x'] := by decide +kernel
  have anew : BeginsAnew [0xC3, 0xA9, 0x00, 0x61, 0x78, 0xFF] := by
    simp [BeginsAnew, IsContinuation]
  have anew' : BeginsAnew [0x78, 0xF0] := by
    simp [BeginsAnew, IsContinuation]
  obtain ⟨fits, -, insertion⟩ := ingested_append anew one other both
  have nothing := neutral.tape_eq
  rw [none] at nothing
  rw [decoded, decoded'] at fits
  obtain ⟨tape, tape', tape'', counts⟩ := fits (by decide)
  exact ⟨tape, tape', tape'', counts, insertion _ _ _ anew' neutral nothing around⟩

end Ingestion

end TapeMachine
