import TapeMachine.Ingestion
import TapeMachine.Proofs.Tape.Placement
import TapeMachine.Proofs.Utf8.Occurrences

namespace TapeMachine

open Utf8

namespace Source

/-- What a reader does before its stream ends: it delivers some bytes or is interrupted. -/
def Event.Delivers : Event → Prop
  | .data bytes => bytes ≠ []
  | .fail e => e.isInterrupted

def Event.bytes : Event → List UInt8
  | .data bytes => bytes
  | .fail _ => []

def delivered (events : List Event) : List UInt8 := events.flatMap Event.bytes

/-- The next read finds the end of the stream. -/
def Ends (events : List Event) : Prop := ∀ e ∈ events.head?, e = .data []

theorem read_of_ends {events : List Event} (h : Ends events) (reads room : Nat) :
    (⟨events, reads⟩ : Source).read room = (.ok [], ⟨events.tail, reads + 1⟩) := by
  cases events with
  | nil => rfl
  | cons e events =>
    obtain rfl := h e rfl
    simp [read]

theorem read_of_delivers {e : Event} {events : List Event} (h : ∀ d ∈ e :: events, d.Delivers)
    {room : Nat} (positive : 0 < room) (rest : List Event) (reads : Nat) :
    ∃ events', (∀ d ∈ events', d.Delivers) ∧
      ((∃ i, i.isInterrupted ∧ delivered (e :: events) = delivered events' ∧
        (⟨e :: events ++ rest, reads⟩ : Source).read room =
          (.error i, ⟨events' ++ rest, reads + 1⟩)) ∨
      ∃ b chunk, delivered (e :: events) = b :: chunk ++ delivered events' ∧
        (⟨e :: events ++ rest, reads⟩ : Source).read room =
          (.ok (b :: chunk), ⟨events' ++ rest, reads + 1⟩)) := by
  have he := h e List.mem_cons_self
  have hs : ∀ d ∈ events, d.Delivers := fun d hd => h d (List.mem_cons_of_mem e hd)
  cases e with
  | fail i => exact ⟨events, hs, Or.inl ⟨i, he, rfl, rfl⟩⟩
  | data bytes =>
    obtain ⟨room, rfl⟩ := Nat.exists_eq_add_one.mpr positive
    obtain ⟨b, bytes, rfl⟩ := List.exists_cons_of_ne_nil he
    cases hd : bytes.drop room with
    | nil =>
      refine ⟨events, hs, Or.inr ⟨b, bytes, rfl, ?_⟩⟩
      simp [read, hd]
    | cons c left =>
      refine ⟨.data (c :: left) :: events, ?_, Or.inr ⟨b, bytes.take room, ?_, ?_⟩⟩
      · rintro d (_ | ⟨_, hd⟩)
        · exact List.cons_ne_nil c left
        · exact hs d hd
      · rw [delivered, delivered, List.flatMap_cons, List.flatMap_cons, ← List.append_assoc]
        simp only [Event.bytes, List.cons_append, ← hd, List.take_append_drop]
      · simp [read, hd]

/-- What a reader does is a delivery up to where the stream ends or breaks. -/
theorem exists_deliveries (events : List Event) :
    ∃ deliveries rest, events = deliveries ++ rest ∧ (∀ e ∈ deliveries, e.Delivers) ∧
      (Ends rest ∨ ∃ i left, rest = .fail i :: left ∧ i.isInterrupted = false) := by
  induction events with
  | nil => exact ⟨[], [], rfl, by simp, Or.inl (by simp [Ends])⟩
  | cons e events ih =>
    by_cases he : e.Delivers
    · obtain ⟨deliveries, rest, rfl, delivers, hrest⟩ := ih
      refine ⟨e :: deliveries, rest, rfl, ?_, hrest⟩
      rintro d (_ | ⟨_, hd⟩)
      · exact he
      · exact delivers d hd
    · refine ⟨[], e :: events, rfl, by simp, ?_⟩
      cases e with
      | data bytes =>
        have hb : bytes = [] := Classical.byContradiction he
        subst bytes
        exact Or.inl (by simp [Ends])
      | fail i => exact Or.inr ⟨i, events, rfl, by simpa [Event.Delivers] using he⟩

end Source

namespace Ingestion

theorem accepted_append (a : Alphabet) (xs ys : List Char) :
    accepted a (xs ++ ys) = accepted a xs ++ accepted a ys := by
  simp [accepted]

theorem length_accepted_le (a : Alphabet) (xs : List Char) :
    (accepted a xs).length ≤ xs.length := by
  simpa [accepted] using List.length_filter_le (· ∈ a) (xs.map Symbol.ofChar)

def symbols (a : Alphabet) (bytes : List UInt8) : List Symbol := accepted a (scan bytes).scalars

theorem symbols_append (a : Alphabet) (before chunk : List UInt8) :
    symbols a (before ++ chunk) =
      symbols a before ++ symbols a ((scan before).pending ++ chunk) := by
  rw [symbols, scan_append]
  exact accepted_append a _ _

theorem blank_not_mem_symbols (a : Alphabet) (bytes : List UInt8) :
    Symbol.blank ∉ symbols a bytes := by
  intro h
  obtain ⟨c, hc, he⟩ := List.mem_map.mp (List.mem_filter.mp h).1
  have hv : c = '\x00' := Char.ext (Symbol.mk.inj he)
  exact null_not_mem_scan bytes (hv ▸ hc)

def reached (a : Alphabet) (bytes : List UInt8) : State where
  decoder := Decoder.begun 0 bytes
  cursor := Int64.ofNat (symbols a bytes).length
  summary :=
    { bytesRead := bytes.length
      symbolsDiscarded := (scan bytes).scalars.length - (symbols a bytes).length }

theorem reached_append (a : Alphabet) (before chunk : List UInt8) :
    reached a (before ++ chunk) =
      { decoder := Decoder.begun 0 (before ++ chunk)
        cursor := (reached a before).cursor +
          Int64.ofNat (symbols a ((scan before).pending ++ chunk)).length
        summary :=
          { (reached a before).summary with
            bytesRead := (reached a before).summary.bytesRead + chunk.length
            symbolsDiscarded := (reached a before).summary.symbolsDiscarded +
              ((scan ((scan before).pending ++ chunk)).scalars.length -
                (symbols a ((scan before).pending ++ chunk)).length) } } := by
  have hb := length_accepted_le a (scan before).scalars
  have hc := length_accepted_le a (scan ((scan before).pending ++ chunk)).scalars
  rw [← symbols] at hb hc
  rw [reached, symbols_append, scan_append before chunk]
  simp only [reached, Scan.andThen, List.length_append, Int64.ofNat_add]
  congr 2
  omega

theorem reached_nil (a : Alphabet) : reached a [] = {} := by
  simp only [reached, Decoder.begun_nil, symbols, Decoder.scan_nil]
  rfl

variable {T : Type} [Tape T]

theorem place_ok {t u : T} {p q : Position} {xs : List Symbol}
    (h : Tape.place t p xs = (.ok q, u)) : q = p + Int64.ofNat xs.length := by
  induction xs generalizing t p with
  | nil =>
    obtain ⟨rfl, -⟩ : p = q ∧ t = u := by simpa [Tape.place] using h
    exact (Int64.add_zero p).symm
  | cons s xs ih =>
    unfold Tape.place at h
    split at h
    next => simp at h
    next =>
      rw [ih h, List.length_cons, Int64.add_assoc, Int64.add_comm 1, Tape.ofNat_succ]

theorem absorb_reached (a : Alphabet) (before chunk : List UInt8) (t : T) :
    absorb a (reached a before) t chunk =
      match Tape.place t (reached a before).cursor (symbols a ((scan before).pending ++ chunk)) with
      | (.error f, t) => (.error f, t)
      | (.ok _, t) => (.ok (reached a (before ++ chunk)), t) := by
  have hfeed : (reached a before).decoder.feed chunk = _ := Decoder.feed_begun 0 before chunk
  simp only [absorb, hfeed]
  rw [← symbols]
  cases hp : Tape.place t (reached a before).cursor (symbols a ((scan before).pending ++ chunk)) with
  | mk outcome u =>
    cases outcome with
    | error f => rfl
    | ok cursor => rw [place_ok hp, reached_append]

theorem absorb_placed {a : Alphabet} {before : List UInt8} {t u : T} {q : Position}
    (h : Tape.place t 0 (symbols a before) = (.ok q, u)) (chunk : List UInt8) :
    absorb a (reached a before) u chunk =
      match Tape.place t 0 (symbols a (before ++ chunk)) with
      | (.error f, u) => (.error f, u)
      | (.ok _, u) => (.ok (reached a (before ++ chunk)), u) := by
  obtain rfl := (place_ok h).trans (Int64.zero_add _)
  rw [symbols_append, Tape.place_append, h, absorb_reached]
  rfl

theorem pump_eq (a : Alphabet) (room : Nat) (st : State) (t : T) (source : Source) :
    pump a room st t source =
      match source.read room with
      | (.ok [], rest) => ⟨.ok st.close, t, rest⟩
      | (.ok (b :: bytes), rest) =>
        match absorb a st t (b :: bytes) with
        | (.error f, t) => ⟨.error (.fault f), t, rest⟩
        | (.ok st, t) => pump a room st t rest
      | (.error e, rest) =>
        if e.isInterrupted then pump a room st t rest
        else ⟨.error (.error (.input e)), t, rest⟩ := by
  rw [pump]
  split
  next h => rw [h]
  next b bytes rest h =>
    change (match absorb a st t (b :: bytes) with
      | (.error f, t) => (⟨.error (.fault f), t, rest⟩ : Outcome T)
      | (.ok st, t) => pump a room st t rest) = _
    rw [h]
  next e rest h =>
    change (if e.isInterrupted then pump a room st t rest
      else ⟨.error (.error (.input e)), t, rest⟩) = _
    rw [h]

theorem pump_of_ends {a : Alphabet} {room : Nat} {events : List Source.Event}
    (ends : Source.Ends events) (st : State) (t : T) (reads : Nat) :
    pump a room st t ⟨events, reads⟩ = ⟨.ok st.close, t, ⟨events.tail, reads + 1⟩⟩ := by
  rw [pump_eq, Source.read_of_ends ends]

theorem pump_of_fatal {a : Alphabet} {room : Nat} {i : IoError} (fatal : i.isInterrupted = false)
    (st : State) (t : T) (rest : List Source.Event) (reads : Nat) :
    pump a room st t ⟨.fail i :: rest, reads⟩ =
      ⟨.error (.error (.input i)), t, ⟨rest, reads + 1⟩⟩ := by
  rw [pump_eq]
  simp only [Source.read, fatal]
  rfl

/-- Reading all that is delivered has the effect of writing all symbols in it, in whatever pieces
it comes. Either a write is refused, or the reading goes on with what comes next. -/
theorem pump_delivered {a : Alphabet} {room : Nat} (positive : 0 < room) {t u : T} {q : Position}
    {before : List UInt8} {events rest : List Source.Event}
    (placed : Tape.place t 0 (symbols a before) = (.ok q, u))
    (delivers : ∀ e ∈ events, e.Delivers) (reads : Nat) :
    (∃ f v left, Tape.place t 0 (symbols a (before ++ Source.delivered events)) = (.error f, v) ∧
      pump a room (reached a before) u ⟨events ++ rest, reads⟩ = ⟨.error (.fault f), v, left⟩) ∨
    ∃ r v reads',
      Tape.place t 0 (symbols a (before ++ Source.delivered events)) = (.ok r, v) ∧
      pump a room (reached a before) u ⟨events ++ rest, reads⟩ =
        pump a room (reached a (before ++ Source.delivered events)) v ⟨rest, reads'⟩ := by
  -- What a call has no room for stays with the source, so the events themselves do not decrease.
  induction hw : (⟨events ++ rest, reads⟩ : Source).weight using Nat.strongRecOn
    generalizing before u q events reads with
  | ind weight ih =>
    subst weight
    cases events with
    | nil =>
      rw [Source.delivered, List.flatMap_nil, List.append_nil]
      exact Or.inr ⟨q, u, reads, placed, rfl⟩
    | cons e events =>
      obtain ⟨events', delivers', ⟨i, hi, hd, hr⟩ | ⟨b, chunk, hd, hr⟩⟩ :=
        Source.read_of_delivers delivers positive rest reads
      · rw [pump_eq, hr, hd]
        simp only [if_pos hi]
        exact ih _ (Source.weight_read_of_error hr) placed delivers' (reads + 1) rfl
      · rw [pump_eq, hr, hd, ← List.append_assoc]
        simp only [absorb_placed placed]
        cases hp : Tape.place t 0 (symbols a (before ++ b :: chunk)) with
        | mk r v =>
          cases r with
          | error f =>
            refine Or.inl ⟨f, v, _, ?_, rfl⟩
            rw [symbols_append, Tape.place_append, hp]
          | ok r => exact ih _ (Source.weight_read_of_bytes hr) hp delivers' (reads + 1) rfl

theorem close_reached (a : Alphabet) {bytes : List UInt8}
    (h : (symbols a bytes).length < 2 ^ 64) :
    (reached a bytes).close =
      { bytesRead := bytes.length
        symbolsWritten := (symbols a bytes).length
        symbolsDiscarded := (scan bytes).scalars.length - (symbols a bytes).length
        bytesSkipped := (scan bytes).skipped + (scan bytes).pending.length } := by
  have hw : (Int64.ofNat (symbols a bytes).length).toUInt64.toNat = (symbols a bytes).length := by
    rw [Int64.toUInt64_ofNat', UInt64.toNat_ofNat_of_lt' h]
  rw [State.close, reached, hw]
  simp only [Decoder.finish_begun, Decoder.begun_nil, Decoder.idle, Nat.zero_add]

theorem ingest_zero (a : Alphabet) (t : T) (source : Source) :
    ingest a 0 t source = ⟨.error (.error (.config .zeroChunkSize)), t, source⟩ :=
  if_pos rfl

theorem ingest_of_large {a : Alphabet} {chunkSize : UInt64} (large : 2 ^ 63 ≤ chunkSize.toNat) (t : T)
    (source : Source) :
    ingest a chunkSize t source = ⟨.error (.fault .capacityOverflow), t, source⟩ := by
  have positive : chunkSize ≠ 0 := by
    rintro rfl
    simp at large
  have size : roomLimit ≤ chunkSize.toNat := large
  rw [ingest, if_neg positive, if_pos size]

theorem ingest_delivered {a : Alphabet} {chunkSize : UInt64} (positive : 0 < chunkSize)
    (bound : chunkSize.toNat < 2 ^ 63) (t : T) {events : List Source.Event}
    (rest : List Source.Event) (delivers : ∀ e ∈ events, e.Delivers) (reads : Nat) :
    (∃ f u left, Tape.place t 0 (symbols a (Source.delivered events)) = (.error f, u) ∧
      ingest a chunkSize t ⟨events ++ rest, reads⟩ = ⟨.error (.fault f), u, left⟩) ∨
    ∃ r u reads', Tape.place t 0 (symbols a (Source.delivered events)) = (.ok r, u) ∧
      ingest a chunkSize t ⟨events ++ rest, reads⟩ =
        pump a chunkSize.toNat (reached a (Source.delivered events)) u ⟨rest, reads'⟩ := by
  have start : Tape.place t 0 (symbols a []) = (.ok 0, t) := by
    simp [symbols, accepted, Decoder.scan_nil, Tape.place]
  have size : ¬roomLimit ≤ chunkSize.toNat := Nat.not_le_of_lt bound
  rw [ingest, if_neg (UInt64.ne_of_lt positive).symm, if_neg size, ← reached_nil a]
  exact pump_delivered (UInt64.lt_iff_toNat_lt.mp positive) start delivers reads

theorem ingest_ended {a : Alphabet} {chunkSize : UInt64} (positive : 0 < chunkSize)
    (bound : chunkSize.toNat < 2 ^ 63) {t : T} {events ending : List Source.Event}
    (delivers : ∀ e ∈ events, e.Delivers) (ends : Source.Ends ending) (reads : Nat) {r : Position}
    {u : T} (placed : Tape.place t 0 (symbols a (Source.delivered events)) = (.ok r, u)) :
    ∃ reads', ingest a chunkSize t ⟨events ++ ending, reads⟩ =
      ⟨.ok (reached a (Source.delivered events)).close, u, ⟨ending.tail, reads'⟩⟩ := by
  obtain ⟨f, v, left, hp, -⟩ | ⟨r', v, reads', hp, he⟩ :=
    ingest_delivered positive bound t ending delivers reads
  · cases placed.symm.trans hp
  · cases placed.symm.trans hp
    exact ⟨reads' + 1, by rw [he, pump_of_ends ends]⟩

/-- When a read fails for good, what was delivered before it stays on the tape. -/
theorem ingest_broken {a : Alphabet} {chunkSize : UInt64} (positive : 0 < chunkSize)
    (bound : chunkSize.toNat < 2 ^ 63) {t : T} {events rest : List Source.Event} {i : IoError}
    (delivers : ∀ e ∈ events, e.Delivers) (fatal : i.isInterrupted = false) (reads : Nat)
    {r : Position} {u : T}
    (placed : Tape.place t 0 (symbols a (Source.delivered events)) = (.ok r, u)) :
    ∃ reads', ingest a chunkSize t ⟨events ++ .fail i :: rest, reads⟩ =
      ⟨.error (.error (.input i)), u, ⟨rest, reads'⟩⟩ := by
  obtain ⟨f, v, left, hp, -⟩ | ⟨r', v, reads', hp, he⟩ :=
    ingest_delivered positive bound t (.fail i :: rest) delivers reads
  · cases placed.symm.trans hp
  · cases placed.symm.trans hp
    exact ⟨reads' + 1, by rw [he, pump_of_fatal fatal]⟩

/-- What an ingestion does to a tape is to place some symbols. What they are, and how it ends if
none of them is refused, depends on the source alone. -/
theorem ingest_places (a : Alphabet) (chunkSize : UInt64) (source : Source) :
    ∃ written result, ∀ {T : Type} [Tape T] (t : T), ∃ left,
      ingest a chunkSize t source =
        match Tape.place t 0 written with
        | (.error f, u) => ⟨.error (.fault f), u, left⟩
        | (.ok _, u) => ⟨result, u, left⟩ := by
  by_cases positive : 0 < chunkSize
  · by_cases bound : chunkSize.toNat < 2 ^ 63
    · obtain ⟨events, reads⟩ := source
      obtain ⟨deliveries, rest, rfl, delivers, hrest⟩ := Source.exists_deliveries events
      have hingest {T : Type} [Tape T] (t : T) :=
        ingest_delivered (a := a) positive bound t rest delivers reads
      rcases hrest with ends | ⟨i, left, rfl, hi⟩
      · refine ⟨symbols a (Source.delivered deliveries),
          .ok (reached a (Source.delivered deliveries)).close, fun t => ?_⟩
        obtain ⟨f, u, left, hp, he⟩ | ⟨r, u, reads', hp, he⟩ := hingest t
        · exact ⟨left, by rw [he, hp]⟩
        · exact ⟨_, by rw [he, hp, pump_of_ends ends]⟩
      · refine ⟨symbols a (Source.delivered deliveries), .error (.error (.input i)), fun t => ?_⟩
        obtain ⟨f, u, left, hp, he⟩ | ⟨r, u, reads', hp, he⟩ := hingest t
        · exact ⟨left, by rw [he, hp]⟩
        · exact ⟨_, by rw [he, hp, pump_of_fatal hi]⟩
    · exact ⟨[], .error (.fault .capacityOverflow), fun t =>
        ⟨source, ingest_of_large (Nat.le_of_not_lt bound) t source⟩⟩
  · obtain rfl := UInt64.le_zero_iff.mp (UInt64.not_lt.mp positive)
    exact ⟨[], .error (.error (.config .zeroChunkSize)), fun t =>
      ⟨source, ingest_zero a t source⟩⟩

/-- However a stream is delivered, its symbols are written side by side from the origin on and
everything in it is counted. Nothing is read past the end of the stream. -/
theorem ingest_of_delivery {T : Type} [Tape T] [LawfulTape T] (a : Alphabet) {chunkSize : UInt64}
    {t : T} {deliveries ending : List Source.Event} (reads : Nat)
    (positive : 0 < chunkSize) (bound : chunkSize.toNat < 2 ^ 63)
    (delivers : ∀ e ∈ deliveries, e.Delivers) (ends : Source.Ends ending)
    (room : Tape.Writable t
      (accepted a (Decoder.fresh.feed (Source.delivered deliveries)).1).length) :
    let bytes := Source.delivered deliveries
    let decoded := (Decoder.fresh.feed bytes).1
    let written := accepted a decoded
    let o := ingest a chunkSize t ⟨deliveries ++ ending, reads⟩
    (∃ discarded skipped,
      o.result = .ok ⟨bytes.length, written.length, discarded, skipped⟩ ∧
      written.length + discarded = decoded.length ∧
      skipped + (decoded.map Char.utf8Size).sum = bytes.length) ∧
    (∀ (p : Position) (i : Nat), p.toInt = i → i < written.length →
      written[i]? = some (Tape.read o.tape p)) ∧
    (∀ p : Position, p.toInt < 0 ∨ written.length ≤ p.toInt →
      Tape.read o.tape p = Tape.read t p) ∧
    o.tape = (Tape.place t 0 written).2 ∧ Symbol.blank ∉ written ∧
    o.source.events = ending.tail := by
  intro bytes decoded written o
  have hwritten : written = symbols a bytes := by
    simp only [written, decoded, Decoder.feed_fresh]
    rfl
  have hdecoded : decoded = (scan bytes).scalars := by simp only [decoded, Decoder.feed_fresh]
  have enough : 0 + written.length ≤ written.length := Nat.le_of_eq (Nat.zero_add _)
  have hread := Tape.read_place room enough
  have placed := Tape.place_of_writable room enough
  have small : written.length < 2 ^ 64 := Nat.lt_of_le_of_lt room.le (by decide)
  have hcount := length_accepted_le a decoded
  have hlength := scan_length bytes
  have hclose := close_reached a (hwritten ▸ small)
  rw [← hwritten, ← hdecoded] at hclose
  rw [← hdecoded] at hlength
  obtain ⟨reads', ho⟩ :=
    ingest_ended positive bound delivers ends reads (by rw [← hwritten]; exact placed)
  have hresult : o.result = .ok _ := (congrArg Outcome.result ho).trans (congrArg Except.ok hclose)
  have htape : o.tape = (Tape.place t (Int64.ofNat 0) written).2 := congrArg Outcome.tape ho
  refine ⟨⟨_, _, hresult, Nat.add_sub_cancel' hcount, hlength⟩, ?_, ?_, htape, ?_,
    congrArg (fun o => o.source.events) ho⟩
  · intro p i hi hlt
    have he : (p.toInt - (0 : Nat)).toNat = i := by omega
    rw [htape, hread, if_pos (by omega), he, List.getElem?_eq_getElem hlt, Option.getD_some]
  · intro p hp
    rw [htape, hread]
    split
    next h => rw [List.getElem?_eq_none (by omega), Option.getD_none]
    next => rfl
  · rw [hwritten]
    exact blank_not_mem_symbols a bytes

/-- A character that an interrupted read cuts in two, a byte that begins nothing, a character that
is not wanted, and data after the end. -/
theorem ingest_of_delivery_interrupted :
    let o := ingest (Alphabet.ofString "aé") 2 Growable.empty
      ⟨[.data [0x61, 0xC3], .fail (.plain .interrupted), .data [0xA9, 0xFF, 0x78],
        .data [], .data [0x61]], 0⟩
    (∃ discarded skipped, o.result = .ok ⟨5, 2, discarded, skipped⟩ ∧
      2 + discarded = 3 ∧ skipped + 4 = 5) ∧
    Tape.read o.tape 1 = .ofChar 'é' ∧ Tape.read o.tape 2 = .blank ∧
    o.source.events = [.data [0x61]] := by
  have decoded : (Decoder.fresh.feed [0x61, 0xC3, 0xA9, 0xFF, 0x78]).1 = ['a', 'é', 'x'] :=
    by decide +kernel
  have written : accepted (Alphabet.ofString "aé") ['a', 'é', 'x'] =
      [.ofChar 'a', .ofChar 'é'] := by decide
  have h := @ingest_of_delivery Growable _ _ (Alphabet.ofString "aé") 2 .empty
    [.data [0x61, 0xC3], .fail (.plain .interrupted), .data [0xA9, 0xFF, 0x78]]
    [.data [], .data [0x61]] 0 (by decide) (by decide)
    (by simp [Source.Event.Delivers, IoError.isInterrupted]) (by simp [Source.Ends])
    (Growable.writable _ (by decide +kernel))
  simp only [Source.delivered, List.flatMap_cons, List.flatMap_nil, Source.Event.bytes,
    List.cons_append, List.nil_append, decoded, written] at h
  obtain ⟨result, inside, outside, -, -, rest⟩ := h
  refine ⟨result, (Option.some.inj (inside 1 1 (by decide) (by decide))).symm, ?_, rest⟩
  rw [outside 2 (by decide)]
  rfl

end Ingestion

end TapeMachine
