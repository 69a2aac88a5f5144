import TapeMachine.Proofs.Ingestion.Delivery
import TapeMachine.Proofs.Tape.Room

namespace TapeMachine

namespace Source

/-- All that a reader delivers before its stream ends or breaks. -/
def stream : List Event → List UInt8
  | [] => []
  | .data [] :: _ => []
  | .data (b :: bytes) :: events => b :: bytes ++ stream events
  | .fail e :: events => if e.isInterrupted then stream events else []

/-- The next read finds the end of the stream, or an error that ends the reading. -/
def Stops (events : List Event) : Prop :=
  Ends events ∨ ∃ i left, events = .fail i :: left ∧ i.isInterrupted = false

theorem stream_of_stops {events : List Event} (stops : Stops events) : stream events = [] := by
  obtain ends | ⟨i, left, rfl, fatal⟩ := stops
  · cases events with
    | nil => rfl
    | cons e events =>
      obtain rfl := ends e rfl
      rfl
  · simp [stream, fatal]

theorem stream_append {deliveries rest : List Event} (delivers : ∀ e ∈ deliveries, e.Delivers)
    (stops : Stops rest) : stream (deliveries ++ rest) = delivered deliveries := by
  induction deliveries with
  | nil => exact stream_of_stops stops
  | cons e deliveries ih =>
    have he := delivers e List.mem_cons_self
    have later := ih fun d hd => delivers d (List.mem_cons_of_mem e hd)
    cases e with
    | data bytes =>
      obtain ⟨b, bytes, rfl⟩ := List.exists_cons_of_ne_nil he
      rw [List.cons_append, stream, later]
      rfl
    | fail i =>
      have interrupted : i.isInterrupted := he
      rw [List.cons_append, stream, if_pos interrupted, later]
      rfl

end Source

namespace Ingestion

variable {T : Type} [Tape T] {a : Alphabet} {chunkSize : UInt64} {t : T}

variable [LawfulTape T]

theorem ingest_of_overfull (positive : 0 < chunkSize) (bound : chunkSize.toNat < 2 ^ 63)
    {room : Nat} (extent : Tape.Room t room) {deliveries : List Source.Event}
    (delivers : ∀ e ∈ deliveries, e.Delivers)
    (more : room < (symbols a (Source.delivered deliveries)).length) (rest : List Source.Event)
    (reads : Nat) :
    ∃ f u left, ingest a chunkSize t ⟨deliveries ++ rest, reads⟩ = ⟨.error (.fault f), u, left⟩ := by
  obtain ⟨f, -, overfull⟩ := extent.place_of_lt more
  obtain ⟨g, u, left, -, he⟩ | ⟨r, u, reads', accepted, -⟩ :=
    ingest_delivered positive bound t rest delivers reads
  · exact ⟨g, u, left, he⟩
  · cases overfull.symm.trans accepted

end Ingestion

open Utf8

namespace Source

/-- The error that ends the reading, unless the stream ends before. -/
def breakage? : List Event → Option IoError
  | [] => none
  | .data [] :: _ => none
  | .data (_ :: _) :: events => breakage? events
  | .fail e :: events => if e.isInterrupted then breakage? events else some e

theorem breakage?_append {deliveries : List Event} (delivers : ∀ e ∈ deliveries, e.Delivers)
    (rest : List Event) : breakage? (deliveries ++ rest) = breakage? rest := by
  induction deliveries with
  | nil => rfl
  | cons e deliveries ih =>
    have he := delivers e List.mem_cons_self
    have later := ih fun d hd => delivers d (List.mem_cons_of_mem e hd)
    cases e with
    | data bytes =>
      obtain ⟨b, bytes, rfl⟩ := List.exists_cons_of_ne_nil he
      exact later
    | fail i =>
      have interrupted : i.isInterrupted := he
      rw [List.cons_append, breakage?, if_pos interrupted, later]

theorem breakage?_of_ends {events : List Event} (ends : Ends events) : breakage? events = none := by
  cases events with
  | nil => rfl
  | cons e events =>
    have he := ends e rfl
    subst e
    rfl

theorem breakage?_of_fatal {i : IoError} (fatal : i.isInterrupted = false) (rest : List Event) :
    breakage? (.fail i :: rest) = some i := by
  simp [breakage?, fatal]

end Source

namespace Ingestion

theorem accepted_feed_fresh (a : Alphabet) (bytes : List UInt8) :
    accepted a (Decoder.fresh.feed bytes).1 = symbols a bytes := by
  rw [Decoder.feed_fresh, symbols]

theorem symbols_mono (a : Alphabet) {bytes stream : List UInt8} (h : bytes <+: stream) :
    symbols a bytes <+: symbols a stream := by
  obtain ⟨rest, rfl⟩ := h
  exact ⟨_, (symbols_append a bytes rest).symm⟩

variable {T : Type} [Tape T] [LawfulTape T] {a : Alphabet} {chunkSize : UInt64} {t : T} {room : Nat}

/-- Once the bytes read hold more symbols than there is room for, it is decided how the ingestion
ends and what it leaves on the tape. -/
theorem ingest_of_more (positive : 0 < chunkSize) (bound : chunkSize.toNat < 2 ^ 63)
    (extent : Tape.Room t room) {bytes : List UInt8} {source : Source}
    (read : bytes <+: Source.stream source.events) (more : room < (symbols a bytes).length) :
    ∃ f left, Tape.refusal? t (Int64.ofNat room) = some f ∧
      ingest a chunkSize t source =
        ⟨.error (.fault f), (Tape.place t 0 ((symbols a bytes).take room)).2, left⟩ := by
  obtain ⟨events, reads⟩ := source
  obtain ⟨deliveries, rest, rfl, delivers, stops⟩ := Source.exists_deliveries events
  have stream := Source.stream_append delivers stops
  rw [stream] at read
  obtain ⟨later, hlater⟩ := symbols_mono a read
  have longer : (symbols a (Source.delivered deliveries)).length =
      (symbols a bytes).length + later.length := by
    rw [← hlater, List.length_append]
  have same : (symbols a (Source.delivered deliveries)).take room = (symbols a bytes).take room := by
    rw [← hlater]
    exact List.take_append_of_le_length (Nat.le_of_lt more)
  have more' : room < (symbols a (Source.delivered deliveries)).length := by omega
  obtain ⟨f, refused, overfull⟩ := extent.place_of_lt more'
  rw [same] at overfull
  rcases ingest_delivered positive bound t rest delivers reads with
    ⟨g, u, left, hplace, he⟩ | ⟨r, u, reads', hplace, -⟩
  · have outcome := hplace.symm.trans overfull
    cases outcome
    exact ⟨f, left, refused, he⟩
  · cases hplace.symm.trans overfull

theorem ingest_of_room (positive : 0 < chunkSize) (bound : chunkSize.toNat < 2 ^ 63)
    (writable : Tape.Writable t room) {source : Source}
    (fits : (symbols a (Source.stream source.events)).length ≤ room) :
    let written := symbols a (Source.stream source.events)
    let o := ingest a chunkSize t source
    o.tape = (Tape.place t 0 written).2 ∧
      (Source.breakage? source.events = none →
        ∃ summary, o.result = .ok summary ∧ summary.symbolsWritten = written.length) ∧
      ∀ i, Source.breakage? source.events = some i → o.result = .error (.error (.input i)) := by
  intro written o
  obtain ⟨events, reads⟩ := source
  obtain ⟨deliveries, rest, rfl, delivers, stops⟩ := Source.exists_deliveries events
  have stream := Source.stream_append delivers stops
  have broken := Source.breakage?_append delivers rest
  have hwritten : written = symbols a (Source.delivered deliveries) := congrArg (symbols a) stream
  change written.length ≤ room at fits
  have enough : 0 + written.length ≤ room := by omega
  have placed := Tape.place_of_writable writable enough
  have small : written.length < 2 ^ 64 := by
    have := writable.le
    omega
  simp only [broken]
  rw [hwritten] at placed small
  rcases stops with ends | ⟨i, left, rfl, fatal⟩
  · obtain ⟨reads', he⟩ := ingest_ended positive bound delivers ends reads placed
    have unbroken := Source.breakage?_of_ends ends
    have ho : o = _ := he
    rw [unbroken, ho, hwritten]
    refine ⟨rfl, fun _ => ⟨_, rfl, ?_⟩, fun i h => by simp at h⟩
    rw [close_reached a small]
  · obtain ⟨reads', he⟩ := ingest_broken positive bound delivers fatal reads placed
    have ho : o = _ := he
    rw [Source.breakage?_of_fatal fatal, ho, hwritten]
    refine ⟨rfl, fun h => by simp at h, fun j h => ?_⟩
    cases h
    rfl

theorem reads_of_place (writable : Tape.Writable t room) {written : List Symbol}
    (fits : written.length ≤ room) :
    (∀ (p : Position) (k : Nat), p.toInt = k → k < written.length →
      written[k]? = some (Tape.read (Tape.place t 0 written).2 p)) ∧
    ∀ p : Position, p.toInt < 0 ∨ written.length ≤ p.toInt →
      Tape.read (Tape.place t 0 written).2 p = Tape.read t p := by
  have enough : Tape.Writable t written.length := fun i hi => writable i (by omega)
  exact ⟨fun p k hk lt => Tape.read_place_inside enough hk lt,
    fun p outside => Tape.read_place_outside enough outside⟩

theorem ingest_of_overrun {t : Reserved} (small : t.capacity < 2 ^ 63) (positive : 0 < chunkSize)
    (bound : chunkSize.toNat < 2 ^ 63) {bytes : List UInt8} {source : Source}
    (read : bytes <+: Source.stream source.events)
    (more : t.capacity - t.capacity / 2 < (symbols a bytes).length) :
    let room := t.capacity - t.capacity / 2
    ∃ left, ingest a chunkSize t source =
      ⟨.error (.fault (.outside (Int64.ofNat room) t.capacity)),
        (Tape.place t 0 ((symbols a bytes).take room)).2, left⟩ := by
  intro room
  obtain ⟨f, left, refused, he⟩ :=
    ingest_of_more positive bound (Reserved.room small) read more
  have hf : f = .outside (Int64.ofNat room) t.capacity :=
    Option.some.inj (refused.symm.trans (Reserved.refusal_room small))
  subst f
  exact ⟨left, he⟩

theorem faults_iff {t : Reserved} (small : t.capacity < 2 ^ 63) (positive : 0 < chunkSize)
    (bound : chunkSize.toNat < 2 ^ 63) (source : Source) :
    (∃ f, (ingest a chunkSize t source).result = .error (.fault f)) ↔
      t.capacity - t.capacity / 2 < (symbols a (Source.stream source.events)).length := by
  constructor
  · rintro ⟨f, faulted⟩
    apply Nat.lt_of_not_le
    intro fits
    obtain ⟨-, ended, broken⟩ := ingest_of_room positive bound (Reserved.room small).writable fits
    cases hb : Source.breakage? source.events with
    | none =>
      obtain ⟨summary, ok, -⟩ := ended hb
      cases ok.symm.trans faulted
    | some i => cases (broken i hb).symm.trans faulted
  · intro more
    obtain ⟨left, he⟩ := ingest_of_overrun small positive bound (List.prefix_refl _) more
    exact ⟨_, congrArg Outcome.result he⟩

/-- Symbols overrun a reservation exactly if they are more than the cells from the origin on. The
write that is refused is the one right after the last cell; all cells before it have been written,
and no other. If the symbols fit, all of them are written and only the source can fail. What comes
after the symbol that is refused is of no account, so sources that agree up to it have the same
outcome. -/
theorem overrun_iff_more_than_room {t : Reserved} (small : t.capacity < 2 ^ 63) (a : Alphabet)
    {chunkSize : UInt64} (positive : 0 < chunkSize) (bound : chunkSize.toNat < 2 ^ 63)
    (source : Source) :
    let room := t.capacity - t.capacity / 2
    let written := accepted a (Decoder.fresh.feed (Source.stream source.events)).1
    let o := ingest a chunkSize t source
    ((∃ f, o.result = .error (.fault f)) ↔ room < written.length) ∧
    (room < written.length →
      (∃ p : Position, p.toInt = room ∧ o.result = .error (.fault (.outside p t.capacity))) ∧
      (∀ (p : Position) (k : Nat), p.toInt = k → k < room →
        written[k]? = some (Tape.read o.tape p)) ∧
      (∀ p : Position, p.toInt < 0 → Tape.read o.tape p = Tape.read t p)) ∧
    (written.length ≤ room →
      (Source.breakage? source.events = none →
        ∃ summary, o.result = .ok summary ∧ summary.symbolsWritten = written.length) ∧
      (∀ i, Source.breakage? source.events = some i → o.result = .error (.error (.input i))) ∧
      (∀ (p : Position) (k : Nat), p.toInt = k → k < written.length →
        written[k]? = some (Tape.read o.tape p)) ∧
      (∀ p : Position, p.toInt < 0 ∨ written.length ≤ p.toInt →
        Tape.read o.tape p = Tape.read t p)) ∧
    ∀ (bytes : List UInt8) (chunkSize' : UInt64) (source' : Source),
      bytes <+: Source.stream source.events → bytes <+: Source.stream source'.events →
      room < (accepted a (Decoder.fresh.feed bytes).1).length →
      0 < chunkSize' → chunkSize'.toNat < 2 ^ 63 →
      let o' := ingest a chunkSize' t source'
      o'.result = o.result ∧ o'.tape = o.tape := by
  simp -zeta only [accepted_feed_fresh]
  intro room written o
  have extent := Reserved.room small
  have last : (Int64.ofNat room).toInt = room := Int64.toInt_ofNat_of_lt (by omega)
  refine ⟨faults_iff small positive bound source, ?_, ?_, ?_⟩
  · intro more
    obtain ⟨left, he⟩ := ingest_of_overrun small positive bound (List.prefix_refl _) more
    have ho : o = _ := he
    have hlength : (written.take room).length = room := by
      rw [List.length_take]
      omega
    obtain ⟨inside, outside⟩ := reads_of_place extent.writable (Nat.le_of_eq hlength)
    rw [ho]
    refine ⟨⟨_, last, rfl⟩, ?_, fun p left => outside p (Or.inl left)⟩
    intro p k hk lt
    have shown := inside p k hk (by omega)
    rwa [List.getElem?_take_of_lt lt] at shown
  · intro fits
    obtain ⟨htape, ended, broken⟩ := ingest_of_room positive bound extent.writable fits
    have ho : o.tape = _ := htape
    rw [ho]
    exact ⟨ended, broken, reads_of_place extent.writable fits⟩
  · intro bytes chunkSize' source' read read' more positive' bound' o'
    obtain ⟨left, he⟩ := ingest_of_overrun small positive bound read more
    obtain ⟨left', he'⟩ := ingest_of_overrun small positive' bound' read' more
    have ho : o = _ := he
    have ho' : o' = _ := he'
    rw [ho, ho']
    exact ⟨rfl, rfl⟩

/-- Three cells, of which two are from the origin on, and one in use left of it. The third symbol
overruns them in the middle of a read; the pipe would have broken after that. Another source that
delivers the same three symbols at once, and more, comes to the same end. -/
theorem overrun_iff_more_than_room_three_cells :
    let t : Reserved := Reserved.set { capacity := 3 } (-1) (.ofChar 'z')
    let a : Alphabet := Alphabet.ofString "aé"
    let source : Source := ⟨[.data [0x61, 0xC3], .fail (.plain .interrupted),
      .data [0xA9, 0x78, 0x61, 0x61], .fail (.plain .brokenPipe)], 0⟩
    let source' : Source := ⟨[.data [0x61, 0xC3, 0xA9, 0x78, 0x61, 0xC3, 0xA9]], 0⟩
    let o := ingest a 3 t source
    let o' := ingest a 8192 t source'
    t.capacity < 2 ^ 63 ∧ (0 : UInt64) < 3 ∧ (3 : UInt64).toNat < 2 ^ 63 ∧
    (accepted a (Decoder.fresh.feed (Source.stream source.events)).1).length = 4 ∧
    o.result = .error (.fault (.outside 2 3)) ∧
    Tape.read o.tape 0 = .ofChar 'a' ∧ Tape.read o.tape 1 = .ofChar 'é' ∧
    Tape.read o.tape (-1) = .ofChar 'z' ∧
    o'.result = o.result ∧ o'.tape = o.tape := by
  intro t a source source' o o'
  have capacity : t.capacity = 3 := Reserved.capacity_set _ _ _
  have decoded : (Decoder.fresh.feed (Source.stream source.events)).1 =
      ['a', 'é', 'x', 'a', 'a'] := by decide +kernel
  have written : accepted a ['a', 'é', 'x', 'a', 'a'] =
      [.ofChar 'a', .ofChar 'é', .ofChar 'a', .ofChar 'a'] := by decide
  have decoded' : (Decoder.fresh.feed [0x61, 0xC3, 0xA9, 0x78, 0x61]).1 =
      ['a', 'é', 'x', 'a'] := by decide +kernel
  have small : t.capacity < 2 ^ 63 := by
    rw [capacity]
    decide
  obtain ⟨-, overrun, -, alike⟩ :=
    overrun_iff_more_than_room small a (show (0 : UInt64) < 3 by decide) (by decide) source
  rw [decoded, written, capacity] at overrun
  obtain ⟨⟨p, hp, result⟩, inside, outside⟩ := overrun (by decide)
  have two : p = 2 := Int64.toInt_inj.mp hp
  subst p
  have same := alike [0x61, 0xC3, 0xA9, 0x78, 0x61] 8192 source' (by decide) (by decide)
    (by rw [decoded', capacity]; decide) (by decide) (by decide)
  refine ⟨small, by decide, by decide, by rw [decoded, written]; rfl, result, ?_, ?_, ?_,
    same.1, same.2⟩
  · exact (Option.some.inj (inside 0 0 (by decide) (by decide))).symm
  · exact (Option.some.inj (inside 1 1 (by decide) (by decide))).symm
  · exact (outside (-1) (by decide)).trans (by decide +kernel)

end Ingestion

end TapeMachine
