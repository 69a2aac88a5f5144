import TapeMachine.Proofs.Utf8.Pass

namespace TapeMachine.Utf8

/-- A step that begins before the carried bytes end decides the same with the whole piece behind
it, since the window is either long enough or already has the whole piece. -/
theorem step_window {window more : List UInt8} {carried pos : Nat}
    (enough : more = [] ∨ carried + 3 ≤ window.length) (h : pos < carried) :
    step (window.drop pos ++ more) = step (window.drop pos) := by
  rcases enough with rfl | enough
  · rw [List.append_nil]
  · apply step_append
    intro hw
    have := length_le_three_of_step hw
    rw [List.length_drop] at this
    omega

theorem stitch_none {window more : List UInt8} {carried pos : Nat} {found : Scan}
    (enough : more = [] ∨ carried + 3 ≤ window.length) (bound : carried ≤ window.length)
    (h : stitch window carried pos = (found, none)) :
    scan (window.drop pos ++ more) = found := by
  fun_induction stitch window carried pos generalizing found with
  | case1 pos lt c n hs _ found' stop he ih =>
    obtain ⟨rfl, rfl⟩ := Prod.mk.inj h
    have hn := size_le_length_of_step hs
    rw [scan_of_pass ((step_window enough lt).trans hs), List.drop_append_of_le_length hn,
      List.drop_drop, ih he]
  | case2 pos lt hs found' stop he ih =>
    obtain ⟨rfl, rfl⟩ := Prod.mk.inj h
    have hn : 1 ≤ (window.drop pos).length := by rw [List.length_drop]; omega
    rw [scan_of_skip ((step_window enough lt).trans hs), List.drop_append_of_le_length hn,
      List.drop_drop, ih he]
  | case3 pos lt hs =>
    obtain ⟨rfl, -⟩ := Prod.mk.inj h
    have short := length_le_three_of_step hs
    rw [List.length_drop] at short
    have hmore : more = [] := by
      rcases enough with rfl | enough
      · rfl
      · omega
    subst more
    rw [List.append_nil, scan_of_wait hs]
  | case4 pos ge => simp at h

theorem stitch_some {window more : List UInt8} {carried pos stop : Nat} {found : Scan}
    (enough : more = [] ∨ carried + 3 ≤ window.length) (bound : pos ≤ window.length)
    (room : carried ≤ window.length) (h : stitch window carried pos = (found, some stop)) :
    carried ≤ stop ∧ stop ≤ window.length ∧
      scan (window.drop pos ++ more) = found.andThen (scan (window.drop stop ++ more)) := by
  fun_induction stitch window carried pos generalizing found with
  | case1 pos lt c n hs _ found' stop' he ih =>
    obtain ⟨rfl, rfl⟩ := Prod.mk.inj h
    have hn := size_le_length_of_step hs
    have hpos : pos + n ≤ window.length := by rw [List.length_drop] at hn; omega
    obtain ⟨ge, le, eq⟩ := ih hpos he
    refine ⟨ge, le, ?_⟩
    rw [scan_of_pass ((step_window enough lt).trans hs), List.drop_append_of_le_length hn,
      List.drop_drop, eq, Scan.pass_andThen]
  | case2 pos lt hs found' stop' he ih =>
    obtain ⟨rfl, rfl⟩ := Prod.mk.inj h
    have hn : 1 ≤ (window.drop pos).length := by rw [List.length_drop]; omega
    obtain ⟨ge, le, eq⟩ := ih (by omega) he
    refine ⟨ge, le, ?_⟩
    rw [scan_of_skip ((step_window enough lt).trans hs), List.drop_append_of_le_length hn,
      List.drop_drop, eq, Scan.skip_andThen]
  | case3 pos lt hs => simp at h
  | case4 pos ge =>
    obtain ⟨rfl, hstop⟩ := Prod.mk.inj h
    cases Option.some.inj hstop
    exact ⟨by omega, bound, (Scan.andThen_of_wait [] (by decide) _).symm⟩

namespace Decoder

theorem window_append_drop (d : Decoder) (chunk : List UInt8) :
    d.window chunk ++ chunk.drop borrowed = d.pending ++ chunk := by
  rw [window, List.append_assoc, List.take_append_drop]

theorem window_enough (d : Decoder) (chunk : List UInt8) :
    chunk.drop borrowed = [] ∨ d.pending.length + 3 ≤ (d.window chunk).length := by
  rcases Nat.lt_or_ge borrowed chunk.length with long | short
  · right
    simp only [window, List.length_append, List.length_take]
    unfold borrowed at *
    omega
  · exact Or.inl (List.drop_eq_nil_of_le short)

theorem pending_le_window (d : Decoder) (chunk : List UInt8) :
    d.pending.length ≤ (d.window chunk).length := by
  simp [window]

theorem feed_eq (d : Decoder) (chunk : List UInt8) :
    d.feed chunk = ((scan (d.pending ++ chunk)).scalars, d.keep (scan (d.pending ++ chunk))) := by
  have enough := d.window_enough chunk
  have room := d.pending_le_window chunk
  rw [← d.window_append_drop chunk]
  unfold feed
  split
  next found h =>
    have hs := stitch_none enough room h
    rw [List.drop_zero] at hs
    rw [hs]
  next found pos h =>
    obtain ⟨ge, le, hs⟩ := stitch_some enough (Nat.zero_le _) room h
    have hdrop : (d.window chunk).drop pos ++ chunk.drop borrowed =
        chunk.drop (pos - d.pending.length) := by
      rw [← List.drop_append_of_le_length le, d.window_append_drop, List.drop_append,
        List.drop_eq_nil_of_le ge, List.nil_append]
    rw [List.drop_zero, hdrop] at hs
    rw [hs]

inductive Call where
  | feed (chunk : List UInt8)
  | finish
deriving DecidableEq

namespace Call

def isFinish : Call → Bool
  | feed _ => false
  | finish => true

def bytes : Call → List UInt8
  | feed chunk => chunk
  | finish => []

end Call

/-- What is seen of a call: the characters passed on, what the decoder says of itself afterwards,
and what was returned, if anything. -/
structure Sight where
  scalars : List Char
  skipped : Nat
  pending : Bool
  returned : Option Nat
deriving DecidableEq

def call (d : Decoder) : Call → Sight × Decoder
  | .feed chunk =>
    let (scalars, next) := d.feed chunk
    (⟨scalars, next.skipped, next.hasPending, none⟩, next)
  | .finish => (⟨[], d.finish.skipped, d.finish.hasPending, some d.finish.skipped⟩, d.finish)

def after (d : Decoder) (calls : List Call) : Decoder :=
  calls.foldl (fun d c => (d.call c).2) d

def sights (d : Decoder) : List Call → List Sight
  | [] => []
  | c :: calls => (d.call c).1 :: (d.call c).2.sights calls

/-- What is seen of a stream as a whole: the characters it gave, the bytes skipped so far and
whether any are pending after its last piece, and, if it was ended, the total returned and whether
anything was pending even then. -/
structure Record where
  scalars : List Char
  skipped : Nat
  pending : Bool
  ended : Option (Nat × Bool)
deriving DecidableEq

/-- The records of the streams that some calls make up; the first has given `scalars` already. -/
def records (d : Decoder) (scalars : List Char) : List Call → List Record
  | [] => [⟨scalars, d.skipped, d.hasPending, none⟩]
  | .feed chunk :: calls =>
    let (more, next) := d.feed chunk
    next.records (scalars ++ more) calls
  | .finish :: calls =>
    ⟨scalars, d.skipped, d.hasPending, some (d.finish.skipped, d.finish.hasPending)⟩ ::
      d.finish.records [] calls

/-- The streams that some calls make up, each in one piece. The last one has not ended. -/
def streams (calls : List Call) : List (List UInt8) :=
  (calls.splitOnP Call.isFinish).map fun stream => stream.flatMap Call.bytes

/-- The records of streams that are each given to a fresh decoder in one piece, `total` bytes
having been skipped in streams before. -/
def wholeRecords (total : Nat) : List (List UInt8) → List Record
  | [] => []
  | stream :: streams =>
    let (scalars, d) := fresh.feed stream
    let returned := total + d.skipped + d.pending.length
    ⟨scalars, total + d.skipped, d.hasPending,
      if streams.isEmpty then none else some (returned, false)⟩ :: wholeRecords returned streams

def begun (total : Nat) (bytes : List UInt8) : Decoder :=
  (idle total).keep (scan bytes)

theorem scan_nil : scan [] = {} := scan_of_wait rfl

theorem begun_nil (total : Nat) : begun total [] = idle total := by
  rw [begun, scan_nil]
  rfl

theorem begun_zero : begun 0 [] = fresh := begun_nil 0

theorem feed_begun (total : Nat) (bytes chunk : List UInt8) :
    (begun total bytes).feed chunk =
      ((scan ((scan bytes).pending ++ chunk)).scalars, begun total (bytes ++ chunk)) := by
  rw [feed_eq, begun, begun, scan_append bytes chunk]
  have skipped := Nat.add_assoc total (scan bytes).skipped
    (scan ((scan bytes).pending ++ chunk)).skipped
  exact Prod.ext rfl (Decoder.ext rfl skipped)

theorem feed_fresh (bytes : List UInt8) :
    fresh.feed bytes = ((scan bytes).scalars, begun 0 bytes) := by
  rw [← begun_zero, feed_begun, scan_nil]
  rfl

theorem finish_begun (total : Nat) (bytes : List UInt8) :
    (begun total bytes).finish =
      begun (total + (scan bytes).skipped + (scan bytes).pending.length) [] := by
  rw [begun_nil]
  rfl

theorem streams_feed (chunk : List UInt8) (calls : List Call) :
    streams (.feed chunk :: calls) = (streams calls).modifyHead (chunk ++ ·) := by
  rw [streams, List.splitOnP_cons_eq_if_modifyHead]
  cases h : calls.splitOnP Call.isFinish with
  | nil => exact absurd h (List.splitOnP_ne_nil _ _)
  | cons stream rest => simp [streams, h, Call.isFinish, Call.bytes]

theorem streams_finish (calls : List Call) : streams (.finish :: calls) = [] :: streams calls := by
  simp [streams, List.splitOnP_cons_eq_if_modifyHead, Call.isFinish]

theorem streams_ne_nil (calls : List Call) : streams calls ≠ [] := by
  simp [streams]

theorem wholeRecords_cons (total : Nat) (stream : List UInt8) (streams : List (List UInt8)) :
    wholeRecords total (stream :: streams) =
      ⟨(scan stream).scalars, (begun total stream).skipped, (begun total stream).hasPending,
        if streams.isEmpty then none else some ((begun total stream).finish.skipped, false)⟩ ::
      wholeRecords (begun total stream).finish.skipped streams := by
  rw [wholeRecords, feed_fresh]
  simp [begun, idle, keep, hasPending, finish]

theorem modifyHead_nil_append (streams : List (List UInt8)) :
    streams.modifyHead ([] ++ ·) = streams := by
  cases streams <;> rfl

theorem records_begun (calls : List Call) (total : Nat) (bytes : List UInt8) :
    (begun total bytes).records (scan bytes).scalars calls =
      wholeRecords total ((streams calls).modifyHead (bytes ++ ·)) := by
  induction calls generalizing total bytes with
  | nil => simp [streams, records, wholeRecords_cons, wholeRecords]
  | cons c calls ih =>
    cases c with
    | feed chunk =>
      have scalars : (scan (bytes ++ chunk)).scalars =
          (scan bytes).scalars ++ (scan ((scan bytes).pending ++ chunk)).scalars := by
        rw [scan_append]
        rfl
      rw [records, feed_begun, streams_feed, List.modifyHead_modifyHead]
      simp only
      rw [← scalars, ih]
      simp only [Function.comp_def, List.append_assoc]
    | finish =>
      have hs := ih (begun total bytes).finish.skipped []
      have he : (streams calls).isEmpty = false := by simp [streams_ne_nil]
      rw [begun_nil, scan_nil, modifyHead_nil_append] at hs
      rw [records, streams_finish, List.modifyHead_cons, List.append_nil, wholeRecords_cons, he]
      exact congrArg _ hs

theorem after_begun (calls : List Call) (total : Nat) (bytes : List UInt8) :
    ∃ total' bytes', (begun total bytes).after calls = begun total' bytes' := by
  induction calls generalizing total bytes with
  | nil => exact ⟨total, bytes, rfl⟩
  | cons c calls ih =>
    cases c with
    | feed chunk =>
      obtain ⟨total', bytes', h⟩ := ih total (bytes ++ chunk)
      refine ⟨total', bytes', ?_⟩
      rw [← h, after, List.foldl_cons, call, feed_begun, after]
    | finish =>
      obtain ⟨total', bytes', h⟩ :=
        ih (total + (scan bytes).skipped + (scan bytes).pending.length) []
      refine ⟨total', bytes', ?_⟩
      rw [← h, after, List.foldl_cons, call, finish_begun, after]

theorem after_feeds (chunks : List (List UInt8)) (total : Nat) (bytes : List UInt8) :
    (begun total bytes).after (chunks.map .feed) = begun total (bytes ++ chunks.flatten) := by
  induction chunks generalizing bytes with
  | nil => simp [after]
  | cons chunk chunks ih =>
    rw [List.flatten_cons, ← List.append_assoc, ← ih, after, List.map_cons, List.foldl_cons, call,
      feed_begun, after]

theorem sights_feeds (chunks : List (List UInt8)) (total : Nat) (bytes : List UInt8) :
    (scan bytes).scalars ++ ((begun total bytes).sights (chunks.map .feed)).flatMap Sight.scalars =
      (scan (bytes ++ chunks.flatten)).scalars := by
  induction chunks generalizing bytes with
  | nil => simp [sights]
  | cons chunk chunks ih =>
    rw [List.flatten_cons, ← List.append_assoc, ← ih, scan_append bytes chunk]
    simp [sights, call, feed_begun, Scan.andThen]

/-- However the streams of a series of calls are cut into pieces, each stream gives what a fresh
decoder gives for it in one piece, and no later call can tell two ways of cutting it apart. -/
theorem cutting_unobservable :
    (∀ calls, fresh.records [] calls = wholeRecords 0 (streams calls)) ∧
      ∀ (before : List Call) (chunks chunks' : List (List UInt8)),
        chunks.flatten = chunks'.flatten →
        let d := fresh.after before
        (d.sights (chunks.map .feed)).flatMap Sight.scalars =
            (d.sights (chunks'.map .feed)).flatMap Sight.scalars ∧
          ∀ later, (d.after (chunks.map .feed)).sights later =
            (d.after (chunks'.map .feed)).sights later := by
  constructor
  · intro calls
    have hr := records_begun calls 0 []
    rwa [begun_zero, scan_nil, modifyHead_nil_append] at hr
  · intro before chunks chunks' h
    obtain ⟨total, bytes, hd⟩ := after_begun before 0 []
    rw [begun_zero] at hd
    have whole := sights_feeds chunks total bytes
    have whole' := sights_feeds chunks' total bytes
    rw [← h] at whole'
    simp only [hd]
    constructor
    · exact List.append_cancel_left (whole.trans whole'.symm)
    · intro later
      rw [after_feeds, after_feeds, h]

/-- Two ways of cutting a euro sign and the first byte of a longer sequence. -/
theorem cutting_unobservable_euro :
    let d := fresh.after [.feed [0x41], .finish]
    let cut := [[0xE2], [], [0x82, 0xAC, 0xF0]]
    let cut' := [[0xE2, 0x82], [0xAC], [0xF0]]
    (d.sights (cut.map .feed)).flatMap Sight.scalars = ['€'] ∧
      (d.sights (cut'.map .feed)).flatMap Sight.scalars = ['€'] ∧
      ∀ later, (d.after (cut.map .feed)).sights later = (d.after (cut'.map .feed)).sights later := by
  intro d cut cut'
  have whole : (d.sights (cut.map .feed)).flatMap Sight.scalars = ['€'] := by decide +kernel
  have h := cutting_unobservable.2 [.feed [0x41], .finish] cut cut' rfl
  exact ⟨whole, h.1.symm.trans whole, h.2⟩

end Decoder

end TapeMachine.Utf8
