import TapeMachine.Stream

namespace TapeMachine.Sink

/-- How a sink that never fails answers a write call. -/
def Event.Harmless : Event → Prop
  | .room size => 0 < size
  | .fail e => e.isInterrupted

/-- A sink that takes something at every call that is not interrupted, and can be flushed. -/
structure Reliable (s : Sink) : Prop where
  burst : s.burst ≠ some 0
  script : ∀ e ∈ s.script, e.Harmless
  flushError : s.flushError = none

theorem Reliable.most_pos {s : Sink} (h : s.Reliable) {n : Nat} (positive : 0 < n) :
    0 < s.most n := by
  have hb := h.burst
  unfold most
  cases hs : s.burst with
  | none => simpa using positive
  | some b =>
    have : b ≠ 0 := by
      rintro rfl
      exact hb hs
    simp only [Option.getD_some, Nat.lt_min]
    omega

theorem Reliable.accept {s : Sink} (h : s.Reliable) {script : List Event}
    (harmless : ∀ e ∈ script, e.Harmless) (n : Nat) (bytes : List UInt8) :
    (s.accept script n bytes).Reliable :=
  ⟨h.burst, harmless, h.flushError⟩

theorem Reliable.write {s : Sink} (h : s.Reliable) {bytes : List UInt8} (nonempty : bytes ≠ []) :
    ∃ t : Sink, t.Reliable ∧
      ((∃ e, s.write bytes = (.error e, t) ∧ e.isInterrupted ∧ t.accepted = s.accepted) ∨
      ∃ n, s.write bytes = (.ok (n + 1), t) ∧
        t.accepted = s.accepted ++ bytes.take (n + 1)) := by
  have hmost := h.most_pos (List.length_pos_iff.mpr nonempty)
  obtain ⟨m, hm⟩ := Nat.exists_eq_add_one.mpr hmost
  rw [Sink.write, if_neg (by omega), hm]
  cases hs : s.script with
  | nil => exact ⟨_, h.accept (by simp) _ _, Or.inr ⟨m, rfl, rfl⟩⟩
  | cons e script =>
    have harmless := h.script
    rw [hs] at harmless
    have he := harmless e List.mem_cons_self
    have hrest : ∀ d ∈ script, d.Harmless := fun d hd => harmless d (List.mem_cons_of_mem e hd)
    cases e with
    | fail i =>
      exact ⟨{ s with script, writes := s.writes + 1 }, ⟨h.burst, hrest, h.flushError⟩,
        Or.inl ⟨i, rfl, he, rfl⟩⟩
    | room size =>
      obtain ⟨n, rfl⟩ := Nat.exists_eq_add_one.mpr he
      by_cases hlt : m + 1 < n + 1
      · refine ⟨_, h.accept ?_ _ _, Or.inr ⟨m, if_pos hlt, rfl⟩⟩
        rintro d (_ | ⟨_, hd⟩)
        · exact Nat.sub_pos_of_lt hlt
        · exact hrest d hd
      · exact ⟨_, h.accept hrest _ _, Or.inr ⟨n, if_neg hlt, rfl⟩⟩

theorem Reliable.writeAll {s : Sink} (h : s.Reliable) (bytes : List UInt8) :
    ∃ t : Sink, s.writeAll bytes = (.ok (), t) ∧ t.Reliable ∧
      t.accepted.toList = s.accepted.toList ++ bytes := by
  fun_induction Sink.writeAll s bytes with
  | case1 s => exact ⟨s, rfl, h, by simp⟩
  | case2 s b bytes e t hw _ hi ih =>
    obtain ⟨t', ht, ⟨e', hw', -, ha⟩ | ⟨n, hw', -⟩⟩ := h.write (List.cons_ne_nil b bytes)
    · cases hw.symm.trans hw'
      simpa [ha] using ih ht
    · cases hw.symm.trans hw'
  | case3 s b bytes e t hw _ hi =>
    obtain ⟨t', ht, ⟨e', hw', he, -⟩ | ⟨n, hw', -⟩⟩ := h.write (List.cons_ne_nil b bytes)
    · cases hw.symm.trans hw'
      exact absurd he hi
    · cases hw.symm.trans hw'
  | case4 s b bytes t hw =>
    obtain ⟨t', ht, ⟨e', hw', -⟩ | ⟨n, hw', -⟩⟩ := h.write (List.cons_ne_nil b bytes)
    · cases hw.symm.trans hw'
    · cases hw.symm.trans hw'
  | case5 s b bytes n t hw _ ih =>
    obtain ⟨t', ht, ⟨e', hw', -⟩ | ⟨n', hw', ha⟩⟩ := h.write (List.cons_ne_nil b bytes)
    · cases hw.symm.trans hw'
    · cases hw.symm.trans hw'
      obtain ⟨u, hu, hr, hacc⟩ := ih ht
      refine ⟨u, hu, hr, ?_⟩
      rw [hacc, ha, List.take_succ_cons]
      simp

theorem Reliable.flush {s : Sink} (h : s.Reliable) :
    s.flush = (.ok (), { s with flushes := s.flushes + 1 }) := by
  rw [Sink.flush, h.flushError]

structure Took (s t : Sink) (bytes : List UInt8) : Prop where
  accepted : t.accepted.toList = s.accepted.toList ++ bytes
  flushes : t.flushes = s.flushes
  flushError : t.flushError = s.flushError

theorem Took.refl (s : Sink) : Took s s [] := ⟨by simp, rfl, rfl⟩

theorem Took.trans {s t u : Sink} {xs ys : List UInt8} (h : Took s t xs) (k : Took t u ys) :
    Took s u (xs ++ ys) where
  accepted := by rw [k.accepted, h.accepted, List.append_assoc]
  flushes := k.flushes.trans h.flushes
  flushError := k.flushError.trans h.flushError

theorem took_accept (s : Sink) (script : List Event) (n : Nat) (bytes : List UInt8) :
    Took s (s.accept script n bytes) (bytes.take n) :=
  ⟨by simp [accept], rfl, rfl⟩

theorem most_le (s : Sink) (n : Nat) : s.most n ≤ n := Nat.min_le_right _ n

theorem took_of_write_error {s t : Sink} {bytes : List UInt8} {e : IoError}
    (h : s.write bytes = (.error e, t)) : Took s t [] := by
  unfold write at h
  split at h
  next => simp at h
  next =>
    split at h
    next => simp at h
    next =>
      cases h
      exact ⟨by simp, rfl, rfl⟩
    next => split at h <;> simp at h

theorem took_of_write_ok {s t : Sink} {bytes : List UInt8} {n : Nat}
    (h : s.write bytes = (.ok n, t)) : n ≤ bytes.length ∧ Took s t (bytes.take n) := by
  have most := s.most_le bytes.length
  unfold write at h
  split at h
  next =>
    cases h
    exact ⟨Nat.zero_le _, by simp, rfl, rfl⟩
  next =>
    split at h
    next =>
      cases h
      exact ⟨most, took_accept s _ _ bytes⟩
    next => simp at h
    next =>
      split at h
      next =>
        cases h
        exact ⟨most, took_accept s _ _ bytes⟩
      next =>
        cases h
        exact ⟨by omega, took_accept s _ _ bytes⟩

/-- Write calls that go through, and the bytes they took together: each takes a front part of what
it is offered, or is interrupted. -/
inductive Wrote : Sink → Sink → List UInt8 → Prop where
  | done (s : Sink) : Wrote s s []
  | interrupted {s t u : Sink} {offered bytes : List UInt8} {e : IoError}
      (call : s.write offered = (.error e, t)) (again : e.isInterrupted) (rest : Wrote t u bytes) :
      Wrote s u bytes
  | took {s t u : Sink} {offered bytes : List UInt8} {n : Nat}
      (call : s.write offered = (.ok (n + 1), t)) (rest : Wrote t u bytes) :
      Wrote s u (offered.take (n + 1) ++ bytes)

inductive Fails (s : Sink) : List UInt8 → IoError → Sink → Prop where
  | error {offered : List UInt8} {e : IoError} {t : Sink} (nonempty : offered ≠ [])
      (call : s.write offered = (.error e, t)) (final : e.isInterrupted = false) :
      Fails s offered e t
  | zero {offered : List UInt8} {t : Sink} (nonempty : offered ≠ [])
      (call : s.write offered = (.ok 0, t)) : Fails s offered .writeZero t

theorem Wrote.trans {s t u : Sink} {xs ys : List UInt8} (h : Wrote s t xs) (k : Wrote t u ys) :
    Wrote s u (xs ++ ys) := by
  induction h with
  | done => exact k
  | interrupted call again _ ih => exact .interrupted call again (ih k)
  | took call _ ih =>
    rw [List.append_assoc]
    exact .took call (ih k)

theorem Wrote.taken {s t : Sink} {bytes : List UInt8} (h : Wrote s t bytes) : Took s t bytes := by
  induction h with
  | done s => exact .refl s
  | interrupted call _ _ ih => exact (took_of_write_error call).trans ih
  | took call _ ih => exact (took_of_write_ok call).2.trans ih

theorem Fails.nonempty {s t : Sink} {offered : List UInt8} {e : IoError}
    (h : Fails s offered e t) : offered ≠ [] := by
  cases h with
  | error nonempty => exact nonempty
  | zero nonempty => exact nonempty

theorem Fails.taken {s t : Sink} {offered : List UInt8} {e : IoError} (h : Fails s offered e t) :
    Took s t [] := by
  cases h with
  | error _ call => exact took_of_write_error call
  | zero _ call => exact (took_of_write_ok call).2

/-- All calls go through until the bytes are written, or up to one that does not and is the last. -/
theorem writeAll_wrote (s : Sink) (bytes : List UInt8) :
    ∃ front rest mid, bytes = front ++ rest ∧ Wrote s mid front ∧
      ((s.writeAll bytes = (.ok (), mid) ∧ rest = []) ∨
      ∃ e t, mid.Fails rest e t ∧ s.writeAll bytes = (.error e, t)) := by
  fun_induction Sink.writeAll s bytes with
  | case1 s => exact ⟨[], [], s, rfl, .done s, Or.inl ⟨rfl, rfl⟩⟩
  | case2 s b bytes e t call _ again ih =>
    obtain ⟨front, rest, mid, hb, wrote, h⟩ := ih
    exact ⟨front, rest, mid, hb, .interrupted call again wrote, h⟩
  | case3 s b bytes e t call _ final =>
    have nonempty : b :: bytes ≠ [] := List.cons_ne_nil b bytes
    have final : e.isInterrupted = false := Bool.eq_false_iff.mpr final
    exact ⟨[], b :: bytes, s, rfl, .done s, Or.inr ⟨e, t, .error nonempty call final, rfl⟩⟩
  | case4 s b bytes t call =>
    have nonempty : b :: bytes ≠ [] := List.cons_ne_nil b bytes
    exact ⟨[], b :: bytes, s, rfl, .done s, Or.inr ⟨.writeZero, t, .zero nonempty call, rfl⟩⟩
  | case5 s b bytes n t call _ ih =>
    obtain ⟨front, rest, mid, hb, wrote, h⟩ := ih
    refine ⟨(b :: bytes).take (n + 1) ++ front, rest, mid, ?_, .took call wrote, h⟩
    have taken : (b :: bytes).take (n + 1) ++ bytes.drop n = b :: bytes := by
      rw [List.take_succ_cons, List.cons_append, List.take_append_drop]
    rw [List.append_assoc, ← hb, taken]

/-- Writes pieces one after the other, up to one that cannot be written, and then flushes. -/
def deliver (s : Sink) : List (List UInt8) → Except IoError Unit × Sink
  | [] => s.flush
  | piece :: pieces =>
    match s.writeAll piece with
    | (.error e, t) => (.error e, t)
    | (.ok (), t) => t.deliver pieces

def writeEach (s : Sink) : List (List UInt8) → Except IoError Unit × Sink
  | [] => (.ok (), s)
  | piece :: pieces =>
    match s.writeAll piece with
    | (.error e, t) => (.error e, t)
    | (.ok (), t) => t.writeEach pieces

theorem deliver_eq_writeEach (s : Sink) (pieces : List (List UInt8)) :
    s.deliver pieces =
      match s.writeEach pieces with
      | (.error e, t) => (.error e, t)
      | (.ok (), t) => t.flush := by
  induction pieces generalizing s with
  | nil => rfl
  | cons piece pieces ih =>
    rw [deliver, writeEach]
    rcases s.writeAll piece with ⟨e | ⟨⟩, t⟩
    · rfl
    · exact ih t

/-- All calls go through until the pieces are written and the sink is flushed, or up to one that does
not and is the last. -/
theorem deliver_wrote (s : Sink) (pieces : List (List UInt8)) :
    (∃ mid, s.Wrote mid pieces.flatten ∧ s.deliver pieces = mid.flush) ∨
    ∃ mid front offered e t, s.Wrote mid front ∧ front ++ offered <+: pieces.flatten ∧
      mid.Fails offered e t ∧ s.deliver pieces = (.error e, t) := by
  induction pieces generalizing s with
  | nil => exact Or.inl ⟨s, .done s, rfl⟩
  | cons piece pieces ih =>
    rw [deliver, List.flatten_cons]
    obtain ⟨front, rest, mid, hpiece, wrote, ⟨hw, rfl⟩ | ⟨e, t, fails, hw⟩⟩ :=
      s.writeAll_wrote piece
    · rw [List.append_nil] at hpiece
      subst hpiece
      simp only [hw]
      rcases ih mid with ⟨mid', wrote', he⟩ | ⟨mid', front, offered, e, t, wrote', within, fails, he⟩
      · exact Or.inl ⟨mid', wrote.trans wrote', he⟩
      · refine Or.inr ⟨mid', piece ++ front, offered, e, t, wrote.trans wrote', ?_, fails, he⟩
        rw [List.append_assoc]
        exact (List.prefix_append_right_inj piece).mpr within
    · simp only [hw]
      refine Or.inr ⟨mid, front, rest, e, t, wrote, ?_, fails, rfl⟩
      rw [← hpiece]
      exact List.prefix_append piece _

/-- What has become of a text and a sink: the answer `o.1` and the sink `o.2` after the text was
written to the sink `s`, which was flushed if the text had been taken. -/
structure Truncates (text : List UInt8) (s : Sink) (o : Except IoError Unit × Sink) : Prop where
  front : ∃ front, front <+: text ∧ o.2.accepted.toList = s.accepted.toList ++ front
  ok_iff : o.1 = .ok () ↔ o.2.accepted.toList = s.accepted.toList ++ text ∧
    o.2.flushes = s.flushes + 1 ∧ s.flushError = none
  /-- If the sink was flushed it had taken the text, and only the flush can have failed. -/
  flushed : o.2.flushes ≠ s.flushes → o.2.accepted.toList = s.accepted.toList ++ text ∧
    o.2.flushes = s.flushes + 1 ∧ ∃ mid, s.Wrote mid text ∧ o = mid.flush
  /-- If it was not, the last of the calls did not go through, and its error is the answer. -/
  broken : o.2.flushes = s.flushes → ∃ mid front offered e, s.Wrote mid front ∧
    front ++ offered <+: text ∧ o.2.accepted.toList = s.accepted.toList ++ front ∧
    mid.Fails offered e o.2 ∧ o.1 = .error e

theorem accepted_flush (s : Sink) : s.flush.2.accepted = s.accepted := by
  rw [flush]
  split <;> rfl

/-- A sink that never fails takes all pieces. -/
theorem Reliable.writeEach {s : Sink} (h : s.Reliable) (pieces : List (List UInt8)) :
    ∃ t : Sink, s.writeEach pieces = (.ok (), t) ∧ t.Reliable ∧
      t.accepted.toList = s.accepted.toList ++ pieces.flatten := by
  induction pieces generalizing s with
  | nil => exact ⟨s, rfl, h, by simp⟩
  | cons piece pieces ih =>
    obtain ⟨mid, written, still, taken⟩ := h.writeAll piece
    obtain ⟨t, rest, reliable, accepted⟩ := ih still
    refine ⟨t, ?_, reliable, ?_⟩
    · rw [Sink.writeEach, written]
      exact rest
    · rw [accepted, taken, List.flatten_cons, List.append_assoc]

theorem accepted_writeEach (s : Sink) (pieces : List (List UInt8)) :
    (s.writeEach pieces).2.accepted = (s.deliver pieces).2.accepted := by
  rw [deliver_eq_writeEach]
  rcases s.writeEach pieces with ⟨e | ⟨⟩, t⟩
  · rfl
  · exact t.accepted_flush.symm

theorem flushes_flush (s : Sink) : s.flush.2.flushes = s.flushes + 1 := by
  rw [flush]
  split <;> rfl

theorem flush_eq_ok_iff (s : Sink) : s.flush.1 = .ok () ↔ s.flushError = none := by
  rw [flush]
  split
  next h => simp [h]
  next h => simp [h]

theorem truncates_of_wrote {s mid : Sink} {text : List UInt8} (wrote : s.Wrote mid text) :
    Truncates text s mid.flush := by
  have took := wrote.taken
  have accepted : mid.flush.2.accepted.toList = s.accepted.toList ++ text := by
    rw [mid.accepted_flush]
    exact took.accepted
  have flushes : mid.flush.2.flushes = s.flushes + 1 := by
    rw [mid.flushes_flush, took.flushes]
  refine ⟨⟨text, List.prefix_refl text, accepted⟩, ?_, ?_, ?_⟩
  · rw [mid.flush_eq_ok_iff, took.flushError]
    exact ⟨fun h => ⟨accepted, flushes, h⟩, fun h => h.2.2⟩
  · intro _
    exact ⟨accepted, flushes, mid, wrote, rfl⟩
  · intro h
    omega

theorem truncates_of_fails {s mid t : Sink} {text front offered : List UInt8} {e : IoError}
    (wrote : s.Wrote mid front) (within : front ++ offered <+: text) (fails : mid.Fails offered e t) :
    Truncates text s (.error e, t) := by
  have took := wrote.taken.trans fails.taken
  rw [List.append_nil] at took
  have before : front <+: text := (List.prefix_append front offered).trans within
  refine ⟨⟨front, before, took.accepted⟩, ?_, ?_, ?_⟩
  · constructor
    · intro h
      cases h
    · rintro ⟨-, flushes, -⟩
      have := took.flushes
      simp only at flushes
      omega
  · intro h
    exact absurd took.flushes h
  · intro _
    exact ⟨mid, front, offered, e, wrote, within, took.accepted, fails, rfl⟩

theorem truncates_deliver (s : Sink) (pieces : List (List UInt8)) :
    Truncates pieces.flatten s (s.deliver pieces) := by
  rcases s.deliver_wrote pieces with ⟨mid, wrote, he⟩ |
    ⟨mid, front, offered, e, t, wrote, within, fails, he⟩
  · rw [he]
    exact truncates_of_wrote wrote
  · rw [he]
    exact truncates_of_fails wrote within fails

end TapeMachine.Sink
