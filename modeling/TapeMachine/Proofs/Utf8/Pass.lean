import TapeMachine.Utf8.Decoder

namespace TapeMachine.Utf8

theorem Front.rest_append {size follow value : Nat} {low high : UInt8} {bytes : List UInt8}
    (more : List UInt8) (h : Front.rest size follow low high value bytes ≠ .incomplete) :
    Front.rest size follow low high value (bytes ++ more) =
      Front.rest size follow low high value bytes := by
  induction follow generalizing low high value bytes with
  | zero => rfl
  | succ follow ih =>
    cases bytes with
    | nil => exact absurd rfl h
    | cons b bytes =>
      simp only [List.cons_append, Front.rest] at h ⊢
      split
      next hb =>
        rw [if_pos hb] at h
        exact ih h
      next => rfl

theorem front_append {bytes : List UInt8} (more : List UInt8) (h : front bytes ≠ .incomplete) :
    front (bytes ++ more) = front bytes := by
  cases bytes with
  | nil => exact absurd rfl h
  | cons b bytes =>
    simp only [List.cons_append, front] at h ⊢
    split
    next => rfl
    next l hl =>
      rw [hl] at h
      exact Front.rest_append more h

theorem Front.follow_le_of_rest {size follow value n : Nat} {low high : UInt8}
    {bytes : List UInt8} {c : Char}
    (h : Front.rest size follow low high value bytes = .scalar c n) : follow ≤ bytes.length := by
  induction follow generalizing low high value bytes with
  | zero => exact Nat.zero_le _
  | succ follow ih =>
    cases bytes with
    | nil => simp [Front.rest] at h
    | cons b bytes =>
      unfold Front.rest at h
      split at h
      next => exact Nat.succ_le_succ (ih h)
      next => simp at h

theorem size_le_length_of_front {bytes : List UInt8} {c : Char} {n : Nat}
    (h : front bytes = .scalar c n) : n ≤ bytes.length := by
  unfold front at h
  split at h
  next => simp at h
  next =>
    split at h
    next => simp at h
    next =>
      rw [Front.size_of_rest h]
      exact Nat.succ_le_succ (Front.follow_le_of_rest h)

theorem step_eq_pass_iff {bytes : List UInt8} {c : Char} {n : Nat} :
    step bytes = .pass c n ↔ front bytes = .scalar c n ∧ c ≠ '\x00' := by
  unfold step
  split
  next d m he =>
    rw [he, Front.scalar.injEq]
    split
    next hd =>
      refine ⟨fun h => by simp at h, ?_⟩
      rintro ⟨⟨rfl, -⟩, hc⟩
      exact absurd hd hc
    next hd =>
      rw [Step.pass.injEq]
      refine ⟨?_, And.left⟩
      rintro ⟨rfl, rfl⟩
      exact ⟨⟨rfl, rfl⟩, hd⟩
  next he => simp [he]
  next he => simp [he]

theorem step_eq_wait_iff {bytes : List UInt8} : step bytes = .wait ↔ front bytes = .incomplete := by
  unfold step
  split
  next => split <;> simp_all
  next => simp_all
  next => simp_all

theorem step_append {bytes : List UInt8} (more : List UInt8) (h : step bytes ≠ .wait) :
    step (bytes ++ more) = step bytes := by
  rw [ne_eq, step_eq_wait_iff] at h
  simp only [step, front_append more h]

theorem size_le_length_of_step {bytes : List UInt8} {c : Char} {n : Nat}
    (h : step bytes = .pass c n) : n ≤ bytes.length :=
  size_le_length_of_front (step_eq_pass_iff.mp h).1

theorem ne_nil_of_step {bytes : List UInt8} (h : step bytes ≠ .wait) : bytes ≠ [] := by
  rintro rfl
  exact h rfl

theorem scan_of_pass {bytes : List UInt8} {c : Char} {n : Nat} (h : step bytes = .pass c n) :
    scan bytes = (scan (bytes.drop n)).pass c := by
  have hne : step bytes ≠ .wait := by simp [h]
  obtain ⟨b, bytes, rfl⟩ := List.exists_cons_of_ne_nil (ne_nil_of_step hne)
  obtain ⟨n, rfl⟩ := Nat.exists_eq_add_one.mpr (size_pos_of_step h)
  rw [scan]
  split
  next he =>
    obtain ⟨rfl, rfl⟩ := Step.pass.inj (he.symm.trans h)
    rfl
  next he => simp [h] at he
  next he => simp [h] at he

theorem scan_of_skip {bytes : List UInt8} (h : step bytes = .skip) :
    scan bytes = (scan (bytes.drop 1)).skip := by
  have hne : step bytes ≠ .wait := by simp [h]
  obtain ⟨b, bytes, rfl⟩ := List.exists_cons_of_ne_nil (ne_nil_of_step hne)
  rw [scan]
  split
  next he => simp [h] at he
  next => rfl
  next he => simp [h] at he

theorem scan_of_wait {bytes : List UInt8} (h : step bytes = .wait) :
    scan bytes = { pending := bytes, fits := length_le_three_of_step h } := by
  cases bytes with
  | nil => simp [scan]
  | cons b bytes =>
    rw [scan]
    split
    next he => simp [h] at he
    next he => simp [h] at he
    next => rfl

/-- A byte string is read step by step until no more can be told. -/
@[elab_as_elim]
theorem scan_induction {motive : List UInt8 → Prop}
    (pass : ∀ bytes c n, step bytes = .pass c n → motive (bytes.drop n) → motive bytes)
    (skip : ∀ bytes, step bytes = .skip → motive (bytes.drop 1) → motive bytes)
    (wait : ∀ bytes, step bytes = .wait → motive bytes) (bytes : List UInt8) : motive bytes := by
  cases hs : step bytes with
  | pass c n =>
    have positive := size_pos_of_step hs
    have bound := size_le_length_of_step hs
    exact pass bytes c n hs (scan_induction pass skip wait (bytes.drop n))
  | skip =>
    have hne : step bytes ≠ .wait := by simp [hs]
    have positive := List.length_pos_iff.mpr (ne_nil_of_step hne)
    exact skip bytes hs (scan_induction pass skip wait (bytes.drop 1))
  | wait => exact wait bytes hs
termination_by bytes.length
decreasing_by all_goals simp only [List.length_drop]; omega

namespace Scan

@[simp] theorem scalars_pass (c : Char) (s : Scan) : (s.pass c).scalars = c :: s.scalars := rfl
@[simp] theorem skipped_pass (c : Char) (s : Scan) : (s.pass c).skipped = s.skipped := rfl
@[simp] theorem pending_pass (c : Char) (s : Scan) : (s.pass c).pending = s.pending := rfl
@[simp] theorem scalars_skip (s : Scan) : s.skip.scalars = s.scalars := rfl
@[simp] theorem skipped_skip (s : Scan) : s.skip.skipped = s.skipped + 1 := rfl
@[simp] theorem pending_skip (s : Scan) : s.skip.pending = s.pending := rfl

theorem pass_andThen (c : Char) (s t : Scan) : (s.pass c).andThen t = (s.andThen t).pass c := rfl

theorem skip_andThen (s t : Scan) : s.skip.andThen t = (s.andThen t).skip := by
  ext1
  · rfl
  · exact Nat.add_right_comm s.skipped 1 t.skipped
  · rfl

theorem andThen_of_wait (bytes : List UInt8) (fits : bytes.length ≤ 3) (t : Scan) :
    ({ pending := bytes, fits } : Scan).andThen t = t := by
  ext1
  · rfl
  · exact Nat.zero_add t.skipped
  · rfl

end Scan

/-- What a pass leaves over is what the next one begins with. -/
theorem scan_append (bytes more : List UInt8) :
    scan (bytes ++ more) = (scan bytes).andThen (scan ((scan bytes).pending ++ more)) := by
  induction bytes using scan_induction with
  | pass bytes c n h ih =>
    have hne : step bytes ≠ .wait := by simp [h]
    have hs := step_append more hne
    rw [scan_of_pass (hs.trans h), scan_of_pass h, Scan.pass_andThen, Scan.pending_pass, ← ih,
      List.drop_append_of_le_length (size_le_length_of_step h)]
  | skip bytes h ih =>
    have hne : step bytes ≠ .wait := by simp [h]
    have hs := step_append more hne
    have positive := List.length_pos_iff.mpr (ne_nil_of_step hne)
    rw [scan_of_skip (hs.trans h), scan_of_skip h, Scan.skip_andThen, Scan.pending_skip, ← ih,
      List.drop_append_of_le_length positive]
  | wait bytes h => rw [scan_of_wait h, Scan.andThen_of_wait]

end TapeMachine.Utf8
