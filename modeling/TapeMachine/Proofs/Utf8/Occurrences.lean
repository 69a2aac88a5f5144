import TapeMachine.Proofs.Utf8.Chunking
import TapeMachine.Proofs.Utf8.Encoding

namespace TapeMachine.Utf8

/-- The bytes that can follow a lead byte. They begin nothing. -/
def IsContinuation (b : UInt8) : Prop := 0x80 ≤ b ∧ b ≤ 0xBF

theorem front_of_continuation {b : UInt8} (h : IsContinuation b) (more : List UInt8) :
    front (b :: more) = .invalid := by
  obtain ⟨low, high⟩ := h
  simp only [UInt8.le_iff_toNat_le, UInt8.reduceToNat] at low high
  rw [front, Lead.ofByte?_eq, if_neg (by omega), if_pos (by omega)]

theorem continuation_of_mem_tail {follow value : Nat} {b : UInt8} (h : b ∈ tail follow value) :
    IsContinuation b := by
  induction follow with
  | zero => simp [tail] at h
  | succ follow ih =>
    rcases List.mem_cons.mp h with rfl | h
    · have byte := toNat_tail_byte value follow
      rw [IsContinuation, UInt8.le_iff_toNat_le, UInt8.le_iff_toNat_le, byte]
      simp only [UInt8.reduceToNat]
      omega
    · exact ih h

theorem continuation_of_mem_encode {c : Char} {b : UInt8}
    (h : b ∈ (String.utf8EncodeChar c).tail) : IsContinuation b := by
  obtain ⟨lead, l, hl, announced⟩ := Lead.exists_announces c
  rw [Lead.encode_of_announces hl announced] at h
  exact continuation_of_mem_tail h

theorem Front.continuation_of_rest {size follow value : Nat} {low high : UInt8}
    {bytes : List UInt8} (hlow : 0x80 ≤ low) (hhigh : high ≤ 0xBF)
    (h : Front.rest size follow low high value bytes = .incomplete) :
    ∀ b ∈ bytes, IsContinuation b := by
  induction follow generalizing low high value bytes with
  | zero => exact absurd h Front.complete_of_rest_zero
  | succ follow ih =>
    cases bytes with
    | nil => simp
    | cons b bytes =>
      unfold Front.rest at h
      split at h
      next hb =>
        intro x hx
        rcases List.mem_cons.mp hx with rfl | hx
        · exact ⟨UInt8.le_trans hlow hb.1, UInt8.le_trans hb.2 hhigh⟩
        · exact ih (by decide) (by decide) h x hx
      next => simp at h

theorem continuation_of_incomplete {bytes : List UInt8} (h : front bytes = .incomplete) :
    ∀ b ∈ bytes.tail, IsContinuation b := by
  cases bytes with
  | nil => simp
  | cons lead bytes =>
    rw [front] at h
    split at h
    next => simp at h
    next l hl =>
      obtain ⟨hlow, hhigh⟩ := Lead.range hl
      exact Front.continuation_of_rest (UInt8.le_iff_toNat_le.mpr hlow)
        (UInt8.le_iff_toNat_le.mpr hhigh) h

/-- The encoding of a character other than null stands at a position of a byte string. -/
def Occurs (bytes : List UInt8) (i : Nat) (c : Char) : Prop :=
  c ≠ '\x00' ∧ String.utf8EncodeChar c <+: bytes.drop i

theorem step_eq_pass_iff_occurs {bytes : List UInt8} {i : Nat} {c : Char} :
    step (bytes.drop i) = .pass c c.utf8Size ↔ Occurs bytes i c := by
  rw [step_eq_pass_iff, front_eq_scalar_iff, Occurs, and_comm, and_iff_right rfl]

theorem size_of_step {bytes : List UInt8} {c : Char} {n : Nat} (h : step bytes = .pass c n) :
    n = c.utf8Size :=
  (front_eq_scalar_iff.mp (step_eq_pass_iff.mp h).1).1

theorem scan_length (bytes : List UInt8) :
    (scan bytes).skipped + (scan bytes).pending.length +
      ((scan bytes).scalars.map Char.utf8Size).sum = bytes.length := by
  induction bytes using scan_induction with
  | pass bytes c n h ih =>
    have bound := size_le_length_of_step h
    obtain rfl := size_of_step h
    rw [List.length_drop] at ih
    rw [scan_of_pass h, Scan.scalars_pass, Scan.skipped_pass, Scan.pending_pass, List.map_cons,
      List.sum_cons]
    omega
  | skip bytes h ih =>
    have bound := List.length_pos_iff.mpr (ne_nil_of_step (by simp [h] : step bytes ≠ .wait))
    rw [List.length_drop] at ih
    rw [scan_of_skip h, Scan.scalars_skip, Scan.skipped_skip, Scan.pending_skip]
    omega
  | wait bytes h => simp [scan_of_wait h]

theorem null_not_mem_scan (bytes : List UInt8) : '\x00' ∉ (scan bytes).scalars := by
  induction bytes using scan_induction with
  | pass bytes c n h ih =>
    rw [scan_of_pass h, Scan.scalars_pass, List.mem_cons]
    rintro (hc | hm)
    · exact (step_eq_pass_iff.mp h).2 hc.symm
    · exact ih hm
  | skip bytes h ih => rwa [scan_of_skip h]
  | wait bytes h => simp [scan_of_wait h]

theorem not_occurs_of_continuation {bytes : List UInt8} {i : Nat} {c : Char}
    (h : ∀ b ∈ (bytes.drop i).head?, IsContinuation b) : ¬Occurs bytes i c := by
  intro ho
  have hs := step_eq_pass_iff_occurs.mpr ho
  cases hd : bytes.drop i with
  | nil => simp [hd, step, front] at hs
  | cons b more =>
    have hf := front_of_continuation (h b (by simp [hd])) more
    simp [hd, step, hf] at hs

theorem not_occurs_inside {bytes : List UInt8} {c d : Char} {i : Nat}
    (h : step bytes = .pass c c.utf8Size) (pos : 0 < i) (lt : i < c.utf8Size) :
    ¬Occurs bytes i d := by
  apply not_occurs_of_continuation
  obtain ⟨more, rfl⟩ := (front_eq_scalar_iff.mp (step_eq_pass_iff.mp h).1).2
  have hi : i < (String.utf8EncodeChar c).length := by rwa [String.length_utf8EncodeChar]
  intro b hb
  apply continuation_of_mem_encode (c := c)
  rw [List.drop_append_of_le_length (Nat.le_of_lt hi), List.drop_eq_getElem_cons hi,
    List.cons_append, List.head?_cons, Option.mem_some_iff] at hb
  subst b
  obtain ⟨i, rfl⟩ := Nat.exists_eq_add_one.mpr pos
  rw [← List.getElem_tail (by simpa using Nat.lt_sub_of_add_lt hi)]
  exact List.getElem_mem _

theorem not_occurs_of_wait {bytes : List UInt8} {c : Char} {i : Nat} (h : step bytes = .wait) :
    ¬Occurs bytes i c := by
  cases i with
  | zero =>
    intro ho
    have hs := step_eq_pass_iff_occurs.mpr ho
    simp [h] at hs
  | succ i =>
    apply not_occurs_of_continuation
    intro b hb
    apply continuation_of_incomplete (step_eq_wait_iff.mp h)
    rw [← List.drop_one]
    rw [Nat.add_comm, ← List.drop_drop] at hb
    exact List.mem_of_mem_drop (List.mem_of_mem_head? hb)

theorem occurs_drop {bytes : List UInt8} {n i : Nat} {c : Char} :
    Occurs (bytes.drop n) i c ↔ Occurs bytes (n + i) c := by
  rw [Occurs, Occurs, List.drop_drop]

/-- How many positions before a bound lie in none of the encodings found. -/
def uncovered (bound : Nat) (found : List (Nat × Char)) : Nat :=
  (List.range bound).countP fun i => ∀ o ∈ found, ¬(o.1 ≤ i ∧ i < o.1 + o.2.utf8Size)

/-- All occurrences in a byte string, from left to right and apart from each other. -/
structure Listed (bytes : List UInt8) (found : List (Nat × Char)) : Prop where
  apart : found.Pairwise fun o p => o.1 + o.2.utf8Size ≤ p.1
  mem_iff : ∀ i c, (i, c) ∈ found ↔ Occurs bytes i c

def later (n : Nat) (found : List (Nat × Char)) : List (Nat × Char) :=
  found.map fun o => (n + o.1, o.2)

theorem mem_later {n i : Nat} {c : Char} {found : List (Nat × Char)} :
    (i, c) ∈ later n found ↔ ∃ j, (j, c) ∈ found ∧ n + j = i := by
  simp [later]

theorem apart_later {n : Nat} {found : List (Nat × Char)}
    (h : found.Pairwise fun o p => o.1 + o.2.utf8Size ≤ p.1) :
    (later n found).Pairwise fun o p => o.1 + o.2.utf8Size ≤ p.1 := by
  rw [later, List.pairwise_map]
  exact h.imp fun h => by simp only; omega

theorem listed_of_pass {bytes : List UInt8} {c : Char} {found : List (Nat × Char)}
    (h : step bytes = .pass c c.utf8Size) (rest : Listed (bytes.drop c.utf8Size) found) :
    Listed bytes ((0, c) :: later c.utf8Size found) := by
  refine ⟨List.pairwise_cons.mpr ⟨?_, apart_later rest.apart⟩, ?_⟩
  · rintro ⟨i, d⟩ hm
    obtain ⟨j, -, rfl⟩ := mem_later.mp hm
    simp only
    omega
  · intro i d
    rw [List.mem_cons, mem_later]
    constructor
    · rintro (he | ⟨j, hj, rfl⟩)
      · obtain ⟨rfl, rfl⟩ := Prod.mk.inj he
        exact step_eq_pass_iff_occurs.mp h
      · exact occurs_drop.mp ((rest.mem_iff j d).mp hj)
    · intro ho
      rcases Nat.lt_or_ge i c.utf8Size with lt | ge
      · rcases Nat.eq_zero_or_pos i with rfl | pos
        · have hd := step_eq_pass_iff_occurs.mpr ho
          rw [List.drop_zero, h] at hd
          exact Or.inl (Prod.ext rfl (Step.pass.inj hd).1.symm)
        · exact absurd ho (not_occurs_inside h pos lt)
      · obtain ⟨j, rfl⟩ := Nat.exists_eq_add_of_le ge
        exact Or.inr ⟨j, (rest.mem_iff j d).mpr (occurs_drop.mpr ho), rfl⟩

theorem listed_of_skip {bytes : List UInt8} {found : List (Nat × Char)}
    (h : step bytes = .skip) (rest : Listed (bytes.drop 1) found) :
    Listed bytes (later 1 found) := by
  refine ⟨apart_later rest.apart, ?_⟩
  intro i d
  rw [mem_later]
  constructor
  · rintro ⟨j, hj, rfl⟩
    exact occurs_drop.mp ((rest.mem_iff j d).mp hj)
  · intro ho
    rcases Nat.eq_zero_or_pos i with rfl | pos
    · have hd := step_eq_pass_iff_occurs.mpr ho
      simp [h] at hd
    · obtain ⟨j, rfl⟩ := Nat.exists_eq_add_of_le pos
      exact ⟨j, (rest.mem_iff j d).mpr (occurs_drop.mpr ho), rfl⟩

theorem listed_of_wait {bytes : List UInt8} (h : step bytes = .wait) : Listed bytes [] := by
  refine ⟨List.Pairwise.nil, ?_⟩
  intro i c
  have absent := not_occurs_of_wait (i := i) (c := c) h
  simp [absent]

theorem uncovered_append (n bound : Nat) (before found : List (Nat × Char))
    (h : ∀ o ∈ before, o.1 + o.2.utf8Size ≤ n) :
    uncovered (n + bound) (before ++ later n found) = uncovered n before + uncovered bound found := by
  rw [uncovered, List.range_add, List.countP_append, List.countP_map]
  congr 1
  · apply List.countP_congr
    intro i hi
    have hi := List.mem_range.mp hi
    simp only [List.forall_mem_append, later, List.forall_mem_map, decide_eq_true_eq]
    apply and_iff_left
    intro o _
    omega
  · apply List.countP_congr
    intro i _
    have outside : ∀ o ∈ before, ¬(o.1 ≤ n + i ∧ n + i < o.1 + o.2.utf8Size) := by
      intro o ho
      have := h o ho
      omega
    simp only [Function.comp, List.forall_mem_append, later, List.forall_mem_map, decide_eq_true_eq]
    rw [and_iff_right outside]
    apply forall₂_congr
    intro o _
    omega

theorem uncovered_nil (bound : Nat) : uncovered bound [] = bound := by
  simp [uncovered]

theorem uncovered_self (c : Char) : uncovered c.utf8Size [(0, c)] = 0 := by
  simp [uncovered, List.countP_eq_zero]

/-- A pass over a byte string lists all occurrences and counts the bytes between them. -/
theorem scan_listed (bytes : List UInt8) :
    ∃ found, Listed bytes found ∧ (scan bytes).scalars = found.map Prod.snd ∧
      (scan bytes).skipped + (scan bytes).pending.length = uncovered bytes.length found := by
  induction bytes using scan_induction with
  | pass bytes c n h ih =>
    obtain rfl := size_of_step h
    obtain ⟨found, listed, scalars, skipped⟩ := ih
    refine ⟨_, listed_of_pass h listed, ?_, ?_⟩
    · rw [scan_of_pass h, Scan.scalars_pass, scalars]
      simp [later]
    · have bound := size_le_length_of_step h
      rw [List.length_drop] at skipped
      have split := uncovered_append c.utf8Size (bytes.length - c.utf8Size) [(0, c)] found
        (by simp)
      rw [Nat.add_sub_cancel' bound, uncovered_self, Nat.zero_add, List.singleton_append] at split
      rw [scan_of_pass h, Scan.skipped_pass, Scan.pending_pass, skipped, split]
  | skip bytes h ih =>
    obtain ⟨found, listed, scalars, skipped⟩ := ih
    refine ⟨_, listed_of_skip h listed, ?_, ?_⟩
    · rw [scan_of_skip h, Scan.scalars_skip, scalars]
      simp [later]
    · have bound := List.length_pos_iff.mpr (ne_nil_of_step (by simp [h] : step bytes ≠ .wait))
      rw [List.length_drop] at skipped
      have split := uncovered_append 1 (bytes.length - 1) [] found (by simp)
      rw [Nat.add_sub_cancel' bound, uncovered_nil, List.nil_append] at split
      rw [scan_of_skip h, Scan.skipped_skip, Scan.pending_skip, Nat.add_right_comm, skipped, split,
        Nat.add_comm]
  | wait bytes h =>
    refine ⟨[], listed_of_wait h, ?_, ?_⟩
    · rw [scan_of_wait h]
      rfl
    · rw [scan_of_wait h, uncovered_nil]
      exact Nat.zero_add _

theorem step_pending (bytes : List UInt8) : step (scan bytes).pending = .wait := by
  induction bytes using scan_induction with
  | pass bytes c n h ih => rwa [scan_of_pass h]
  | skip bytes h ih => rwa [scan_of_skip h]
  | wait bytes h => rwa [scan_of_wait h]

theorem scan_continuations {bytes : List UInt8} (h : ∀ b ∈ bytes, IsContinuation b)
    (more : List UInt8) :
    scan (bytes ++ more) =
      { scan more with skipped := bytes.length + (scan more).skipped } := by
  induction bytes with
  | nil => simp
  | cons b bytes ih =>
    have hs : step (b :: (bytes ++ more)) = .skip := by
      simp only [step, front_of_continuation (h b List.mem_cons_self)]
    rw [List.cons_append, scan_of_skip hs, List.drop_one, List.tail_cons,
      ih fun x hx => h x (List.mem_cons_of_mem b hx)]
    refine Scan.ext rfl ?_ rfl
    simp only [Scan.skipped_skip, List.length_cons]
    omega

theorem Front.rest_of_break {size follow value : Nat} {low high b : UInt8} {bytes : List UInt8}
    (more : List UInt8) (hlow : 0x80 ≤ low) (hhigh : high ≤ 0xBF) (hb : ¬IsContinuation b)
    (h : Front.rest size follow low high value bytes = .incomplete) :
    Front.rest size follow low high value (bytes ++ b :: more) = .invalid := by
  induction follow generalizing low high value bytes with
  | zero => exact absurd h Front.complete_of_rest_zero
  | succ follow ih =>
    cases bytes with
    | nil =>
      rw [List.nil_append, Front.rest, if_neg]
      exact fun hr => hb ⟨UInt8.le_trans hlow hr.1, UInt8.le_trans hr.2 hhigh⟩
    | cons x bytes =>
      rw [Front.rest] at h
      rw [List.cons_append, Front.rest]
      split
      next hx =>
        rw [if_pos hx] at h
        exact ih (by decide) (by decide) h
      next => rfl

/-- A sequence that breaks off is skipped byte by byte when what follows does not go on with it. -/
theorem scan_of_break {pending : List UInt8} {b : UInt8} (h : step pending = .wait)
    (hb : ¬IsContinuation b) (more : List UInt8) :
    scan (pending ++ b :: more) =
      { scan (b :: more) with skipped := pending.length + (scan (b :: more)).skipped } := by
  have hf := step_eq_wait_iff.mp h
  cases pending with
  | nil => simp
  | cons lead bytes =>
    have conts : ∀ x ∈ bytes, IsContinuation x := continuation_of_incomplete hf
    have hs : step (lead :: (bytes ++ b :: more)) = .skip := by
      rw [front] at hf
      split at hf
      next => simp at hf
      next l hl =>
        obtain ⟨hlow, hhigh⟩ := Lead.range hl
        have hi := Front.rest_of_break more (UInt8.le_iff_toNat_le.mpr hlow)
          (UInt8.le_iff_toNat_le.mpr hhigh) hb hf
        simp only [step, front, hl, hi]
    rw [List.cons_append, scan_of_skip hs, List.drop_one, List.tail_cons,
      scan_continuations conts]
    refine Scan.ext rfl ?_ rfl
    simp only [Scan.skipped_skip, List.length_cons]
    omega

theorem exists_encode_eq_cons (c : Char) :
    ∃ b more, String.utf8EncodeChar c = b :: more ∧ ¬IsContinuation b := by
  obtain ⟨b, l, hl, announced⟩ := Lead.exists_announces c
  have he := Lead.encode_of_announces hl announced
  refine ⟨b, _, he, fun hb => ?_⟩
  have hf : front (String.utf8EncodeChar c) = .scalar c c.utf8Size :=
    front_eq_scalar_iff.mpr ⟨rfl, List.prefix_rfl⟩
  rw [he, front_of_continuation hb] at hf
  simp at hf

theorem scalars_around (junk more : List UInt8) {c : Char} (h : c ≠ '\x00') :
    (scan (junk ++ String.utf8EncodeChar c ++ more)).scalars =
      (scan junk).scalars ++ c :: (scan more).scalars := by
  obtain ⟨b, bytes, he, hb⟩ := exists_encode_eq_cons c
  have hs : step (String.utf8EncodeChar c ++ more) = .pass c c.utf8Size :=
    step_eq_pass_iff.mpr ⟨front_eq_scalar_iff.mpr ⟨rfl, List.prefix_append _ _⟩, h⟩
  have hread := scan_of_pass hs
  rw [List.drop_left' (String.length_utf8EncodeChar c)] at hread
  rw [he, List.cons_append] at hread
  rw [List.append_assoc, scan_append, he, List.cons_append,
    scan_of_break (step_pending junk) hb, hread]
  rfl

/-- The characters decoded are all the characters that occur in a byte string, other than null, in
the order of their positions; the bytes skipped are those that lie in none of them. What stands
before a character can neither hide it nor change it. -/
theorem decoded_iff_occurs :
    (∀ bytes, ∃ found, Listed bytes found ∧
      (Decoder.fresh.feed bytes).1 = found.map Prod.snd ∧
      (Decoder.fresh.feed bytes).2.finish.skipped = uncovered bytes.length found) ∧
    ∀ (junk more : List UInt8) (c : Char), c ≠ '\x00' →
      (Decoder.fresh.feed (junk ++ String.utf8EncodeChar c ++ more)).1 =
        (Decoder.fresh.feed junk).1 ++ c :: (Decoder.fresh.feed more).1 := by
  constructor
  · intro bytes
    obtain ⟨found, listed, scalars, skipped⟩ := scan_listed bytes
    have returned : (Decoder.fresh.feed bytes).2.finish.skipped =
        0 + (scan bytes).skipped + (scan bytes).pending.length := by
      rw [Decoder.feed_fresh, Decoder.finish_begun, Decoder.begun_nil, Decoder.idle]
    refine ⟨found, listed, ?_, ?_⟩
    · rw [Decoder.feed_fresh, scalars]
    · rw [returned, Nat.zero_add, skipped]
  · intro junk more c h
    simp only [Decoder.feed_fresh]
    exact scalars_around junk more h

/-- A sequence that breaks off does not hide the character after it. -/
theorem decoded_iff_occurs_after_break :
    (Decoder.fresh.feed [0xE2, 0x82, 0xC3, 0xA9, 0xFF, 0x41]).1 = 'é' :: ['A'] := by
  have before : (Decoder.fresh.feed [0xE2, 0x82]).1 = [] := by decide +kernel
  have after : (Decoder.fresh.feed [0xFF, 0x41]).1 = ['A'] := by decide +kernel
  have h := decoded_iff_occurs.2 [0xE2, 0x82] [0xFF, 0x41] 'é' (by decide)
  rwa [before, after] at h

end TapeMachine.Utf8
