import TapeMachine.Proofs.Utf8.Encoding

namespace TapeMachine.Utf8

/-- A sequence of `follow` bytes after a lead byte is there in full, and its bits behind those of
`value` make up `total`. -/
inductive Front.Assembles :
    (follow : Nat) → (low high : UInt8) → (value : Nat) → List UInt8 → (total : Nat) → Prop where
  | done {low high : UInt8} {value : Nat} {bytes : List UInt8} :
      Assembles 0 low high value bytes value
  | byte {follow value total : Nat} {low high b : UInt8} {bytes : List UInt8}
      (inside : low ≤ b ∧ b ≤ high)
      (more : Assembles follow 0x80 0xBF (value * 64 + (b.toNat - 0x80)) bytes total) :
      Assembles (follow + 1) low high value (b :: bytes) total

namespace Front.Assembles

variable {follow value total : Nat} {low high : UInt8} {bytes : List UInt8}

theorem rest (h : Assembles follow low high value bytes total) (size : Nat) :
    Front.rest size follow low high value bytes =
      if total.isValidChar then .scalar (Char.ofNat total) size else .invalid := by
  induction h with
  | done => rw [Front.rest]
  | byte inside more ih => rw [Front.rest, if_pos inside, ih]

theorem announces (h : Assembles follow low high value bytes total) (hlow : 0x80 ≤ low.toNat)
    (hhigh : high.toNat ≤ 0xBF) : Lead.Announces ⟨follow, low, high, value⟩ total := by
  induction h with
  | done => exact ⟨by simp, by simp, by simp⟩
  | @byte follow value total low high b bytes inside more ih =>
    have bits : total / 64 ^ follow = value * 64 + (b.toNat - 0x80) :=
      (ih (by decide) (by decide)).payload
    have hpow : total / 64 ^ (follow + 1) = total / 64 ^ follow / 64 := by
      rw [Nat.pow_succ, Nat.div_div_eq_div_mul]
    obtain ⟨hb, hb'⟩ := inside
    rw [UInt8.le_iff_toNat_le] at hb hb'
    have byte : 0x80 + total / 64 ^ follow % 64 = b.toNat := by omega
    refine ⟨?_, ?_, ?_⟩
    · change total / 64 ^ (follow + 1) = value
      omega
    · intro f hf
      cases Nat.succ.inj hf
      exact Nat.le_trans hb (Nat.le_of_eq byte.symm)
    · intro f hf
      cases Nat.succ.inj hf
      exact Nat.le_trans (Nat.le_of_eq byte) hb'

theorem exists_of_range (range : low ≤ high) (follow value : Nat) :
    ∃ more total, more.length = follow ∧ Assembles follow low high value more total := by
  induction follow generalizing low high value with
  | zero => exact ⟨[], value, rfl, .done⟩
  | succ follow ih =>
    have continuations : (0x80 : UInt8) ≤ 0xBF := by decide
    obtain ⟨more, total, length, rest⟩ := ih continuations (value * 64 + (low.toNat - 0x80))
    exact ⟨low :: more, total, congrArg (· + 1) length, .byte ⟨UInt8.le_refl low, range⟩ rest⟩

theorem exists_of_incomplete {size : Nat} (range : low ≤ high)
    (h : Front.rest size follow low high value bytes = .incomplete) :
    ∃ more total, bytes.length + more.length = follow ∧
      Assembles follow low high value (bytes ++ more) total := by
  induction follow generalizing low high value bytes with
  | zero => exact absurd h Front.complete_of_rest_zero
  | succ follow ih =>
    cases bytes with
    | nil =>
      obtain ⟨more, total, length, rest⟩ := exists_of_range range (follow + 1) value
      exact ⟨more, total, by rw [List.length_nil, Nat.zero_add, length], rest⟩
    | cons b bytes =>
      rw [Front.rest] at h
      split at h
      next inside =>
        obtain ⟨more, total, length, rest⟩ := ih (by decide) h
        exact ⟨more, total, by rw [List.length_cons]; omega, .byte inside rest⟩
      next => cases h

end Front.Assembles

/-- The ranges after E0 and F0 exclude overlong forms, those after ED and F4 what is no character. -/
theorem Lead.valid_of_announces {b : UInt8} {l : Lead} {value : Nat}
    (h : Lead.ofByte? b = some l) (announced : l.Announces value) : value.isValidChar := by
  obtain ⟨payload, low, high⟩ := announced
  unfold Nat.isValidChar
  obtain ⟨hlt, rfl⟩ | ⟨hge, hlt, rfl⟩ | ⟨hge, hlt, rfl⟩ | ⟨hge, hlt, rfl⟩ := Lead.cases h
  · simp only [Nat.pow_zero, Nat.div_one] at payload
    omega
  · simp only at payload
    omega
  · have next := high 1 rfl
    simp only at payload next
    split at next <;> simp only [UInt8.reduceToNat] at next <;> omega
  · have least := low 2 rfl
    have greatest := high 2 rfl
    simp only at payload least greatest
    split at least <;> split at greatest <;>
      simp only [UInt8.reduceToNat] at least greatest <;> omega

theorem Lead.low_le_high {b : UInt8} {l : Lead} (h : Lead.ofByte? b = some l) : l.low ≤ l.high := by
  rw [UInt8.le_iff_toNat_le]
  obtain ⟨-, rfl⟩ | ⟨-, -, rfl⟩ | ⟨-, -, rfl⟩ | ⟨-, -, rfl⟩ := Lead.cases h
  · simp
  · simp
  · simp only
    split <;> split <;> simp only [UInt8.reduceToNat] <;> omega
  · simp only
    split <;> split <;> simp only [UInt8.reduceToNat] <;> omega

theorem valid_of_assembles {b : UInt8} {l : Lead} {bytes : List UInt8} {total : Nat}
    (h : Lead.ofByte? b = some l)
    (whole : Front.Assembles l.follow l.low l.high l.payload bytes total) : total.isValidChar := by
  obtain ⟨hlow, hhigh⟩ := Lead.range h
  exact Lead.valid_of_announces h (whole.announces hlow hhigh)

theorem front_of_assembles {b : UInt8} {l : Lead} {bytes : List UInt8} {total : Nat}
    (h : Lead.ofByte? b = some l)
    (whole : Front.Assembles l.follow l.low l.high l.payload bytes total) :
    front (b :: bytes) = .scalar (Char.ofNat total) (l.follow + 1) := by
  rw [front, h]
  simp only
  rw [whole.rest, if_pos (valid_of_assembles h whole)]

theorem encodeChar_ne_nil (c : Char) : String.utf8EncodeChar c ≠ [] := by
  obtain ⟨b, l, hl, announced⟩ := Lead.exists_announces c
  rw [Lead.encode_of_announces hl announced]
  exact List.cons_ne_nil _ _

/-- The encoding of some character begins with these bytes and goes on after them. -/
def IsProperPart (bytes : List UInt8) : Prop :=
  ∃ c, bytes <+: String.utf8EncodeChar c ∧ bytes ≠ String.utf8EncodeChar c

/-- A byte string is told to be incomplete exactly if it is a proper part of an encoding. -/
theorem front_eq_incomplete_iff {bytes : List UInt8} :
    front bytes = .incomplete ↔ IsProperPart bytes := by
  constructor
  · intro h
    cases bytes with
    | nil => exact ⟨'A', List.nil_prefix, (encodeChar_ne_nil 'A').symm⟩
    | cons b bytes =>
      rw [front] at h
      split at h
      next => cases h
      next l hl =>
        obtain ⟨more, total, length, whole⟩ :=
          Front.Assembles.exists_of_incomplete (Lead.low_le_high hl) h
        have short := Front.length_lt_of_rest h
        obtain ⟨size, encoded⟩ := front_eq_scalar_iff.mp (front_of_assembles hl whole)
        rw [← String.length_utf8EncodeChar] at size
        refine ⟨Char.ofNat total, ?_, fun same => ?_⟩
        · apply List.prefix_of_prefix_length_le (List.prefix_append (b :: bytes) more) encoded
          rw [List.length_cons]
          omega
        · rw [← same, List.length_cons] at size
          omega
  · rintro ⟨c, ⟨more, whole⟩, proper⟩
    have complete : front (bytes ++ more) = .scalar c c.utf8Size :=
      front_eq_scalar_iff.mpr ⟨rfl, whole ▸ List.prefix_rfl⟩
    -- What tells of itself would go on to tell the same with the missing bytes behind it.
    by_contra told
    rw [front_append more told, front_eq_scalar_iff] at complete
    exact proper (List.IsPrefix.eq_of_length_le ⟨more, whole⟩ complete.2.length_le)

/-- A byte string is told to be invalid as soon as no continuation makes it begin with a character. -/
theorem front_eq_invalid_iff {bytes : List UInt8} :
    front bytes = .invalid ↔ ∀ more c, ¬String.utf8EncodeChar c <+: bytes ++ more := by
  constructor
  · intro h more c begun
    have told : front (bytes ++ more) = .scalar c c.utf8Size :=
      front_eq_scalar_iff.mpr ⟨rfl, begun⟩
    rw [front_append more (by rw [h]; simp), h] at told
    cases told
  · intro h
    cases hf : front bytes with
    | scalar c n =>
      have begun := (front_eq_scalar_iff.mp hf).2
      exact absurd (begun.trans (List.prefix_append bytes [])) (h [] c)
    | invalid => rfl
    | incomplete =>
      obtain ⟨c, ⟨more, whole⟩, -⟩ := front_eq_incomplete_iff.mp hf
      exact absurd (whole ▸ List.prefix_rfl) (h more c)

/-- Exactly strict UTF-8 is recognised at the front of a byte string: a character where its encoding
stands, with its size; a proper part of an encoding as incomplete, the empty one too; and everything
else as invalid, which is everything that no continuation can make begin with a character. A sequence
that is there in full is always a character: the number it makes up is never refused. -/
theorem front_recognises_utf8 :
    (∀ bytes c n, front bytes = .scalar c n ↔
      n = c.utf8Size ∧ String.utf8EncodeChar c <+: bytes) ∧
    (∀ bytes, front bytes = .incomplete ↔ IsProperPart bytes) ∧
    (∀ bytes, front bytes = .invalid ↔ ∀ more c, ¬String.utf8EncodeChar c <+: bytes ++ more) ∧
    ∀ b l bytes total, Lead.ofByte? b = some l →
      Front.Assembles l.follow l.low l.high l.payload bytes total →
      total.isValidChar ∧ front (b :: bytes) = .scalar (Char.ofNat total) (l.follow + 1) :=
  ⟨fun _ _ _ => front_eq_scalar_iff, fun _ => front_eq_incomplete_iff,
    fun _ => front_eq_invalid_iff,
    fun _ _ _ _ hl whole => ⟨valid_of_assembles hl whole, front_of_assembles hl whole⟩⟩

/-- The greatest character is assembled from its four bytes. One more in the second of them is
invalid at once, and so is the first half of a surrogate, while the character before the surrogates
only lacks its last byte. -/
theorem front_recognises_utf8_at_limits :
    Lead.ofByte? 0xF4 = some ⟨3, 0x80, 0x8F, 4⟩ ∧
    Front.Assembles 3 0x80 0x8F 4 [0x8F, 0xBF, 0xBF] 0x10FFFF ∧
    front [0xF4, 0x8F, 0xBF, 0xBF] = .scalar (Char.ofNat 0x10FFFF) 4 ∧
    (∀ more c, ¬String.utf8EncodeChar c <+: [0xF4, 0x90] ++ more) ∧
    (∀ more c, ¬String.utf8EncodeChar c <+: [0xED, 0xA0] ++ more) ∧
    front [0xED, 0x9F] = .incomplete := by
  obtain ⟨-, incomplete, invalid, whole⟩ := front_recognises_utf8
  have lead : Lead.ofByte? 0xF4 = some ⟨3, 0x80, 0x8F, 4⟩ := rfl
  have assembled : Front.Assembles 3 0x80 0x8F 4 [0x8F, 0xBF, 0xBF] 0x10FFFF :=
    .byte (by decide) (.byte (by decide) (.byte (by decide) .done))
  refine ⟨lead, assembled, (whole _ _ _ _ lead assembled).2, (invalid _).mp (by decide),
    (invalid _).mp (by decide), (incomplete _).mpr ⟨'\uD7FF', ?_, ?_⟩⟩
  · exact ⟨[0xBF], by decide⟩
  · decide

end TapeMachine.Utf8
