import Mathlib.Algebra.Ring.Nat
import TapeMachine.Proofs.Utf8.Pass

namespace TapeMachine.Utf8

/-- The last `follow` bytes of the encoding of a number: six bits in each. -/
def tail : (follow : Nat) → (value : Nat) → List UInt8
  | 0, _ => []
  | follow + 1, value => UInt8.ofNat (0x80 + value / 64 ^ follow % 64) :: tail follow value

/-- A number can be what a lead byte begins: its highest bits are those of the lead byte, and its
next six bits are in the range allowed. -/
structure Lead.Announces (l : Lead) (value : Nat) : Prop where
  payload : value / 64 ^ l.follow = l.payload
  low : ∀ f, l.follow = f + 1 → l.low.toNat ≤ 0x80 + value / 64 ^ f % 64
  high : ∀ f, l.follow = f + 1 → 0x80 + value / 64 ^ f % 64 ≤ l.high.toNat

theorem toNat_tail_byte (value f : Nat) :
    (UInt8.ofNat (0x80 + value / 64 ^ f % 64)).toNat = 0x80 + value / 64 ^ f % 64 := by
  rw [UInt8.toNat_ofNat']
  omega

theorem Front.rest_zero {size value n : Nat} {low high : UInt8} {bytes : List UInt8} {c : Char} :
    Front.rest size 0 low high value bytes = .scalar c n ↔ n = size ∧ c.toNat = value := by
  by_cases valid : value.isValidChar
  · have character : Char.ofNat value = Char.ofNatAux value valid := dif_pos valid
    rw [Front.rest, if_pos valid, Front.scalar.injEq]
    constructor
    · rintro ⟨rfl, rfl⟩
      exact ⟨rfl, congrArg Char.toNat character⟩
    · rintro ⟨rfl, rfl⟩
      exact ⟨Char.ofNat_toNat c, rfl⟩
  · rw [Front.rest, if_neg valid]
    constructor
    · intro h
      cases h
    · rintro ⟨rfl, rfl⟩
      exact absurd c.valid valid

theorem Front.rest_succ {size follow value n : Nat} {low high : UInt8} {bytes : List UInt8}
    {c : Char} :
    Front.rest size (follow + 1) low high value bytes = .scalar c n ↔
      ∃ b more, bytes = b :: more ∧ (low ≤ b ∧ b ≤ high) ∧
        Front.rest size follow 0x80 0xBF (value * 64 + (b.toNat - 0x80)) more = .scalar c n := by
  cases bytes with
  | nil => simp [Front.rest]
  | cons b more =>
    simp only [List.cons.injEq]
    constructor
    · intro h
      rw [Front.rest] at h
      split at h
      next hb => exact ⟨b, more, ⟨rfl, rfl⟩, hb, h⟩
      next => simp at h
    · rintro ⟨_, _, ⟨rfl, rfl⟩, hb, h⟩
      rw [Front.rest, if_pos hb, h]

/-- What is read after a lead byte: the other bytes of a number with the bits of the lead byte, of
which the first is in the range allowed. -/
theorem Front.rest_iff {size follow value n : Nat} {low high : UInt8} {bytes : List UInt8}
    {c : Char} (hlow : 0x80 ≤ low.toNat) (hhigh : high.toNat ≤ 0xBF) :
    Front.rest size follow low high value bytes = .scalar c n ↔
      n = size ∧ Lead.Announces ⟨follow, low, high, value⟩ c.toNat ∧
        tail follow c.toNat <+: bytes := by
  induction follow generalizing low high value bytes with
  | zero =>
    rw [Front.rest_zero]
    refine and_congr_right fun _ => ⟨fun hc => ⟨⟨?_, ?_, ?_⟩, List.nil_prefix⟩, fun h => ?_⟩
    · simpa using hc
    · simp
    · simp
    · simpa using h.1.payload
  | succ follow ih =>
    have hpow : c.toNat / 64 ^ (follow + 1) = c.toNat / 64 ^ follow / 64 := by
      rw [Nat.pow_succ, Nat.div_div_eq_div_mul]
    rw [Front.rest_succ]
    constructor
    · rintro ⟨b, more, rfl, ⟨hb, hb'⟩, h⟩
      obtain ⟨rfl, announced, rest⟩ := (ih (by decide) (by decide)).mp h
      have bits : c.toNat / 64 ^ follow = value * 64 + (b.toNat - 0x80) := announced.payload
      rw [UInt8.le_iff_toNat_le] at hb hb'
      have byte : 0x80 + c.toNat / 64 ^ follow % 64 = b.toNat := by omega
      refine ⟨rfl, ⟨?_, ?_, ?_⟩, ?_⟩
      · change c.toNat / 64 ^ (follow + 1) = value
        omega
      · intro f hf
        cases Nat.succ.inj hf
        exact Nat.le_trans hb (Nat.le_of_eq byte.symm)
      · intro f hf
        cases Nat.succ.inj hf
        exact Nat.le_trans (Nat.le_of_eq byte) hb'
      · rw [tail, byte, UInt8.ofNat_toNat]
        exact List.cons_prefix_cons.mpr ⟨rfl, rest⟩
    · rintro ⟨rfl, announced, more, rfl⟩
      have payload : c.toNat / 64 ^ (follow + 1) = value := announced.payload
      have byte := toNat_tail_byte c.toNat follow
      refine ⟨_, _, rfl, ⟨?_, ?_⟩, (ih (by decide) (by decide)).mpr ⟨rfl, ⟨?_, ?_, ?_⟩, ?_⟩⟩
      · rw [UInt8.le_iff_toNat_le, byte]
        exact announced.low follow rfl
      · rw [UInt8.le_iff_toNat_le, byte]
        exact announced.high follow rfl
      · rw [byte]
        change c.toNat / 64 ^ follow = value * 64 + _
        omega
      · intro f _
        exact Nat.le_add_right _ _
      · intro f _
        change _ ≤ 0xBF
        omega
      · exact List.prefix_append _ _

theorem Lead.ofByte?_eq (b : UInt8) :
    Lead.ofByte? b =
      if b.toNat < 0x80 then some ⟨0, 0x80, 0xBF, b.toNat⟩
      else if b.toNat < 0xC2 then none
      else if b.toNat < 0xE0 then some ⟨1, 0x80, 0xBF, b.toNat - 0xC0⟩
      else if b.toNat < 0xF0 then
        some ⟨2, if b.toNat = 0xE0 then 0xA0 else 0x80, if b.toNat = 0xED then 0x9F else 0xBF,
          b.toNat - 0xE0⟩
      else if b.toNat < 0xF5 then
        some ⟨3, if b.toNat = 0xF0 then 0x90 else 0x80, if b.toNat = 0xF4 then 0x8F else 0xBF,
          b.toNat - 0xF0⟩
      else none := by
  unfold Lead.ofByte?
  simp only [UInt8.lt_iff_toNat_lt, ← UInt8.toNat_inj, UInt8.reduceToNat]
  repeat' split
  all_goals first | omega | simp [*]

theorem Lead.cases {b : UInt8} {l : Lead} (h : Lead.ofByte? b = some l) :
    (b.toNat < 0x80 ∧ l = ⟨0, 0x80, 0xBF, b.toNat⟩) ∨
    (0xC2 ≤ b.toNat ∧ b.toNat < 0xE0 ∧ l = ⟨1, 0x80, 0xBF, b.toNat - 0xC0⟩) ∨
    (0xE0 ≤ b.toNat ∧ b.toNat < 0xF0 ∧
      l = ⟨2, if b.toNat = 0xE0 then 0xA0 else 0x80, if b.toNat = 0xED then 0x9F else 0xBF,
        b.toNat - 0xE0⟩) ∨
    (0xF0 ≤ b.toNat ∧ b.toNat < 0xF5 ∧
      l = ⟨3, if b.toNat = 0xF0 then 0x90 else 0x80, if b.toNat = 0xF4 then 0x8F else 0xBF,
        b.toNat - 0xF0⟩) := by
  rw [Lead.ofByte?_eq] at h
  by_cases one : b.toNat < 0x80
  · rw [if_pos one] at h
    exact Or.inl ⟨one, (Option.some.inj h).symm⟩
  rw [if_neg one] at h
  by_cases nothing : b.toNat < 0xC2
  · rw [if_pos nothing] at h
    cases h
  rw [if_neg nothing] at h
  by_cases two : b.toNat < 0xE0
  · rw [if_pos two] at h
    exact Or.inr (Or.inl ⟨by omega, two, (Option.some.inj h).symm⟩)
  rw [if_neg two] at h
  by_cases three : b.toNat < 0xF0
  · rw [if_pos three] at h
    exact Or.inr (Or.inr (Or.inl ⟨by omega, three, (Option.some.inj h).symm⟩))
  rw [if_neg three] at h
  by_cases four : b.toNat < 0xF5
  · rw [if_pos four] at h
    exact Or.inr (Or.inr (Or.inr ⟨by omega, four, (Option.some.inj h).symm⟩))
  rw [if_neg four] at h
  cases h

theorem Lead.range {b : UInt8} {l : Lead} (h : Lead.ofByte? b = some l) :
    0x80 ≤ l.low.toNat ∧ l.high.toNat ≤ 0xBF := by
  obtain ⟨-, rfl⟩ | ⟨-, -, rfl⟩ | ⟨-, -, rfl⟩ | ⟨-, -, rfl⟩ := Lead.cases h
  · simp
  · simp
  · constructor <;> simp only <;> split <;> simp
  · constructor <;> simp only <;> split <;> simp

theorem toNat_valid (c : Char) :
    c.toNat < 0xD800 ∨ 0xDFFF < c.toNat ∧ c.toNat < 0x110000 := c.valid

theorem length_tail (follow value : Nat) : (tail follow value).length = follow := by
  induction follow with
  | zero => rfl
  | succ follow ih => exact congrArg (· + 1) ih

theorem encode_eq (c : Char) :
    String.utf8EncodeChar c =
      if c.toNat < 0x80 then UInt8.ofNat c.toNat :: tail 0 c.toNat
      else if c.toNat < 0x800 then UInt8.ofNat (0xC0 + c.toNat / 64) :: tail 1 c.toNat
      else if c.toNat < 0x10000 then UInt8.ofNat (0xE0 + c.toNat / 4096) :: tail 2 c.toNat
      else UInt8.ofNat (0xF0 + c.toNat / 262144) :: tail 3 c.toNat := by
  have valid := toNat_valid c
  simp only [String.utf8EncodeChar, Char.toNat_val, tail]
  rcases (by omega : c.toNat < 0x80 ∨ (¬c.toNat < 0x80 ∧ c.toNat < 0x800) ∨
      (¬c.toNat < 0x800 ∧ c.toNat < 0x10000) ∨ ¬c.toNat < 0x10000) with h | h | h | h
  · rw [if_pos (by omega), if_pos h]
  · rw [if_neg (by omega), if_pos (by omega), if_neg h.1, if_pos h.2]
    have lead : c.toNat / 64 % 0x20 + 0xC0 = 0xC0 + c.toNat / 64 := by omega
    have last : c.toNat % 0x40 + 0x80 = 0x80 + c.toNat / 64 ^ 0 % 64 := by omega
    rw [lead, last]
  · rw [if_neg (by omega), if_neg (by omega), if_pos (by omega), if_neg (by omega), if_neg h.1,
      if_pos h.2]
    have lead : c.toNat / 4096 % 0x10 + 0xE0 = 0xE0 + c.toNat / 4096 := by omega
    have next : c.toNat / 64 % 0x40 + 0x80 = 0x80 + c.toNat / 64 ^ 1 % 64 := by omega
    have last : c.toNat % 0x40 + 0x80 = 0x80 + c.toNat / 64 ^ 0 % 64 := by omega
    rw [lead, next, last]
  · rw [if_neg (by omega), if_neg (by omega), if_neg (by omega), if_neg (by omega),
      if_neg (by omega), if_neg h]
    have lead : c.toNat / 262144 % 0x08 + 0xF0 = 0xF0 + c.toNat / 262144 := by omega
    have second : c.toNat / 4096 % 0x40 + 0x80 = 0x80 + c.toNat / 64 ^ 2 % 64 := by omega
    have third : c.toNat / 64 % 0x40 + 0x80 = 0x80 + c.toNat / 64 ^ 1 % 64 := by omega
    have last : c.toNat % 0x40 + 0x80 = 0x80 + c.toNat / 64 ^ 0 % 64 := by omega
    rw [lead, second, third, last]

theorem Lead.encode_of_announces {b : UInt8} {l : Lead} {c : Char}
    (h : Lead.ofByte? b = some l) (announced : l.Announces c.toNat) :
    String.utf8EncodeChar c = b :: tail l.follow c.toNat := by
  obtain ⟨payload, low, -⟩ := announced
  have hb : UInt8.ofNat b.toNat = b := UInt8.ofNat_toNat
  rw [encode_eq]
  obtain ⟨hlt, rfl⟩ | ⟨hge, hlt, rfl⟩ | ⟨hge, hlt, rfl⟩ | ⟨hge, hlt, rfl⟩ := Lead.cases h
  · simp only [Nat.pow_zero, Nat.div_one] at payload
    rw [if_pos (by omega), payload, hb]
  · simp only at payload
    have lead : 0xC0 + c.toNat / 64 = b.toNat := by omega
    rw [if_neg (by omega), if_pos (by omega), lead, hb]
  · have next := low 1 rfl
    simp only at payload next
    have lead : 0xE0 + c.toNat / 4096 = b.toNat := by omega
    have large : 0x800 ≤ c.toNat := by
      split at next <;> simp only [UInt8.reduceToNat] at next <;> omega
    rw [if_neg (by omega), if_neg (by omega), if_pos (by omega), lead, hb]
  · have next := low 2 rfl
    simp only at payload next
    have lead : 0xF0 + c.toNat / 262144 = b.toNat := by omega
    have large : 0x10000 ≤ c.toNat := by
      split at next <;> simp only [UInt8.reduceToNat] at next <;> omega
    rw [if_neg (by omega), if_neg (by omega), if_neg (by omega), lead, hb]

theorem Lead.exists_announces (c : Char) :
    ∃ b l, Lead.ofByte? b = some l ∧ l.Announces c.toNat := by
  have valid := toNat_valid c
  rcases (by omega : c.toNat < 0x80 ∨ (0x80 ≤ c.toNat ∧ c.toNat < 0x800) ∨
      (0x800 ≤ c.toNat ∧ c.toNat < 0x10000) ∨ 0x10000 ≤ c.toNat) with h | h | h | h
  · have hb : (UInt8.ofNat c.toNat).toNat = c.toNat := by rw [UInt8.toNat_ofNat']; omega
    refine ⟨_, _, by rw [Lead.ofByte?_eq, hb, if_pos h], ?_, ?_, ?_⟩
    · simp
    · simp
    · simp
  · have hb : (UInt8.ofNat (0xC0 + c.toNat / 64)).toNat = 0xC0 + c.toNat / 64 := by
      rw [UInt8.toNat_ofNat']; omega
    refine ⟨_, _, by
      rw [Lead.ofByte?_eq, hb, if_neg (by omega), if_neg (by omega), if_pos (by omega)], ?_, ?_, ?_⟩
    · simp
    · intro f _
      exact Nat.le_add_right _ _
    · intro f _
      simp only [UInt8.reduceToNat]
      omega
  · have hb : (UInt8.ofNat (0xE0 + c.toNat / 4096)).toNat = 0xE0 + c.toNat / 4096 := by
      rw [UInt8.toNat_ofNat']; omega
    refine ⟨_, _, by
      rw [Lead.ofByte?_eq, hb, if_neg (by omega), if_neg (by omega), if_neg (by omega),
        if_pos (by omega)], ?_, ?_, ?_⟩
    · simp
    · intro f hf
      cases Nat.succ.inj hf
      simp only
      split <;> simp only [UInt8.reduceToNat] <;> omega
    · intro f hf
      cases Nat.succ.inj hf
      simp only
      split <;> simp only [UInt8.reduceToNat] <;> omega
  · have hb : (UInt8.ofNat (0xF0 + c.toNat / 262144)).toNat = 0xF0 + c.toNat / 262144 := by
      rw [UInt8.toNat_ofNat']; omega
    refine ⟨_, _, by
      rw [Lead.ofByte?_eq, hb, if_neg (by omega), if_neg (by omega), if_neg (by omega),
        if_neg (by omega), if_pos (by omega)], ?_, ?_, ?_⟩
    · simp
    · intro f hf
      cases Nat.succ.inj hf
      simp only
      split <;> simp only [UInt8.reduceToNat] <;> omega
    · intro f hf
      cases Nat.succ.inj hf
      simp only
      split <;> simp only [UInt8.reduceToNat] <;> omega

/-- A byte string begins with a character exactly if it begins with its encoding. -/
theorem front_eq_scalar_iff {bytes : List UInt8} {c : Char} {n : Nat} :
    front bytes = .scalar c n ↔ n = c.utf8Size ∧ String.utf8EncodeChar c <+: bytes := by
  constructor
  · intro h
    cases bytes with
    | nil => simp [front] at h
    | cons b bytes =>
      rw [front] at h
      split at h
      next => simp at h
      next l hl =>
        obtain ⟨hlow, hhigh⟩ := Lead.range hl
        obtain ⟨rfl, announced, rest⟩ := (Front.rest_iff hlow hhigh).mp h
        have he := Lead.encode_of_announces hl announced
        have hsize := String.length_utf8EncodeChar c
        rw [he, List.length_cons, length_tail] at hsize
        exact ⟨hsize, he ▸ List.cons_prefix_cons.mpr ⟨rfl, rest⟩⟩
  · rintro ⟨rfl, h⟩
    obtain ⟨b, l, hl, announced⟩ := Lead.exists_announces c
    have he := Lead.encode_of_announces hl announced
    have hsize := String.length_utf8EncodeChar c
    rw [he, List.length_cons, length_tail] at hsize
    obtain ⟨more, rfl⟩ := h
    obtain ⟨hlow, hhigh⟩ := Lead.range hl
    rw [he, List.cons_append, front, hl]
    exact (Front.rest_iff hlow hhigh).mpr ⟨hsize.symm, announced, List.prefix_append _ _⟩

end TapeMachine.Utf8
