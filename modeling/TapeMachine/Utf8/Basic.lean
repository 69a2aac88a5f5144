namespace TapeMachine.Utf8

/-- How a byte string begins: with the encoding of a character, with bytes that no continuation
can make well-formed, or with a proper part of an encoding that ends where the string ends. -/
inductive Front where
  | scalar (c : Char) (size : Nat)
  | invalid
  | incomplete
deriving DecidableEq

/-- What a lead byte announces: the number of bytes that follow it, the least and the greatest
byte allowed right after it, and its own payload bits. -/
structure Lead where
  follow : Nat
  low : UInt8
  high : UInt8
  payload : Nat

/-- The lead bytes. The ranges after E0, ED, F0 and F4 exclude overlong forms, surrogates and
values past U+10FFFF; C0, C1 and F5 to FF begin nothing. -/
def Lead.ofByte? (b : UInt8) : Option Lead :=
  if b < 0x80 then some ⟨0, 0x80, 0xBF, b.toNat⟩
  else if b < 0xC2 then none
  else if b < 0xE0 then some ⟨1, 0x80, 0xBF, b.toNat - 0xC0⟩
  else if b = 0xE0 then some ⟨2, 0xA0, 0xBF, 0⟩
  else if b = 0xED then some ⟨2, 0x80, 0x9F, 0xD⟩
  else if b < 0xF0 then some ⟨2, 0x80, 0xBF, b.toNat - 0xE0⟩
  else if b = 0xF0 then some ⟨3, 0x90, 0xBF, 0⟩
  else if b < 0xF4 then some ⟨3, 0x80, 0xBF, b.toNat - 0xF0⟩
  else if b = 0xF4 then some ⟨3, 0x80, 0x8F, 4⟩
  else none

/-- Reads `follow` more bytes of a sequence of `size` bytes whose payload so far is `value`; the
first of them lies between `low` and `high`, the others between 80 and BF. -/
def Front.rest (size : Nat) : (follow : Nat) → (low high : UInt8) → (value : Nat) → List UInt8 → Front
  | 0, _, _, value, _ =>
    if value.isValidChar then .scalar (Char.ofNat value) size else .invalid
  | _ + 1, _, _, _, [] => .incomplete
  | follow + 1, low, high, value, b :: bytes =>
    if low ≤ b ∧ b ≤ high then
      Front.rest size follow 0x80 0xBF (value * 64 + (b.toNat - 0x80)) bytes
    else .invalid

def front : List UInt8 → Front
  | [] => .incomplete
  | b :: bytes =>
    match Lead.ofByte? b with
    | none => .invalid
    | some l => Front.rest (l.follow + 1) l.follow l.low l.high l.payload bytes

theorem Lead.follow_le_three {b : UInt8} {l : Lead} (h : Lead.ofByte? b = some l) :
    l.follow ≤ 3 := by
  unfold Lead.ofByte? at h
  repeat' split at h
  all_goals simp only [Option.some.injEq, reduceCtorEq] at h
  all_goals simp [← h]

theorem Front.size_of_rest {size follow value n : Nat} {low high : UInt8} {bytes : List UInt8}
    {c : Char} (h : Front.rest size follow low high value bytes = .scalar c n) : n = size := by
  induction follow generalizing low high value bytes with
  | zero =>
    by_cases valid : value.isValidChar
    · rw [Front.rest, if_pos valid] at h
      exact (Front.scalar.inj h).2.symm
    · rw [Front.rest, if_neg valid] at h
      cases h
  | succ follow ih =>
    cases bytes with
    | nil => simp [Front.rest] at h
    | cons b bytes =>
      unfold Front.rest at h
      split at h
      next => exact ih h
      next => simp at h

theorem Front.complete_of_rest_zero {size value : Nat} {low high : UInt8} {bytes : List UInt8} :
    Front.rest size 0 low high value bytes ≠ .incomplete := by
  intro h
  by_cases valid : value.isValidChar
  · rw [Front.rest, if_pos valid] at h
    cases h
  · rw [Front.rest, if_neg valid] at h
    cases h

theorem Front.length_lt_of_rest {size follow value : Nat} {low high : UInt8} {bytes : List UInt8}
    (h : Front.rest size follow low high value bytes = .incomplete) : bytes.length < follow := by
  induction follow generalizing low high value bytes with
  | zero => exact absurd h Front.complete_of_rest_zero
  | succ follow ih =>
    cases bytes with
    | nil => simp
    | cons b bytes =>
      unfold Front.rest at h
      split at h
      next =>
        have := ih h
        simp only [List.length_cons]
        omega
      next => simp at h

theorem size_pos_of_front {bytes : List UInt8} {c : Char} {n : Nat}
    (h : front bytes = .scalar c n) : 0 < n := by
  unfold front at h
  split at h
  next => simp at h
  next =>
    split at h
    next => simp at h
    next =>
      have := Front.size_of_rest h
      omega

theorem length_le_three_of_front {bytes : List UInt8} (h : front bytes = .incomplete) :
    bytes.length ≤ 3 := by
  unfold front at h
  split at h
  next => simp
  next =>
    split at h
    next => simp at h
    next he =>
      have := Front.length_lt_of_rest h
      have := Lead.follow_le_three he
      simp only [List.length_cons]
      omega

def encode (cs : List Char) : List UInt8 := cs.flatMap String.utf8EncodeChar

def bytesOf (s : String) : List UInt8 := encode s.toList

/-- The characters of a byte string that is well-formed throughout. -/
def decode? : List UInt8 → Option (List Char)
  | [] => some []
  | b :: bytes =>
    match front (b :: bytes) with
    | .scalar c size => (decode? (bytes.drop (size - 1))).map (c :: ·)
    | _ => none
termination_by bytes => bytes.length
decreasing_by simp only [List.length_cons, List.length_drop]; omega

/-- The length of the longest start of `bytes` that some continuation would make well-formed, and
1 if there is none: the bytes that one replacement character stands for. -/
def brokenSize (bytes : List UInt8) : Nat :=
  if front (bytes.take 3) = .incomplete then 3
  else if front (bytes.take 2) = .incomplete then 2
  else 1

/-- Reads any byte string: every maximal malformed part becomes one U+FFFD. -/
def decodeLossy : List UInt8 → List Char
  | [] => []
  | b :: bytes =>
    match front (b :: bytes) with
    | .scalar c size => c :: decodeLossy (bytes.drop (size - 1))
    | .incomplete => ['\uFFFD']
    | .invalid => '\uFFFD' :: decodeLossy (bytes.drop (brokenSize (b :: bytes) - 1))
termination_by bytes => bytes.length
decreasing_by all_goals simp only [List.length_cons, List.length_drop]; omega

def lossyText (bytes : List UInt8) : String := String.ofList (decodeLossy bytes)

end TapeMachine.Utf8
