import TapeMachine.Alphabet
import TapeMachine.Decimal
import TapeMachine.Text

namespace TapeMachine.Text

def hexDigit (d : Nat) : Char := d.digitChar.toUpper

def hexValue? (c : Char) : Option Nat :=
  if '0' ≤ c ∧ c ≤ '9' then some (c.toNat - '0'.toNat)
  else if 'A' ≤ c ∧ c ≤ 'F' then some (c.toNat - 'A'.toNat + 10)
  else none

/-- Reads hexadecimal digits, none of which may be in lower case. -/
def ofHexDigits? (cs : List Char) : Option Nat :=
  cs.foldlM (fun n c => (hexValue? c).map (16 * n + ·)) 0

/-- These are the digits of a number, and none of them could be left out without falling short of
the width. -/
structure IsHexNumeral (width n : Nat) (digits : List Char) : Prop where
  value : ofHexDigits? digits = some n
  width_le : width ≤ digits.length
  unpadded : width < digits.length → digits.head? ≠ some '0'

theorem hexValue?_hexDigit : ∀ d < 16, hexValue? (hexDigit d) = some d := by decide

theorem hexDigit_ne_zero : ∀ d < 16, d ≠ 0 → hexDigit d ≠ '0' := by decide

theorem toNat_of_hexValue? {c : Char} {d : Nat} (h : hexValue? c = some d) :
    ('0'.toNat ≤ c.toNat ∧ c.toNat ≤ '9'.toNat) ∨ ('A'.toNat ≤ c.toNat ∧ c.toNat ≤ 'F'.toNat) := by
  unfold hexValue? at h
  split at h
  next range => exact Or.inl range
  next =>
    split at h
    next range => exact Or.inr range
    next => cases h

theorem hexValue?_of_read {cs : List Char} {m n : Nat}
    (read : cs.foldlM (fun n c => (hexValue? c).map (16 * n + ·)) m = some n) :
    ∀ c ∈ cs, ∃ d, hexValue? c = some d := by
  induction cs generalizing m with
  | nil => simp
  | cons c cs ih =>
    rw [List.foldlM_cons] at read
    obtain ⟨k, hk, rest⟩ := Option.bind_eq_some_iff.mp read
    obtain ⟨d, hd, -⟩ := Option.map_eq_some_iff.mp hk
    intro x hx
    rcases List.mem_cons.mp hx with rfl | hx
    · exact ⟨d, hd⟩
    · exact ih rest x hx

def bareHexDigits (n : Nat) : List Char := (Nat.toDigits 16 n).map Char.toUpper

theorem bareHexDigits_of_lt {n : Nat} (h : n < 16) : bareHexDigits n = [hexDigit n] := by
  rw [bareHexDigits, Nat.toDigits_of_lt_base h]
  rfl

theorem bareHexDigits_of_le {n : Nat} (h : 16 ≤ n) :
    bareHexDigits n = bareHexDigits (n / 16) ++ [hexDigit (n % 16)] := by
  rw [bareHexDigits, Nat.toDigits_of_base_le (by decide) h, List.map_append]
  rfl

theorem ofHexDigits?_concat {cs : List Char} {n d : Nat} (read : ofHexDigits? cs = some n)
    (small : d < 16) : ofHexDigits? (cs ++ [hexDigit d]) = some (16 * n + d) := by
  unfold ofHexDigits? at read ⊢
  rw [List.foldlM_append, read]
  simp [hexValue?_hexDigit d small]

theorem ofHexDigits?_bareHexDigits (n : Nat) : ofHexDigits? (bareHexDigits n) = some n := by
  induction n using Nat.strongRecOn with
  | ind n ih =>
    by_cases small : n < 16
    · rw [bareHexDigits_of_lt small]
      have empty : ofHexDigits? [] = some 0 := rfl
      have last := ofHexDigits?_concat empty small
      rwa [Nat.mul_zero, Nat.zero_add] at last
    · have shorter : n / 16 < n := by omega
      have whole : 16 * (n / 16) + n % 16 = n := Nat.div_add_mod n 16
      rw [bareHexDigits_of_le (by omega), ofHexDigits?_concat (ih _ shorter) (by omega), whole]

theorem head?_bareHexDigits {n : Nat} (positive : n ≠ 0) : (bareHexDigits n).head? ≠ some '0' := by
  induction n using Nat.strongRecOn with
  | ind n ih =>
    by_cases small : n < 16
    · rw [bareHexDigits_of_lt small, List.head?_cons]
      intro h
      exact hexDigit_ne_zero n small positive (Option.some.inj h)
    · have front := ih (n / 16) (by omega) (by omega)
      rw [bareHexDigits_of_le (by omega), List.head?_append]
      cases head : (bareHexDigits (n / 16)).head? with
      | none =>
        have value := ofHexDigits?_bareHexDigits (n / 16)
        rw [List.head?_eq_none_iff.mp head] at value
        have zero : n / 16 = 0 := (Option.some.inj value).symm
        omega
      | some c =>
        rw [head] at front
        exact front

theorem hexDigits_eq (width n : Nat) :
    hexDigits width n =
      List.replicate (width - (bareHexDigits n).length) '0' ++ bareHexDigits n := rfl

theorem ofHexDigits?_zeros (k : Nat) (cs : List Char) :
    ofHexDigits? (List.replicate k '0' ++ cs) = ofHexDigits? cs := by
  induction k with
  | zero => rfl
  | succ k ih =>
    rw [List.replicate_succ, List.cons_append, ← ih]
    rfl

theorem isHexNumeral_hexDigits {width : Nat} (positive : 0 < width) (n : Nat) :
    IsHexNumeral width n (hexDigits width n) := by
  have length : (hexDigits width n).length =
      (width - (bareHexDigits n).length) + (bareHexDigits n).length := by
    rw [hexDigits_eq, List.length_append, List.length_replicate]
  refine ⟨?_, by omega, ?_⟩
  · rw [hexDigits_eq, ofHexDigits?_zeros, ofHexDigits?_bareHexDigits]
  · intro longer
    have none : width - (bareHexDigits n).length = 0 := by omega
    rw [hexDigits_eq, none, List.replicate_zero, List.nil_append]
    apply head?_bareHexDigits
    rintro rfl
    have one : (bareHexDigits 0).length = 1 := rfl
    omega

theorem IsHexNumeral.toNat_of_mem {width n : Nat} {digits : List Char}
    (h : IsHexNumeral width n digits) {c : Char} (hc : c ∈ digits) :
    ('0'.toNat ≤ c.toNat ∧ c.toNat ≤ '9'.toNat) ∨ ('A'.toNat ≤ c.toNat ∧ c.toNat ≤ 'F'.toNat) := by
  obtain ⟨d, hd⟩ := hexValue?_of_read h.value c hc
  exact toNat_of_hexValue? hd

end TapeMachine.Text

namespace TapeMachine

namespace Text

def lineBreaks (s : String) : Nat := s.toList.count '\n'

@[simp] theorem lineBreaks_append (s t : String) :
    lineBreaks (s ++ t) = lineBreaks s + lineBreaks t := by
  rw [lineBreaks, String.toList_append, List.count_append, lineBreaks, lineBreaks]

theorem lineBreaks_eq_zero {s : String} : lineBreaks s = 0 ↔ '\n' ∉ s.toList := List.count_eq_zero

theorem lineBreaks_ofList {cs : List Char} (unbroken : '\n' ∉ cs) :
    lineBreaks (String.ofList cs) = 0 := by
  rw [lineBreaks_eq_zero, String.toList_ofList]
  exact unbroken

theorem newline_notMem_toDigits (base : Nat) (valid : 1 < base) (n : Nat) :
    '\n' ∉ Nat.toDigits base n := by
  have digit (d : Nat) : '\n' ≠ d.digitChar := (Nat.digitChar_ne '\n' (by decide)).symm
  induction n using Nat.strongRecOn with
  | ind n ih =>
    by_cases small : n < base
    · rw [Nat.toDigits_of_lt_base small, List.mem_singleton]
      exact digit n
    · have smaller : n / base < n := Nat.div_lt_self (by omega) valid
      rw [Nat.toDigits_of_base_le valid (by omega), List.mem_append, List.mem_singleton, not_or]
      exact ⟨ih _ smaller, digit _⟩

@[simp] theorem lineBreaks_decimal (n : Nat) : lineBreaks (decimal n) = 0 :=
  lineBreaks_ofList (newline_notMem_toDigits 10 (by decide) n)

@[simp] theorem lineBreaks_signedDecimal (i : Int) : lineBreaks (signedDecimal i) = 0 := by
  unfold signedDecimal
  split
  · rw [lineBreaks_append, lineBreaks_decimal]
    rfl
  · exact lineBreaks_decimal _

theorem newline_notMem_quotedChar (c : Char) : '\n' ∉ quotedChar c := by
  unfold quotedChar
  split
  case h_7 _ other _ _ _ =>
    split
    · rw [List.mem_singleton]
      exact Ne.symm other
    · have digits := newline_notMem_toDigits 16 (by decide) c.toNat
      simp [lowerHexDigits, List.leftpad, List.mem_replicate, digits]
  all_goals decide

@[simp] theorem lineBreaks_quoted (s : String) : lineBreaks (quoted s) = 0 := by
  apply lineBreaks_ofList
  simp [newline_notMem_quotedChar]

end Text

namespace Symbol

@[simp] theorem lineBreaks_label (s : Symbol) : Text.lineBreaks s.label = 0 := by
  have digits : '\n' ∉ Text.hexDigits 4 s.code.toNat := by
    intro h
    have range := (Text.isHexNumeral_hexDigits (by decide) _).toNat_of_mem h
    revert range
    decide
  rw [label, Text.lineBreaks_append, Text.lineBreaks_ofList digits]
  rfl

end Symbol

namespace Decimal

variable {digits : List Char}

theorem newline_notMem_positional (unbroken : '\n' ∉ digits) (whole : Int) :
    '\n' ∉ positional digits whole := by
  have front : '\n' ∉ digits.take whole.toNat := fun h => unbroken (List.mem_of_mem_take h)
  have back : '\n' ∉ digits.drop whole.toNat := fun h => unbroken (List.mem_of_mem_drop h)
  unfold positional
  split
  · simp [List.mem_replicate, unbroken]
  · split
    · simp [List.mem_replicate, unbroken]
    · simp [front, back]

theorem newline_notMem_scientific (unbroken : '\n' ∉ digits) (power : Int) :
    '\n' ∉ scientific digits power := by
  have front : '\n' ∉ digits.take 1 := fun h => unbroken (List.mem_of_mem_take h)
  have back : '\n' ∉ digits.drop 1 := fun h => unbroken (List.mem_of_mem_drop h)
  have exponent := Text.newline_notMem_toDigits 10 (by decide) power.natAbs
  unfold scientific
  have sign : (if power < 0 then '-' else '+') ≠ '\n' := by split <;> decide
  have fraction : '\n' ∉ (if digits.length ≤ 1 then [] else '.' :: digits.drop 1) := by
    split
    · exact List.not_mem_nil
    · simpa using back
  simp only [List.mem_append, List.mem_cons, List.not_mem_nil, or_false, not_or]
  exact ⟨⟨⟨front, fraction⟩, by decide, sign.symm⟩, exponent⟩

@[simp] theorem lineBreaks_text (n : Layout) (x : Float) : Text.lineBreaks (n.text x) = 0 := by
  have digits := Text.newline_notMem_toDigits 10 (by decide)
  have sign : '\n' ∉ (if x.toBits.toNat >>> 63 = 1 then ['-'] else []) := by split <;> decide
  apply Text.lineBreaks_ofList
  rw [List.mem_append, not_or]
  refine ⟨sign, ?_⟩
  split
  · exact newline_notMem_positional (digits _) _
  · exact newline_notMem_scientific (digits _) _

end Decimal

end TapeMachine
