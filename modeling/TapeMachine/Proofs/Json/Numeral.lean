import TapeMachine.Json.Token

namespace TapeMachine.Json

/-- No number goes on like this: there is nothing more, or what comes next belongs to no number. -/
def EndsNumber (rest : List Char) : Prop :=
  ∀ c ∈ rest.head?, c.isDigit = false ∧ c ≠ '.' ∧ c ≠ 'e' ∧ c ≠ 'E'

theorem endsNumber_nil : EndsNumber [] := by simp [EndsNumber]

theorem digits_append {ds rest : List Char} (all : ∀ d ∈ ds, d.isDigit) (ends : EndsNumber rest) :
    digits (ds ++ rest) = (ds, rest) := by
  rw [digits, List.takeWhile_append_of_pos all, List.dropWhile_append_of_pos all]
  cases rest with
  | nil => simp
  | cons c rest =>
    have other := (ends c rfl).1
    simp [other]

theorem readFraction_of_ends {rest : List Char} (ends : EndsNumber rest) :
    readFraction rest = some (none, rest) := by
  unfold readFraction
  split
  next cs => exact absurd rfl (ends '.' rfl).2.1
  next => rfl

theorem readExponent_of_ends {rest : List Char} (ends : EndsNumber rest) :
    readExponent rest = some (none, rest) := by
  cases rest with
  | nil => rfl
  | cons c rest =>
    obtain ⟨-, -, lower, upper⟩ := ends c rfl
    exact if_neg (not_or.mpr ⟨lower, upper⟩)

theorem digitChar_ne_zero : ∀ d < 10, d ≠ 0 → d.digitChar ≠ '0' := by decide

theorem digitValue_digitChar : ∀ d < 10, digitValue d.digitChar = d := by decide

theorem isDigit_printNatural (n : Nat) : ∀ d ∈ printNatural n, d.isDigit :=
  fun _ => Nat.isDigit_of_mem_toDigits (by decide) (Nat.le_refl 10)

theorem exists_printNatural_eq_cons (n : Nat) : ∃ d ds, printNatural n = d :: ds ∧ d.isDigit := by
  have all := isDigit_printNatural n
  obtain ⟨d, ds, first⟩ := List.exists_cons_of_ne_nil (l := printNatural n) Nat.toDigits_ne_nil
  rw [first] at all
  exact ⟨d, ds, first, all d List.mem_cons_self⟩

theorem printNatural_of_lt {n : Nat} (small : n < 10) : printNatural n = [n.digitChar] :=
  Nat.toDigits_of_lt_base small

theorem printNatural_of_le {n : Nat} (large : 10 ≤ n) :
    printNatural n = printNatural (n / 10) ++ [(n % 10).digitChar] :=
  Nat.toDigits_of_base_le (by decide) large

theorem head?_printNatural {n : Nat} (positive : n ≠ 0) : (printNatural n).head? ≠ some '0' := by
  induction n using Nat.strongRecOn with
  | ind n ih =>
    by_cases small : n < 10
    · rw [printNatural_of_lt small, List.head?_cons]
      intro h
      exact digitChar_ne_zero n small positive (Option.some.inj h)
    · have front := ih (n / 10) (by omega) (by omega)
      obtain ⟨d, ds, first, -⟩ := exists_printNatural_eq_cons (n / 10)
      rw [first] at front
      rwa [printNatural_of_le (by omega), first]

theorem printNatural_ne_zero_cons {n : Nat} {d : Char} {ds : List Char} :
    printNatural n ≠ '0' :: d :: ds := by
  intro h
  by_cases zero : n = 0
  · subst zero
    cases h
  · exact head?_printNatural zero (by rw [h]; rfl)

theorem read?_printNatural (n : Nat) {rest : List Char} (ends : EndsNumber rest) :
    Spelling.read? (printNatural n ++ rest) = some (⟨false, printNatural n, none, none⟩, rest) := by
  have whole := digits_append (isDigit_printNatural n) ends
  obtain ⟨d, ds, first, digit⟩ := exists_printNatural_eq_cons n
  have plain : d ≠ '-' := by
    rintro rfl
    cases digit
  unfold Spelling.read?
  split
  next negative cs sign =>
    rw [first] at sign
    have unsigned : (false, d :: ds ++ rest) = (negative, cs) := by
      rw [← sign]
      split
      next he => exact absurd (List.cons.inj he).1 plain
      next => rfl
    obtain ⟨rfl, rfl⟩ := Prod.mk.inj unsigned
    -- What is refused here has no digits, or a zero in front of another digit.
    rw [← first, whole]
    split
    next he =>
      rw [first] at he
      cases (Prod.mk.inj he).1
    next he => exact absurd (Prod.mk.inj he).1 printNatural_ne_zero_cons
    next he =>
      obtain ⟨rfl, rfl⟩ := Prod.mk.inj he
      simp [readFraction_of_ends ends, readExponent_of_ends ends]

theorem Scaled.addWhole_append (s : Scaled) (xs ys : List Char) :
    s.addWhole (xs ++ ys) = (s.addWhole xs).addWhole ys := by
  induction xs generalizing s with
  | nil => rfl
  | cons d xs ih =>
    rw [List.cons_append, addWhole, addWhole]
    split
    next => exact ih _
    next => exact ih _

/-- The significand has room for all digits of a number that 64 bits hold. -/
theorem addWhole_printNatural {n : Nat} (small : n < UInt64.size) :
    Scaled.addWhole ⟨0, 0⟩ (printNatural n) = ⟨n, 0⟩ := by
  induction n using Nat.strongRecOn with
  | ind n ih =>
    by_cases digit : n < 10
    · have value := digitValue_digitChar n digit
      rw [printNatural_of_lt digit, Scaled.addWhole, value, Nat.zero_mul, Nat.zero_add,
        if_pos ⟨rfl, small⟩]
      rfl
    · have front := ih (n / 10) (by omega) (by omega)
      have value := digitValue_digitChar (n % 10) (by omega)
      have whole : n / 10 * 10 + n % 10 = n := Nat.div_add_mod' n 10
      rw [printNatural_of_le (by omega), Scaled.addWhole_append, front, Scaled.addWhole, value,
        whole, if_pos ⟨rfl, small⟩]
      rfl

theorem value?_printNatural {n : Nat} (small : n < UInt64.size) :
    (⟨false, printNatural n, none, none⟩ : Spelling).value? = some (.natural n.toUInt64) := by
  rw [Spelling.value?, addWhole_printNatural small]
  rfl

theorem readToken_of_digit {d : Char} (digit : d.isDigit) (cs : List Char) :
    readToken (d :: cs) =
      (Spelling.read? (d :: cs)).map fun (spelling, rest) => (.number spelling.value?, rest) := by
  unfold readToken
  split
  case h_11 => cases Spelling.read? (d :: cs) <;> rfl
  all_goals
    next he =>
      obtain ⟨rfl, -⟩ := List.cons.inj he
      cases digit

theorem readToken_printNatural {n : Nat} (small : n < UInt64.size) {rest : List Char}
    (ends : EndsNumber rest) :
    readToken (printNatural n ++ rest) = some (.number (some (.natural n.toUInt64)), rest) := by
  have read := read?_printNatural n ends
  obtain ⟨d, ds, first, digit⟩ := exists_printNatural_eq_cons n
  rw [first, List.cons_append] at read ⊢
  have value := value?_printNatural small
  rw [readToken_of_digit digit, read, ← first]
  simp only [Option.map_some, value]

/-- What is read at the front of a text is read there, too, if a text follows with which no number
goes on. -/
def Local {α : Type} (read : List Char → Option (α × List Char)) : Prop :=
  ∀ cs a more, read cs = some (a, more) →
    ∀ rest, EndsNumber rest → read (cs ++ rest) = some (a, more ++ rest)

theorem digits_append_rest (cs : List Char) {rest : List Char} (ends : EndsNumber rest) :
    digits (cs ++ rest) = ((digits cs).1, (digits cs).2 ++ rest) := by
  induction cs with
  | nil => exact @digits_append [] rest (by simp) ends
  | cons c cs ih =>
    obtain ⟨front, back⟩ := Prod.mk.inj ih
    by_cases digit : c.isDigit = true
    · simp only [digits, List.cons_append, List.takeWhile_cons_of_pos digit,
        List.dropWhile_cons_of_pos digit] at front back ⊢
      rw [front, back]
    · simp only [digits, List.cons_append, List.takeWhile_cons_of_neg digit,
        List.dropWhile_cons_of_neg digit]

theorem local_readPower (negative : Bool) : Local (readPower negative) := by
  intro cs power more h rest ends
  have apart := digits_append_rest cs ends
  rw [readPower] at h ⊢
  rcases found : digits cs with ⟨ds, back⟩
  rw [found] at apart h
  rw [apart]
  cases ds with
  | nil => cases h
  | cons d ds =>
    cases h
    rfl

theorem local_readFraction : Local readFraction := by
  intro cs fraction more h rest ends
  cases cs with
  | nil =>
    cases h
    exact readFraction_of_ends ends
  | cons c cs =>
    by_cases point : c = '.'
    · subst point
      have apart := digits_append_rest cs ends
      rw [List.cons_append]
      rw [readFraction] at h ⊢
      rcases found : digits cs with ⟨ds, back⟩
      rw [found] at apart h
      rw [apart]
      cases ds with
      | nil => cases h
      | cons d ds =>
        cases h
        rfl
    · have none (cs : List Char) : readFraction (c :: cs) = some (none, c :: cs) := by
        unfold readFraction
        split
        next he => exact absurd (List.cons.inj he).1 point
        next => rfl
      rw [none] at h
      cases h
      exact none (cs ++ rest)

theorem readExponent_unsigned {c d : Char} (letter : c = 'e' ∨ c = 'E') (plus : d ≠ '+')
    (minus : d ≠ '-') (cs : List Char) :
    readExponent (c :: d :: cs) = readPower false (d :: cs) := by
  refine (if_pos letter).trans ?_
  split
  next he => exact absurd (List.cons.inj he).1 plus
  next he => exact absurd (List.cons.inj he).1 minus
  next => rfl

theorem local_readExponent : Local readExponent := by
  intro cs exponent more h rest ends
  match cs with
  | [] =>
    cases h
    exact readExponent_of_ends ends
  | c :: cs =>
    by_cases letter : c = 'e' ∨ c = 'E'
    · match cs with
      | [] =>
        have none : readExponent [c] = none := if_pos letter
        rw [none] at h
        cases h
      | d :: cs =>
        simp only [List.cons_append]
        by_cases plus : d = '+'
        · subst plus
          rw [readExponent, if_pos letter] at h ⊢
          exact local_readPower false cs exponent more h rest ends
        by_cases minus : d = '-'
        · subst minus
          rw [readExponent, if_pos letter] at h ⊢
          exact local_readPower true cs exponent more h rest ends
        rw [readExponent_unsigned letter plus minus] at h ⊢
        exact local_readPower false (d :: cs) exponent more h rest ends
    · have none (cs : List Char) : readExponent (c :: cs) = some (none, c :: cs) := if_neg letter
      rw [none] at h
      cases h
      exact none (cs ++ rest)

namespace Spelling

def whole? : List Char × List Char → Option (List Char × List Char)
  | ([], _) => none
  | ('0' :: _ :: _, _) => none
  | (ds, rest) => some (ds, rest)

theorem whole?_eq_some_iff {ds back : List Char} {found : List Char × List Char} :
    whole? (ds, back) = some found ↔
      ds ≠ [] ∧ (∀ d tail, ds ≠ '0' :: d :: tail) ∧ found = (ds, back) := by
  unfold whole?
  split
  next he =>
    obtain ⟨rfl, rfl⟩ := Prod.mk.inj he
    simp
  next he =>
    obtain ⟨rfl, rfl⟩ := Prod.mk.inj he
    simp
  next nonempty plain he =>
    obtain ⟨rfl, rfl⟩ := Prod.mk.inj he
    exact ⟨fun h => ⟨nonempty, plain, (Option.some.inj h).symm⟩, fun h => by rw [h.2.2]⟩

def readUnsigned? (negative : Bool) (cs : List Char) : Option (Spelling × List Char) :=
  (whole? (digits cs)).bind fun (whole, cs) =>
    (readFraction cs).bind fun (fraction, cs) =>
      (readExponent cs).map fun (exponent, cs) => (⟨negative, whole, fraction, exponent⟩, cs)

theorem read?_of_sign {cs unsigned : List Char} {negative : Bool}
    (sign : (match cs with
      | '-' :: rest => (true, rest)
      | cs => (false, cs)) = (negative, unsigned)) :
    read? cs = readUnsigned? negative unsigned := by
  unfold read?
  split
  next negative' rest he =>
    obtain ⟨rfl, rfl⟩ := Prod.mk.inj (he.symm.trans sign)
    rw [readUnsigned?]
    generalize digits rest = found
    split
    next => rfl
    next => rfl
    next ds back empty zero =>
      have whole : whole? (ds, back) = some (ds, back) :=
        whole?_eq_some_iff.mpr ⟨empty, zero, rfl⟩
      rw [whole]
      change (readFraction back).bind _ = (readFraction back).bind _
      cases readFraction back with
      | none => rfl
      | some found =>
        change (readExponent found.2).bind _ = (readExponent found.2).map _
        cases readExponent found.2 <;> rfl

theorem read?_minus (cs : List Char) : read? ('-' :: cs) = readUnsigned? true cs :=
  read?_of_sign rfl

theorem read?_cons {c : Char} (unsigned : c ≠ '-') (cs : List Char) :
    read? (c :: cs) = readUnsigned? false (c :: cs) := by
  apply read?_of_sign
  split
  next he => exact absurd (List.cons.inj he).1 unsigned
  next => rfl

theorem local_whole? : Local fun cs => whole? (digits cs) := by
  intro cs whole more h rest ends
  have apart := digits_append_rest cs ends
  dsimp only at h ⊢
  rw [apart]
  generalize digits cs = found at h ⊢
  obtain ⟨nonempty, plain, same⟩ := whole?_eq_some_iff.mp h
  cases same
  exact whole?_eq_some_iff.mpr ⟨nonempty, plain, rfl⟩

theorem local_readUnsigned? (negative : Bool) : Local (readUnsigned? negative) := by
  intro cs spelling more h rest ends
  simp only [readUnsigned?, Option.bind_eq_some_iff, Option.map_eq_some_iff] at h ⊢
  obtain ⟨⟨whole, cs₁⟩, front, ⟨fraction, cs₂⟩, point, ⟨exponent, cs₃⟩, power, result⟩ := h
  cases result
  exact ⟨_, local_whole? _ _ _ front _ ends, _, local_readFraction _ _ _ point _ ends, _,
    local_readExponent _ _ _ power _ ends, rfl⟩

/-- A number is read to where no number goes on. -/
theorem local_read? : Local read? := by
  intro cs spelling more h rest ends
  cases cs with
  | nil => cases h
  | cons c cs =>
    rw [List.cons_append]
    by_cases minus : c = '-'
    · subst minus
      rw [read?_minus] at h ⊢
      exact local_readUnsigned? true cs spelling more h rest ends
    · rw [read?_cons minus] at h ⊢
      exact local_readUnsigned? false (c :: cs) spelling more h rest ends

end Spelling

end TapeMachine.Json
