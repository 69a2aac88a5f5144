import Mathlib.Data.List.Forall2
import TapeMachine.Json.Token
import TapeMachine.Proofs.Json.Numeral

namespace TapeMachine.Json

theorem lowerHexDigits_control : ∀ n < 0x20,
    Text.lowerHexDigits 4 n = ['0', '0', (n / 16).digitChar, (n % 16).digitChar] ∧
      hexUnit? '0' '0' (n / 16).digitChar (n % 16).digitChar = some n := by decide

/-- A piece that is read as just this character, whatever pieces come after it. -/
def Piece.StandsFor (p : Piece) (c : Char) : Prop :=
  ∀ ps, joinPieces (p :: ps) = (joinPieces ps).map (c :: ·)

theorem Piece.standsFor_char (c : Char) : (Piece.char c).StandsFor c := fun _ => rfl

theorem Piece.standsFor_unit {c : Char} (control : c.toNat < 0x20) :
    (Piece.unit c.toNat).StandsFor c := by
  intro ps
  have high : isHighSurrogate c.toNat = false := by
    rw [isHighSurrogate, decide_eq_false (by omega), Bool.false_and]
  have low : isLowSurrogate c.toNat = false := by
    rw [isLowSurrogate, decide_eq_false (by omega), Bool.false_and]
  rw [joinPieces.eq_def]
  simp [high, low]

theorem readPieces_unit {c : Char} (control : c.toNat < 0x20) (rest : List Char) :
    readPieces ('\\' :: 'u' :: Text.lowerHexDigits 4 c.toNat ++ rest) =
      (readPieces rest).map fun (ps, rest) => (.unit c.toNat :: ps, rest) := by
  obtain ⟨digits, value⟩ := lowerHexDigits_control c.toNat control
  simp only [digits, List.cons_append, List.nil_append, readPieces, value]
  cases readPieces rest <;> rfl

theorem readPieces_unescape {e c : Char} (escape : unescape? e = some c) (rest : List Char) :
    readPieces ('\\' :: e :: rest) =
      (readPieces rest).map fun (ps, rest) => (.char c :: ps, rest) := by
  have unnumbered : e ≠ 'u' := by
    rintro rfl
    cases escape
  -- The letter that announces a number is not one of those that stand for a character.
  rw [readPieces.eq_4 e rest fun _ _ _ _ _ he _ => unnumbered he, escape]
  cases readPieces rest <;> rfl

theorem readPieces_plain {c : Char} (printed : 0x20 ≤ c.toNat) (quote : c ≠ '"')
    (backslash : c ≠ '\\') (rest : List Char) :
    readPieces (c :: rest) = (readPieces rest).map fun (ps, rest) => (.char c :: ps, rest) := by
  rw [readPieces.eq_def]
  split
  next he => cases he
  next he => exact absurd (List.cons.inj he).1 quote
  next he => exact absurd (List.cons.inj he).1 backslash
  next he => exact absurd (List.cons.inj he).1 backslash
  next he =>
    obtain ⟨rfl, rfl⟩ := List.cons.inj he
    rw [if_neg (not_or.mpr ⟨Nat.not_lt_of_le printed, backslash⟩)]
    cases readPieces rest <;> rfl

theorem readPieces_escapeChar (c : Char) : ∃ p : Piece, p.StandsFor c ∧ ∀ rest,
    readPieces (escapeChar c ++ rest) =
      (readPieces rest).map fun (ps, rest) => (p :: ps, rest) := by
  unfold escapeChar
  split
  case h_8 quote backslash _ _ _ _ _ =>
    by_cases control : c.toNat < 0x20
    · rw [if_pos control]
      exact ⟨_, Piece.standsFor_unit control, readPieces_unit control⟩
    · rw [if_neg control]
      exact ⟨_, Piece.standsFor_char c,
        readPieces_plain (Nat.le_of_not_lt control) quote backslash⟩
  all_goals exact ⟨_, Piece.standsFor_char _, readPieces_unescape rfl⟩

/-- Up to the closing quote a string is read as pieces that stand for its characters. -/
theorem readPieces_quoted (cs rest : List Char) :
    ∃ ps, readPieces (cs.flatMap escapeChar ++ '"' :: rest) = some (ps, rest) ∧
      joinPieces ps = some cs := by
  induction cs with
  | nil => exact ⟨[], rfl, rfl⟩
  | cons c cs ih =>
    obtain ⟨ps, read, join⟩ := ih
    obtain ⟨p, stands, step⟩ := readPieces_escapeChar c
    refine ⟨p :: ps, ?_, ?_⟩
    · rw [List.flatMap_cons, List.append_assoc, step, read]
      rfl
    · rw [stands, join]
      rfl

theorem readToken_printString (s : String) (rest : List Char) :
    readToken (printString s ++ rest) = some (.string (some s), rest) := by
  obtain ⟨ps, read, join⟩ := readPieces_quoted s.toList rest
  have text : printString s ++ rest = '"' :: (s.toList.flatMap escapeChar ++ '"' :: rest) := by
    simp [printString]
  rw [text, readToken, read]
  simp [join]

/-- A text is cut into these tokens, with no white space between them. -/
inductive Cut : List Char → List Token → Prop where
  | nil : Cut [] []
  | lexeme {c : Char} {cs rest : List Char} {t : Token} {ts : List Token}
      (visible : isSpace c = false) (read : readToken (c :: cs ++ rest) = some (t, rest))
      (later : Cut rest ts) : Cut (c :: cs ++ rest) (t :: ts)

theorem isSpace_of_isDigit {d : Char} (digit : d.isDigit) : isSpace d = false := by
  simp only [isSpace, Bool.or_eq_false_iff, decide_eq_false_iff_not]
  refine ⟨⟨⟨?_, ?_⟩, ?_⟩, ?_⟩
  all_goals
    rintro rfl
    cases digit

namespace Cut

variable {rest : List Char} {us : List Token}

theorem tokensFrom {cs : List Char} {ts : List Token} (h : Cut cs ts) {fuel : Nat}
    (enough : cs.length < fuel) : tokensFrom fuel cs = ts := by
  induction h generalizing fuel with
  | nil =>
    obtain ⟨fuel, rfl⟩ := Nat.exists_eq_add_one.mpr enough
    rfl
  | @lexeme c cs rest t ts visible read later ih =>
    obtain ⟨fuel, rfl⟩ := Nat.exists_eq_add_one.mpr (Nat.zero_lt_of_lt enough)
    have shorter : rest.length < fuel := by
      simp only [List.length_cons, List.length_append] at enough
      omega
    have first : (c :: cs ++ rest).dropWhile isSpace = c :: cs ++ rest :=
      List.dropWhile_cons_of_neg (by simp [visible])
    rw [Json.tokensFrom, first]
    simp only [List.cons_append] at read ⊢
    simp only [read, ih shorter]

theorem tokens {cs : List Char} {ts : List Token} (h : Cut cs ts) :
    tokens (String.ofList cs) = ts := by
  rw [Json.tokens, String.toList_ofList]
  exact h.tokensFrom (Nat.lt_succ_self _)

theorem punctuation {c : Char} {t : Token} (visible : isSpace c = false)
    (read : readToken (c :: rest) = some (t, rest)) (later : Cut rest us) :
    Cut (c :: rest) (t :: us) :=
  @lexeme c [] rest t us visible read later

theorem string (s : String) (later : Cut rest us) :
    Cut (printString s ++ rest) (.string (some s) :: us) :=
  lexeme rfl (readToken_printString s rest) later

theorem natural {n : Nat} (small : n < UInt64.size) (ends : EndsNumber rest) (later : Cut rest us) :
    Cut (printNatural n ++ rest) (.number (some (.natural n.toUInt64)) :: us) := by
  have read := readToken_printNatural small ends
  obtain ⟨d, ds, first, digit⟩ := exists_printNatural_eq_cons n
  rw [first] at read ⊢
  exact lexeme (isSpace_of_isDigit digit) read later

end Cut

/-- Wherever this text stands for a value, it is cut into these tokens. -/
def Prints (cs : List Char) (ts : List Token) : Prop :=
  ∀ rest us, EndsNumber rest → Cut rest us → Cut (cs ++ rest) (ts ++ us)

theorem Prints.tokens {cs : List Char} {ts : List Token} (h : Prints cs ts) :
    tokens (String.ofList cs) = ts := by
  have whole := h [] [] endsNumber_nil .nil
  rw [List.append_nil, List.append_nil] at whole
  exact whole.tokens

theorem prints_natural {n : Nat} (small : n < UInt64.size) :
    Prints (printNatural n) [.number (some (.natural n.toUInt64))] :=
  fun _ _ ends later => .natural small ends later

theorem prints_string (s : String) : Prints (printString s) [.string (some s)] :=
  fun _ _ _ later => .string s later

theorem prints_intercalate {texts : List (List Char)} {tokens : List (List Token)}
    (h : List.Forall₂ Prints texts tokens) :
    Prints (List.intercalate [','] texts) (List.intercalate [.comma] tokens) := by
  intro rest us ends later
  induction h with
  | nil => exact later
  | @cons text ts texts tokens head tail ih =>
    cases tail with
    | nil =>
      rw [List.intercalate_singleton, List.intercalate_singleton]
      exact head rest us ends later
    | cons _ _ =>
      rw [List.intercalate_cons_cons, List.intercalate_cons_cons]
      simp only [List.append_assoc, List.singleton_append]
      exact head _ _ (by simp [EndsNumber]) (.punctuation rfl rfl ih)

def arrayTokens (items : List (List Token)) : List Token :=
  .openBracket :: List.intercalate [.comma] items ++ [.closeBracket]

def fieldTokens (f : String × List Token) : List Token := .string (some f.1) :: .colon :: f.2

def objectTokens (fields : List (String × List Token)) : List Token :=
  .openBrace :: List.intercalate [.comma] (fields.map fieldTokens) ++ [.closeBrace]

theorem Prints.between {first last : Char} {opening closing : Token} {cs : List Char}
    {ts : List Token} (h : Prints cs ts) (visible : isSpace first = false)
    (visible' : isSpace last = false)
    (opens : ∀ rest, readToken (first :: rest) = some (opening, rest))
    (closes : ∀ rest, readToken (last :: rest) = some (closing, rest))
    (ends : ∀ rest, EndsNumber (last :: rest)) :
    Prints (first :: cs ++ [last]) (opening :: ts ++ [closing]) := by
  intro rest us _ later
  simp only [List.cons_append, List.append_assoc, List.nil_append]
  have close : Cut (last :: rest) (closing :: us) := .punctuation visible' (closes rest) later
  exact .punctuation visible (opens _) (h _ _ (ends rest) close)

theorem prints_array {items : List (List Char)} {tokens : List (List Token)}
    (h : List.Forall₂ Prints items tokens) : Prints (printArray items) (arrayTokens tokens) :=
  (prints_intercalate h).between rfl rfl (fun _ => rfl) (fun _ => rfl) (by simp [EndsNumber])

theorem prints_field {name : String} {text : List Char} {ts : List Token} (h : Prints text ts) :
    Prints (printString name ++ ':' :: text) (fieldTokens (name, ts)) := by
  intro rest us ends later
  simp only [List.append_assoc, List.cons_append, fieldTokens]
  exact .string name (.punctuation rfl rfl (h rest us ends later))

theorem prints_object {fields : List (String × List Char)} {tokens : List (String × List Token)}
    (h : List.Forall₂ (fun f g => f.1 = g.1 ∧ Prints f.2 g.2) fields tokens) :
    Prints (printObject fields) (objectTokens tokens) := by
  have members : List.Forall₂ Prints (fields.map fun f => printString f.1 ++ ':' :: f.2)
      (tokens.map fieldTokens) := by
    rw [List.forall₂_map_left_iff, List.forall₂_map_right_iff]
    apply h.imp
    rintro ⟨name, text⟩ ⟨_, ts⟩ ⟨rfl, value⟩
    exact prints_field value
  exact (prints_intercalate members).between rfl rfl (fun _ => rfl) (fun _ => rfl)
    (by simp [EndsNumber])

end TapeMachine.Json
