import Mathlib.Data.List.TakeWhile
import TapeMachine.Proofs.Json.Lexing
import TapeMachine.Proofs.Json.Numeral

namespace TapeMachine.Json

/-- A piece of a string is written like this: as itself, after a backslash, or by number. -/
inductive Piece.Spelled : Piece → List Char → Prop where
  | plain {c : Char} (printed : 0x20 ≤ c.toNat) (quote : c ≠ '"') (backslash : c ≠ '\\') :
      Spelled (.char c) [c]
  | escaped {e c : Char} (escape : unescape? e = some c) : Spelled (.char c) ['\\', e]
  | numbered {a b c d : Char} {n : Nat} (digits : hexUnit? a b c d = some n) :
      Spelled (.unit n) ['\\', 'u', a, b, c, d]

theorem Piece.Spelled.read {p : Piece} {cs : List Char} (h : p.Spelled cs) (rest : List Char) :
    readPieces (cs ++ rest) = (readPieces rest).map fun (ps, rest) => (p :: ps, rest) := by
  cases h with
  | plain printed quote backslash => exact readPieces_plain printed quote backslash rest
  | escaped escape => exact readPieces_unescape escape rest
  | numbered digits =>
    simp only [List.cons_append, List.nil_append, readPieces, digits]
    cases readPieces rest <;> rfl

theorem readPieces_spelled {ps : List Piece} {parts : List (List Char)}
    (h : List.Forall₂ Piece.Spelled ps parts) (rest : List Char) :
    readPieces (parts.flatten ++ '"' :: rest) = some (ps, rest) := by
  induction h with
  | nil => rfl
  | cons head tail ih =>
    rw [List.flatten_cons, List.append_assoc, head.read, ih]
    rfl

/-- A token is written like this. -/
inductive Lexeme : Token → List Char → Prop where
  | openBrace : Lexeme .openBrace ['\x7b']
  | closeBrace : Lexeme .closeBrace ['\x7d']
  | openBracket : Lexeme .openBracket ['[']
  | closeBracket : Lexeme .closeBracket [']']
  | colon : Lexeme .colon [':']
  | comma : Lexeme .comma [',']
  | null : Lexeme .null ['n', 'u', 'l', 'l']
  | boolTrue : Lexeme (.bool true) ['t', 'r', 'u', 'e']
  | boolFalse : Lexeme (.bool false) ['f', 'a', 'l', 's', 'e']
  | number {cs : List Char} {spelling : Spelling}
      (whole : Spelling.read? cs = some (spelling, [])) : Lexeme (.number spelling.value?) cs
  | string {ps : List Piece} {parts : List (List Char)}
      (spelled : List.Forall₂ Piece.Spelled ps parts) :
      Lexeme (.string ((joinPieces ps).map String.ofList)) ('"' :: parts.flatten ++ ['"'])

theorem exists_cons_of_read? {cs rest : List Char} {spelling : Spelling}
    (h : Spelling.read? cs = some (spelling, rest)) :
    ∃ c more, cs = c :: more ∧ (c = '-' ∨ c.isDigit) := by
  cases cs with
  | nil => cases h
  | cons c more =>
    refine ⟨c, more, rfl, or_iff_not_imp_left.mpr fun unsigned => ?_⟩
    rw [Spelling.read?_cons unsigned, Spelling.readUnsigned?, Option.bind_eq_some_iff] at h
    obtain ⟨found, front, -⟩ := h
    by_contra digit
    rw [digits, List.takeWhile_cons_of_neg digit] at front
    exact (Spelling.whole?_eq_some_iff.mp front).1 rfl

theorem readToken_of_read? {cs rest : List Char} {spelling : Spelling}
    (h : Spelling.read? cs = some (spelling, rest)) :
    readToken cs = some (.number spelling.value?, rest) := by
  obtain ⟨c, more, rfl, begins⟩ := exists_cons_of_read? h
  unfold readToken
  split
  case h_11 =>
    rw [h]
    rfl
  all_goals
    next he =>
      obtain ⟨rfl, -⟩ := List.cons.inj he
      rcases begins with sign | digit
      · cases sign
      · cases digit

namespace Lexeme

variable {t : Token} {cs rest : List Char}

theorem read (h : Lexeme t cs) (apart : ∀ n, t = .number n → EndsNumber rest) :
    readToken (cs ++ rest) = some (t, rest) := by
  cases h with
  | number whole => exact readToken_of_read? (Spelling.local_read? _ _ _ whole _ (apart _ rfl))
  | @string ps parts spelled =>
    have read := readPieces_spelled spelled rest
    have text : '"' :: parts.flatten ++ ['"'] ++ rest = '"' :: (parts.flatten ++ '"' :: rest) := by
      simp
    rw [text, readToken, read]
    rfl
  | _ => rfl

theorem begins (h : Lexeme t cs) : ∃ c more, cs = c :: more ∧ isSpace c = false := by
  cases h with
  | number whole =>
    obtain ⟨c, more, rfl, sign | digit⟩ := exists_cons_of_read? whole
    · exact ⟨c, more, rfl, by rw [sign]; rfl⟩
    · exact ⟨c, more, rfl, isSpace_of_isDigit digit⟩
  | _ => exact ⟨_, _, rfl, rfl⟩

theorem natural {n : Nat} (small : n < UInt64.size) :
    Lexeme (.number (some (.natural n.toUInt64))) (printNatural n) := by
  have whole := read?_printNatural n endsNumber_nil
  rw [List.append_nil] at whole
  rw [← value?_printNatural small]
  exact .number whole

theorem unescaped {s : String}
    (plain : s.toList.all fun c => 0x20 ≤ c.toNat ∧ c ≠ '"' ∧ c ≠ '\\') :
    Lexeme (.string (some s)) ('"' :: s.toList ++ ['"']) := by
  have spelled : List.Forall₂ Piece.Spelled (s.toList.map .char) (s.toList.map fun c => [c]) := by
    rw [List.forall₂_map_left_iff, List.forall₂_map_right_iff, List.forall₂_same]
    intro c hc
    obtain ⟨printed, quote, backslash⟩ := of_decide_eq_true (List.all_eq_true.mp plain c hc)
    exact .plain printed quote backslash
  have join (cs : List Char) : joinPieces (cs.map .char) = some cs := by
    induction cs with
    | nil => rfl
    | cons c cs ih => rw [List.map_cons, joinPieces, ih]; rfl
  have written := Lexeme.string spelled
  rw [join, ← List.flatMap_def, List.flatMap_singleton'] at written
  rwa [Option.map_some, String.ofList_toList] at written

end Lexeme

/-- A text is made of these tokens, with white space around them or not. -/
inductive LaidOut : List Token → List Char → Prop where
  | nil {blank : List Char} (space : blank.all isSpace) : LaidOut [] blank
  | cons {blank cs rest : List Char} {t : Token} {ts : List Token} (space : blank.all isSpace)
      (written : Lexeme t cs) (apart : ∀ n, t = .number n → EndsNumber rest)
      (more : LaidOut ts rest) : LaidOut (t :: ts) (blank ++ cs ++ rest)

namespace LaidOut

variable {ts : List Token} {cs : List Char}

theorem tokensFrom (h : LaidOut ts cs) {fuel : Nat} (enough : cs.length < fuel) :
    tokensFrom fuel cs = ts := by
  induction h generalizing fuel with
  | @nil blank space =>
    obtain ⟨fuel, rfl⟩ := Nat.exists_eq_add_one.mpr (Nat.zero_lt_of_lt enough)
    rw [Json.tokensFrom, List.dropWhile_eq_nil_iff.mpr (List.all_eq_true.mp space)]
  | @cons blank cs rest t ts space written apart more ih =>
    obtain ⟨fuel, rfl⟩ := Nat.exists_eq_add_one.mpr (Nat.zero_lt_of_lt enough)
    have read := written.read apart
    obtain ⟨c, tail, rfl, visible⟩ := written.begins
    have shorter : rest.length < fuel := by
      simp only [List.length_cons, List.length_append] at enough
      omega
    have first : (blank ++ (c :: tail) ++ rest).dropWhile isSpace = c :: (tail ++ rest) := by
      rw [List.append_assoc, List.dropWhile_append_of_pos (List.all_eq_true.mp space),
        List.cons_append]
      exact List.dropWhile_cons_of_neg (by simp [visible])
    rw [Json.tokensFrom, first]
    rw [List.cons_append] at read
    simp only [read, ih shorter]

theorem tokens (h : LaidOut ts cs) : tokens (String.ofList cs) = ts := by
  rw [Json.tokens, String.toList_ofList]
  exact h.tokensFrom (Nat.lt_succ_self _)

end LaidOut

end TapeMachine.Json
