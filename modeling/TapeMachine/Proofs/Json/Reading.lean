import TapeMachine.Json.Reader
import TapeMachine.Proofs.Json.Lexing

namespace TapeMachine.Json

variable {α δ : Type}

/-- The reader takes these tokens, whatever comes after them, and they give it this value. -/
def Finds (read : Reader α) (ts : List Token) (a : α) : Prop :=
  ∀ rest, read (ts ++ rest) = .ok (a, rest)

/-- Where the tokens of a value are printed and found, the value is read from its text. -/
theorem Finds.readText {read : Reader α} {cs : List Char} {ts : List Token} {a : α}
    (found : Finds read ts a) (printed : Prints cs ts) :
    readText read (String.ofList cs) = .ok a := by
  have whole := found []
  rw [List.append_nil] at whole
  rw [Json.readText, printed.tokens, whole]
  rfl

theorem natural_of_lt {n bound : Nat} (small : n < UInt64.size) (inside : n < bound)
    (expected : String) :
    natural bound expected (.number (some (.natural n.toUInt64))) = .ok n := by
  have value : n.toUInt64.toNat = n := UInt64.toNat_ofNat_of_lt' small
  rw [natural, value, if_pos inside]

section Array

variable {read : Token → Except Error α} {t : Token} {a : α}

theorem finds_single (value : read t = .ok a) : Finds (single read) [t] a := by
  intro rest
  rw [List.singleton_append, single, value]
  rfl

theorem finds_fillSingle (value : read t = .ok a) (put : δ → α → δ) (d : δ) :
    Finds (fillSingle read put d) [t] (put d a) := by
  intro rest
  rw [fillSingle, finds_single value rest]
  rfl

theorem elements_of_close (value : read t = .ok a) (ts : List Token) :
    elements read (t :: .closeBracket :: ts) = .ok ([a], ts) := by
  rw [elements, value]
  rfl

theorem elements_of_comma (value : read t = .ok a) {ts rest : List Token} {as : List α}
    (more : elements read ts = .ok (as, rest)) :
    elements read (t :: .comma :: ts) = .ok (a :: as, rest) := by
  rw [elements.eq_def]
  simp only [value, more]
  rfl

theorem list_of_ne (other : t ≠ .closeBracket) (expected : String) (ts : List Token) :
    list expected read (.openBracket :: t :: ts) = elements read (t :: ts) := by
  rw [list.eq_def]
  split
  next he => exact absurd (List.cons.inj (List.cons.inj he).2).1 other
  next he => rw [← (List.cons.inj he).2]
  next excluded he => exact absurd (List.cons.inj he).1.symm excluded
  next he => cases he

variable {token : α → Token}

theorem elements_intercalate (value : ∀ a, read (token a) = .ok a) (a : α) (as : List α)
    (rest : List Token) :
    elements read (List.intercalate [.comma] ((a :: as).map fun a => [token a]) ++
      .closeBracket :: rest) = .ok (a :: as, rest) := by
  induction as generalizing a with
  | nil => exact elements_of_close (value a) rest
  | cons b as ih =>
    rw [List.map_cons, List.map_cons, List.intercalate_cons_cons]
    exact elements_of_comma (value a) (ih b)

theorem finds_list (value : ∀ a, read (token a) = .ok a) (other : ∀ a, token a ≠ .closeBracket)
    (expected : String) (as : List α) :
    Finds (list expected read) (arrayTokens (as.map fun a => [token a])) as := by
  intro rest
  cases as with
  | nil => rfl
  | cons a as =>
    have found := elements_intercalate value a as rest
    obtain ⟨more, first⟩ :
        ∃ more, List.intercalate [.comma] ((a :: as).map fun a => [token a]) = token a :: more := by
      cases as <;> exact ⟨_, rfl⟩
    rw [first] at found
    rw [arrayTokens, first]
    simp only [List.cons_append, List.append_assoc, List.nil_append] at found ⊢
    rw [list_of_ne (other a), found]

end Array

/-- The fields of an object, filled in one after the other. -/
inductive Fills (field : δ → String → Except Error (Filler δ)) :
    δ → List (String × List Token) → δ → Prop where
  | nil (d : δ) : Fills field d [] d
  | cons {d e f : δ} {name : String} {fill : Filler δ} {ts : List Token}
      {fields : List (String × List Token)} (known : field d name = .ok fill)
      (value : Finds (fill d) ts e) (more : Fills field e fields f) :
      Fills field d ((name, ts) :: fields) f

section Record

variable {field : δ → String → Except Error (Filler δ)} {d e : δ} {name : String} {fill : Filler δ}
variable {ts : List Token} {fields : List (String × List Token)}

theorem members_of_comma (known : field d name = .ok fill) (value : Finds (fill d) ts e)
    (fuel : Nat) (rest : List Token) :
    members field (fuel + 1) d (fieldTokens (name, ts) ++ .comma :: rest) =
      members field fuel e rest := by
  have found := value (.comma :: rest)
  simp only [fieldTokens, List.cons_append, members, known, bind, Except.bind, found]

theorem members_of_close (known : field d name = .ok fill) (value : Finds (fill d) ts e)
    (fuel : Nat) (rest : List Token) :
    members field (fuel + 1) d (fieldTokens (name, ts) ++ .closeBrace :: rest) = .ok (e, rest) := by
  have found := value (.closeBrace :: rest)
  simp only [fieldTokens, List.cons_append, members, known, bind, Except.bind, found]
  rfl

theorem members_of_fills (h : Fills field d fields e) (nonempty : fields ≠ [])
    (rest : List Token) (fuel : Nat)
    (enough : (List.intercalate [.comma] (fields.map fieldTokens)).length ≤ fuel) :
    members field fuel d (List.intercalate [.comma] (fields.map fieldTokens) ++
      .closeBrace :: rest) = .ok (e, rest) := by
  induction h generalizing fuel with
  | nil => exact absurd rfl nonempty
  | @cons d e f name fill ts fields known value more ih =>
    cases more with
    | nil =>
      rw [List.map_cons, List.map_nil, List.intercalate_singleton] at enough ⊢
      obtain ⟨fuel, rfl⟩ := Nat.exists_eq_add_one.mpr (Nat.zero_lt_of_lt enough)
      exact members_of_close known value fuel rest
    | cons =>
      rw [List.map_cons, List.map_cons, List.intercalate_cons_cons, ← List.map_cons] at enough ⊢
      simp only [List.length_append, List.length_singleton] at enough
      obtain ⟨fuel, rfl⟩ : ∃ n, fuel = n + 1 := Nat.exists_eq_add_one.mpr (by omega)
      rw [List.append_assoc, List.append_assoc]
      exact (members_of_comma known value fuel _).trans (ih (List.cons_ne_nil _ _) fuel (by omega))

theorem objectTokens_append (fields : List (String × List Token)) (rest : List Token) :
    objectTokens fields ++ rest = .openBrace ::
      (List.intercalate [.comma] (fields.map fieldTokens) ++ .closeBrace :: rest) := by
  simp only [objectTokens, List.cons_append, List.append_assoc, List.nil_append]

theorem object_of_fills (h : Fills field d fields e) (rest : List Token) :
    object field d (List.intercalate [.comma] (fields.map fieldTokens) ++ .closeBrace :: rest) =
      .ok (e, rest) := by
  cases fields with
  | nil =>
    cases h
    rfl
  | cons f fields =>
    -- A field begins with its name, so this is no object that is closed at once.
    have run := members_of_fills h (List.cons_ne_nil f fields) rest
      (List.intercalate [.comma] ((f :: fields).map fieldTokens) ++ .closeBrace :: rest).length
      (by rw [List.length_append]; omega)
    obtain ⟨more, first⟩ : ∃ more, List.intercalate [.comma] ((f :: fields).map fieldTokens) =
        .string (some f.1) :: more := by
      cases fields <;> exact ⟨_, rfl⟩
    rw [first] at run ⊢
    exact run

end Record

end TapeMachine.Json
