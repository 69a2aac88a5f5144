import TapeMachine.Proofs.Json.Reading

namespace TapeMachine.Json

/-- The tokens of one value. -/
inductive IsValue : List Token → Prop where
  | null : IsValue [.null]
  | bool (b : Bool) : IsValue [.bool b]
  | number (n : Option Number) : IsValue [.number n]
  | string (s : Option String) : IsValue [.string s]
  | array {items : List (List Token)} (values : ∀ ts ∈ items, IsValue ts) :
      IsValue (arrayTokens items)
  | object {fields : List (String × List Token)} (values : ∀ f ∈ fields, IsValue f.2) :
      IsValue (objectTokens fields)

theorem arrayTokens_append (items : List (List Token)) (rest : List Token) :
    arrayTokens items ++ rest = .openBracket ::
      (List.intercalate [.comma] items ++ .closeBracket :: rest) := by
  simp only [arrayTokens, List.cons_append, List.append_assoc, List.nil_append]

theorem IsValue.eq_singleton {t : Token} {ts more rest : List Token} (h : IsValue ts)
    (first : ts ++ more = t :: rest) (array : t ≠ .openBracket) (object : t ≠ .openBrace) :
    ts = [t] ∧ rest = more := by
  cases h with
  | array =>
    rw [arrayTokens_append] at first
    exact absurd (List.cons.inj first).1.symm array
  | object =>
    rw [objectTokens_append] at first
    exact absurd (List.cons.inj first).1.symm object
  | _ =>
    obtain ⟨rfl, rfl⟩ := List.cons.inj first
    exact ⟨rfl, rfl⟩

theorem IsValue.fields_of_brace {ts more rest : List Token} (h : IsValue ts)
    (first : ts ++ more = .openBrace :: rest) :
    ∃ fields, (∀ f ∈ fields, IsValue f.2) ∧ ts = objectTokens fields ∧
      rest = List.intercalate [.comma] (fields.map fieldTokens) ++ .closeBrace :: more := by
  cases h with
  | @object fields values =>
    rw [objectTokens_append] at first
    exact ⟨fields, values, rfl, (List.cons.inj first).2.symm⟩
  | _ => cases (List.cons.inj first).1

/-- What separates the fields of an object from what comes after the first one: a comma, or the end
if there is one only. -/
theorem intercalate_cons_append (f : String × List Token) (fields : List (String × List Token))
    (rest : List Token) :
    List.intercalate [.comma] ((f :: fields).map fieldTokens) ++ .closeBrace :: rest =
      .string (some f.1) :: .colon :: (f.2 ++
        if fields = [] then .closeBrace :: rest
        else .comma ::
          (List.intercalate [.comma] (fields.map fieldTokens) ++ .closeBrace :: rest)) := by
  cases fields with
  | nil =>
    rw [List.map_cons, List.map_nil, List.intercalate_singleton, if_pos rfl]
    rfl
  | cons g fields =>
    rw [List.map_cons, List.map_cons, List.intercalate_cons_cons, ← List.map_cons,
      if_neg (List.cons_ne_nil _ _)]
    simp only [fieldTokens, List.cons_append, List.append_assoc, List.nil_append]

/-- A value that begins like an object with the one member null ends like it, too. -/
theorem IsValue.eq_of_null_member {ts more rest : List Token} {name : String} (h : IsValue ts)
    (first : ts ++ more =
      .openBrace :: .string (some name) :: .colon :: .null :: .closeBrace :: rest) :
    ts = objectTokens [(name, [.null])] ∧ rest = more := by
  obtain ⟨fields, values, rfl, inner⟩ := h.fields_of_brace first
  cases fields with
  | nil => cases (List.cons.inj inner).1
  | cons f fields =>
    obtain ⟨key, ts⟩ := f
    rw [intercalate_cons_append] at inner
    obtain ⟨same, value⟩ := List.cons.inj inner
    obtain rfl : name = key := Option.some.inj (Token.string.inj same)
    have member : IsValue ts := values _ List.mem_cons_self
    obtain ⟨rfl, after⟩ := member.eq_singleton (List.cons.inj value).2.symm (by simp) (by simp)
    by_cases last : fields = []
    · subst last
      rw [if_pos rfl] at after
      exact ⟨rfl, (List.cons.inj after).2⟩
    · rw [if_neg last] at after
      cases (List.cons.inj after).1

theorem ok_of_map {ε α β : Type} {x : Except ε α} {f : α → β} {b : β} (h : x.map f = .ok b) :
    ∃ a, x = .ok a ∧ f a = b := by
  cases x with
  | error e => cases h
  | ok a => exact ⟨a, rfl, Except.ok.inj h⟩

theorem IsValue.of_fillSingle {α δ : Type} {read : Token → Except Error α} {put : δ → α → δ}
    {d e : δ} {ts more rest : List Token} (h : IsValue ts)
    (found : fillSingle read put d (ts ++ more) = .ok (e, rest))
    (array : ∀ a, read .openBracket ≠ .ok a) (object : ∀ a, read .openBrace ≠ .ok a) :
    ∃ t a, ts = [t] ∧ read t = .ok a ∧ e = put d a ∧ rest = more := by
  cases first : ts ++ more with
  | nil =>
    rw [first] at found
    cases found
  | cons t after =>
    rw [first, fillSingle, single] at found
    obtain ⟨_, taken, filled⟩ := ok_of_map found
    obtain ⟨a, value, rfl⟩ := ok_of_map taken
    cases filled
    obtain ⟨whole, same⟩ := h.eq_singleton first (by rintro rfl; exact array a value)
      (by rintro rfl; exact object a value)
    exact ⟨t, a, whole, value, rfl, same⟩

variable {δ : Type} {field : δ → String → Except Error (Filler δ)}

/-- What the reader finds at the front of a value is the whole value. -/
def WholeValues (read : Reader δ) : Prop :=
  ∀ ts more a rest, IsValue ts → read (ts ++ more) = .ok (a, rest) → rest = more ∧ Finds read ts a

/-- One member that is read: it is known, its value is found, and after it the object ends or goes
on with the next one. -/
theorem members_eq_ok {fuel : Nat} {d e : δ} {name : String} {ts after : List Token}
    (found : members field fuel d (.string (some name) :: .colon :: ts) = .ok (e, after)) :
    ∃ fewer fill, field d name = .ok fill ∧
      (fill d ts = .ok (e, .closeBrace :: after) ∨
        ∃ d' more, fill d ts = .ok (d', .comma :: more) ∧
          members field fewer d' more = .ok (e, after)) := by
  cases fuel with
  | zero => cases found
  | succ fuel =>
    rw [members] at found
    cases known : field d name with
    | error _ =>
      rw [known] at found
      cases found
    | ok fill =>
      simp only [known, bind, Except.bind] at found
      cases took : fill d ts with
      | error _ =>
        rw [took] at found
        cases found
      | ok next =>
        simp only [took] at found
        refine ⟨fuel, fill, rfl, ?_⟩
        split at found
        next => exact Or.inr ⟨_, _, took, found⟩
        next =>
          cases found
          exact Or.inl took
        next => cases found

theorem fills_of_members (whole : ∀ d name fill, field d name = .ok fill → WholeValues (fill d))
    {fields : List (String × List Token)} (values : ∀ f ∈ fields, IsValue f.2)
    (nonempty : fields ≠ []) {fuel : Nat} {d e : δ} {rest after : List Token}
    (found : members field fuel d (List.intercalate [.comma] (fields.map fieldTokens) ++
      .closeBrace :: rest) = .ok (e, after)) :
    Fills field d fields e ∧ after = rest := by
  induction fields generalizing fuel d with
  | nil => exact absurd rfl nonempty
  | cons f fields ih =>
    obtain ⟨name, ts⟩ := f
    have value : IsValue ts := values _ List.mem_cons_self
    rw [intercalate_cons_append] at found
    -- As all of the value is taken, what comes next tells whether this field is the last one.
    obtain ⟨fewer, fill, known, last | ⟨d', more, took, found⟩⟩ := members_eq_ok found
    · obtain ⟨same, finds⟩ := whole d name fill known ts _ e _ value last
      by_cases none : fields = []
      · subst none
        rw [if_pos rfl] at same
        exact ⟨.cons known finds (.nil e), (List.cons.inj same).2⟩
      · rw [if_neg none] at same
        cases (List.cons.inj same).1
    · obtain ⟨same, finds⟩ := whole d name fill known ts _ d' _ value took
      by_cases none : fields = []
      · rw [if_pos none] at same
        cases (List.cons.inj same).1
      · rw [if_neg none] at same
        obtain ⟨-, rfl⟩ := List.cons.inj same
        obtain ⟨fills, end_⟩ := ih (fun g hg => values g (List.mem_cons_of_mem _ hg)) none found
        exact ⟨.cons known finds fills, end_⟩

theorem object_of_cons (d : δ) (f : String × List Token) (fields : List (String × List Token))
    (rest : List Token) :
    let ts := List.intercalate [.comma] ((f :: fields).map fieldTokens) ++ .closeBrace :: rest
    object field d ts = members field ts.length d ts := by
  intro ts
  have first : ts = _ := intercalate_cons_append f fields rest
  rw [first]
  rfl

theorem fills_of_object (whole : ∀ d name fill, field d name = .ok fill → WholeValues (fill d))
    {fields : List (String × List Token)} (values : ∀ f ∈ fields, IsValue f.2) {d e : δ}
    {rest after : List Token}
    (found : object field d (List.intercalate [.comma] (fields.map fieldTokens) ++
      .closeBrace :: rest) = .ok (e, after)) :
    Fills field d fields e ∧ after = rest := by
  cases fields with
  | nil =>
    cases found
    exact ⟨.nil _, rfl⟩
  | cons f fields =>
    rw [object_of_cons] at found
    exact fills_of_members whole values (List.cons_ne_nil _ _) found

/-- The first member that is not known where it stands decides, whatever comes after its name. -/
theorem members_of_fault {fields : List (String × List Token)} {d e : δ}
    (h : Fills field d fields e) {key : String} {fault : Error} (unknown : field e key = .error fault)
    (value : List Token) (others : List (String × List Token)) (rest : List Token) (fuel : Nat)
    (enough : fields.length < fuel) :
    members field fuel d (List.intercalate [.comma]
      ((fields ++ (key, value) :: others).map fieldTokens) ++ .closeBrace :: rest) =
        .error fault := by
  induction h generalizing fuel with
  | nil d =>
    obtain ⟨fuel, rfl⟩ := Nat.exists_eq_add_one.mpr (Nat.zero_lt_of_lt enough)
    rw [List.nil_append, intercalate_cons_append, members, unknown]
    rfl
  | @cons d e f name fill ts fields known found more ih =>
    obtain ⟨fuel, rfl⟩ := Nat.exists_eq_add_one.mpr (Nat.zero_lt_of_lt enough)
    rw [List.cons_append, intercalate_cons_append, if_neg (by simp)]
    have step := members_of_comma known found fuel
      (List.intercalate [.comma] ((fields ++ (key, value) :: others).map fieldTokens) ++
        .closeBrace :: rest)
    exact step.trans (ih unknown fuel (Nat.lt_of_succ_lt_succ enough))

theorem length_le_intercalate (fields : List (String × List Token)) :
    fields.length ≤ (List.intercalate [Token.comma] (fields.map fieldTokens)).length := by
  induction fields with
  | nil => exact Nat.zero_le _
  | cons f fields ih =>
    cases fields with
    | nil =>
      rw [List.map_cons, List.map_nil, List.intercalate_singleton]
      exact Nat.succ_le_succ (Nat.zero_le _)
    | cons g fields =>
      rw [List.map_cons, List.map_cons, List.intercalate_cons_cons, ← List.map_cons]
      simp only [List.length_append, List.length_cons, fieldTokens] at ih ⊢
      omega

theorem object_of_fault {fields : List (String × List Token)} {d e : δ} (h : Fills field d fields e)
    {key : String} {fault : Error} (unknown : field e key = .error fault) (value : List Token)
    (others : List (String × List Token)) (rest : List Token) :
    object field d (List.intercalate [.comma]
      ((fields ++ (key, value) :: others).map fieldTokens) ++ .closeBrace :: rest) =
        .error fault := by
  have enough := length_le_intercalate (fields ++ (key, value) :: others)
  rw [List.length_append, List.length_cons] at enough
  have run := members_of_fault h unknown value others rest
    (List.intercalate [.comma] ((fields ++ (key, value) :: others).map fieldTokens) ++
      .closeBrace :: rest).length (by rw [List.length_append]; omega)
  obtain ⟨f, more, first⟩ := List.exists_cons_of_ne_nil (l := fields ++ (key, value) :: others)
    (by simp)
  rw [first] at run ⊢
  rw [object_of_cons]
  exact run

/-- The fields of an array, filled in one after the other, as many as there are. -/
inductive Takes : List (Filler δ) → δ → List (List Token) → δ → Prop where
  | nil (fills : List (Filler δ)) (d : δ) : Takes fills d [] d
  | cons {fill : Filler δ} {fills : List (Filler δ)} {d e f : δ} {ts : List Token}
      {items : List (List Token)} (value : IsValue ts) (found : Finds (fill d) ts e)
      (more : Takes fills e items f) : Takes (fill :: fills) d (ts :: items) f

theorem moreFields_of_takes {fills : List (Filler δ)} {d e : δ} {items : List (List Token)}
    (h : Takes fills d items e) (count : Nat) (rest : List Token) :
    moreFields fills count d (items.flatMap (.comma :: ·) ++ .closeBracket :: rest) =
      .ok ((e, count + items.length), rest) := by
  induction h generalizing count with
  | nil fills d => cases fills <;> rfl
  | @cons fill fills d e f ts items value found more ih =>
    have step := found (items.flatMap (.comma :: ·) ++ .closeBracket :: rest)
    rw [List.flatMap_cons, List.cons_append, List.cons_append, List.append_assoc, moreFields, step]
    change moreFields fills (count + 1) e _ = _
    rw [ih, List.length_cons, Nat.add_assoc, Nat.add_comm 1]

theorem intercalate_comma_cons (ts : List Token) (items : List (List Token)) :
    List.intercalate [.comma] (ts :: items) = ts ++ items.flatMap (.comma :: ·) := by
  induction items generalizing ts with
  | nil => simp [List.intercalate_singleton]
  | cons us items ih =>
    rw [List.intercalate_cons_cons, ih, List.flatMap_cons]
    simp

theorem array_of_value {ts : List Token} (value : IsValue ts) (fill : Filler δ)
    (fills : List (Filler δ)) (d : δ) (rest : List Token) :
    array (fill :: fills) d (ts ++ rest) =
      fill d (ts ++ rest) >>= fun (e, more) => moreFields fills 1 e more := by
  cases value with
  | array => rfl
  | object => rfl
  | _ => rfl

theorem array_of_takes {fills : List (Filler δ)} {d e : δ} {items : List (List Token)}
    (h : Takes fills d items e) (rest : List Token) :
    array fills d (List.intercalate [.comma] items ++ .closeBracket :: rest) =
      .ok ((e, items.length), rest) := by
  cases h with
  | nil fills d => cases fills <;> rfl
  | @cons fill fills d e f ts items value found more =>
    have step := found (items.flatMap (.comma :: ·) ++ .closeBracket :: rest)
    rw [intercalate_comma_cons, List.append_assoc, array_of_value value, step]
    change moreFields fills 1 e _ = _
    rw [moreFields_of_takes more, List.length_cons, Nat.add_comm 1]

end TapeMachine.Json
