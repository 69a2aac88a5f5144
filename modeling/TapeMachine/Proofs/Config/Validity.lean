import Mathlib.Data.List.Basic
import Mathlib.Logic.Basic
import TapeMachine.Config.Basic
import TapeMachine.Config.Resolution

namespace TapeMachine.Config

/-- The sizes that can be split into two halves of whole cells. -/
def WholeHalves (size : UInt64) : Prop := size ≠ 0 ∧ size % 8 = 0

instance (size : UInt64) : Decidable (WholeHalves size) := inferInstanceAs (Decidable (_ ∧ _))

theorem not_wholeHalves {size : UInt64} : ¬WholeHalves size ↔ size = 0 ∨ size % 8 ≠ 0 := by
  rw [WholeHalves, not_and_or, ne_eq, not_not]

theorem validate_eq_ok_iff {c : Config} :
    c.validate = .ok () ↔ c.chunkSize ≠ 0 ∧ (c.tape = .reserved → WholeHalves c.tapeBytes) := by
  unfold validate
  split
  next hz => simp [hz]
  next positive =>
    split
    next bad => simp [bad.1, not_wholeHalves.mpr bad.2]
    next good =>
      rw [not_and, ← not_wholeHalves, not_not] at good
      exact ⟨fun _ => ⟨positive, good⟩, fun _ => rfl⟩

theorem chunkSize_pos {c : Config} (valid : c.validate = .ok ()) : 0 < c.chunkSize :=
  UInt64.pos_iff_ne_zero.mpr (validate_eq_ok_iff.mp valid).1

theorem validate_of_not_wholeHalves {c : Config} (kind : c.tape = .reserved)
    (positive : c.chunkSize ≠ 0) (bad : ¬WholeHalves c.tapeBytes) :
    c.validate = .error (.badTapeBytes c.tapeBytes) := by
  rw [validate, if_neg positive, if_pos ⟨kind, not_wholeHalves.mp bad⟩]

theorem validate_of_checked {c d : Config} (h : c.checked = .ok d) : d.validate = .ok () := by
  unfold checked at h
  cases valid : c.validate with
  | error e => simp [valid, Except.map] at h
  | ok _ =>
    rw [valid] at h
    cases h
    exact valid

theorem ok_of_bind {ε α β : Type} {x : Except ε α} {f : α → Except ε β} {b : β}
    (h : x >>= f = .ok b) : ∃ a, x = .ok a ∧ f a = .ok b := by
  cases x with
  | error e => cases h
  | ok a => exact ⟨a, rfl, h⟩

theorem eq_ok_of_toOption {ε α : Type} {x : Except ε α} {a : α} (h : x.toOption = some a) :
    x = .ok a := by
  cases x with
  | error e => cases h
  | ok b => exact congrArg Except.ok (Option.some.inj h)

/-- The settings of the file that the environment names, if it names one. -/
def ofFile (h : Host) : Except ConfigError Config :=
  match h.configFile with
  | some path => load h path
  | none => .ok {}

def withKind (name : Option (List Char)) (c : Config) : Except ConfigError Config :=
  match name with
  | some name => (TapeKind.parse (String.ofList name)).map fun tape => { c with tape }
  | none => .ok c

theorem ofEnvironment_eq (h : Host) :
    ofEnvironment h =
      (ofFile h >>= fun c => withKind (h.tapeKind.bind Utf8.decode?) c >>= checked) := by
  unfold ofEnvironment ofFile withKind
  cases h.configFile <;> cases h.tapeKind.bind Utf8.decode? <;> rfl

theorem validate_of_ofEnvironment {h : Host} {c : Config} (found : ofEnvironment h = .ok c) :
    c.validate = .ok () := by
  rw [ofEnvironment_eq] at found
  obtain ⟨_, -, found⟩ := ok_of_bind found
  obtain ⟨_, -, found⟩ := ok_of_bind found
  exact validate_of_checked found

end TapeMachine.Config

namespace TapeMachine

namespace Text

theorem dropWhile_blank_append {before rest : List Char} (blank : ∀ c ∈ before, isBlank c)
    (begins : ∀ c ∈ rest.head?, isBlank c = false) :
    (before ++ rest).dropWhile isBlank = rest := by
  rw [List.dropWhile_append_of_pos blank]
  cases rest with
  | nil => rfl
  | cons c rest =>
    have hc : ¬isBlank c = true := by simpa using begins c rfl
    exact List.dropWhile_cons_of_neg hc

theorem mem_takeWhile_blank {c : Char} {cs : List Char} (h : c ∈ cs.takeWhile isBlank) :
    isBlank c :=
  List.all_eq_true.mp List.all_takeWhile c h

theorem exists_append_trimBlank (cs : List Char) :
    ∃ before after, cs = before ++ trimBlank cs ++ after ∧ (∀ c ∈ before, isBlank c) ∧
      ∀ c ∈ after, isBlank c := by
  let rest := cs.dropWhile isBlank
  have front : cs.takeWhile isBlank ++ rest = cs := List.takeWhile_append_dropWhile
  have back : rest.reverse.takeWhile isBlank ++ rest.reverse.dropWhile isBlank = rest.reverse :=
    List.takeWhile_append_dropWhile
  have hrest : rest = trimBlank cs ++ (rest.reverse.takeWhile isBlank).reverse := by
    have h := congrArg List.reverse back
    rw [List.reverse_append, List.reverse_reverse] at h
    exact h.symm
  refine ⟨cs.takeWhile isBlank, (rest.reverse.takeWhile isBlank).reverse, ?_,
    fun c hc => mem_takeWhile_blank hc, fun c hc => mem_takeWhile_blank (List.mem_reverse.mp hc)⟩
  rw [List.append_assoc, ← hrest]
  exact front.symm

theorem trimBlank_append {before core after : List Char} (blankBefore : ∀ c ∈ before, isBlank c)
    (blankAfter : ∀ c ∈ after, isBlank c) (solid : ∀ c ∈ core, isBlank c = false) :
    trimBlank (before ++ core ++ after) = core := by
  have blankReversed : ∀ c ∈ after.reverse, isBlank c :=
    fun c hc => blankAfter c (List.mem_reverse.mp hc)
  cases core with
  | nil =>
    have all : ∀ c ∈ before ++ [] ++ after, isBlank c := by
      intro c hc
      rw [List.append_nil] at hc
      exact (List.mem_append.mp hc).elim (blankBefore c) (blankAfter c)
    have none : (before ++ [] ++ after ++ []).dropWhile isBlank = [] :=
      dropWhile_blank_append all (by simp)
    rw [List.append_nil] at none
    rw [trimBlank, none]
    rfl
  | cons d core =>
    have first : (before ++ (d :: core ++ after)).dropWhile isBlank = d :: core ++ after :=
      dropWhile_blank_append blankBefore fun c hc => by
        obtain rfl : d = c := by simpa using hc
        exact solid d List.mem_cons_self
    have last : (after.reverse ++ (d :: core).reverse).dropWhile isBlank = (d :: core).reverse :=
      dropWhile_blank_append blankReversed fun c hc =>
        solid c (List.mem_reverse.mp (List.mem_of_mem_head? hc))
    rw [trimBlank, List.append_assoc, first, List.reverse_append, last, List.reverse_reverse]

theorem toLower_of_blank {c : Char} (h : isBlank c) : c.toLower = c := by
  unfold Char.toLower
  split
  next upper =>
    obtain ⟨low, high⟩ := upper
    have low' : 65 ≤ c.toNat := UInt32.le_iff_toNat_le.mp low
    have high' : c.toNat ≤ 90 := UInt32.le_iff_toNat_le.mp high
    have space : c ≠ ' ' := by
      rintro rfl
      exact absurd low' (by decide)
    simp only [isBlank, Bool.or_eq_true, Bool.and_eq_true, decide_eq_true_eq, space, false_or] at h
    omega
  next => rfl

end Text

namespace TapeKind

/-- A name of this kind, in letters of either case and with any white space around it. -/
def Spelled (k : TapeKind) (text : List Char) : Prop :=
  ∃ before core after, text = before ++ core ++ after ∧
    (∀ c ∈ before, Text.isBlank c) ∧ (∀ c ∈ after, Text.isBlank c) ∧
    core.map Char.toLower = k.name.toList

theorem name_solid (k : TapeKind) : ∀ c ∈ k.name.toList, Text.isBlank c = false := by
  have none : k.name.toList.any Text.isBlank = false := by cases k <;> decide
  simpa using none

theorem ofName?_eq_some_iff {s : String} {k : TapeKind} : ofName? s = some k ↔ s = k.name := by
  unfold ofName?
  constructor
  · intro h
    split at h
    next hs => rw [hs, ← Option.some.inj h]
    next =>
      split at h
      next hs => rw [hs, ← Option.some.inj h]
      next => simp at h
  · rintro rfl
    cases k <;> decide

theorem normalName_eq_name_iff {k : TapeKind} {text : List Char} :
    normalName (String.ofList text) = k.name ↔ k.Spelled text := by
  have normal : normalName (String.ofList text) =
      String.ofList ((Text.trimBlank text).map Char.toLower) := by
    rw [normalName, String.toList_ofList]
  have compare : normalName (String.ofList text) = k.name ↔
      (Text.trimBlank text).map Char.toLower = k.name.toList := by
    rw [normal, ← String.toList_inj, String.toList_ofList]
  rw [compare]
  constructor
  · intro h
    obtain ⟨before, after, around, blankBefore, blankAfter⟩ := Text.exists_append_trimBlank text
    exact ⟨before, Text.trimBlank text, after, around, blankBefore, blankAfter, h⟩
  · rintro ⟨before, core, after, rfl, blankBefore, blankAfter, h⟩
    have solid : ∀ c ∈ core, Text.isBlank c = false := by
      intro c hc
      by_contra blank
      have same := Text.toLower_of_blank (Bool.not_eq_false _ ▸ blank)
      have member : c ∈ k.name.toList := by
        rw [← h, ← same]
        exact List.mem_map_of_mem hc
      exact blank (k.name_solid c member)
    rw [Text.trimBlank_append blankBefore blankAfter solid, h]

/-- A setting chooses the kind that it spells, and no other. -/
theorem parse_eq_ok_iff {k : TapeKind} {text : List Char} :
    parse (String.ofList text) = .ok k ↔ k.Spelled text := by
  rw [← normalName_eq_name_iff, ← ofName?_eq_some_iff, parse]
  cases ofName? (normalName (String.ofList text)) with
  | none => simp
  | some found => simp

theorem parse_eq_error_iff {text : List Char} {e : ConfigError} :
    parse (String.ofList text) = .error e ↔
      (∀ k : TapeKind, ¬k.Spelled text) ∧
        e = .unknownTapeKind (normalName (String.ofList text)) := by
  simp only [← normalName_eq_name_iff, ← ofName?_eq_some_iff]
  rw [parse]
  cases ofName? (normalName (String.ofList text)) with
  | none => simp [eq_comm]
  | some found => simp

end TapeKind

end TapeMachine
