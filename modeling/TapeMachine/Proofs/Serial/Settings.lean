import Mathlib.Data.List.Nodup
import TapeMachine.Proofs.Config.Validity
import TapeMachine.Proofs.Json.Layout
import TapeMachine.Proofs.Json.Members
import TapeMachine.Proofs.Serial.RoundTrip

namespace TapeMachine

open Json

namespace TapeKind

/-- The tokens of a kind: its name, or an object that gives the name the value null. -/
inductive Written (k : TapeKind) : List Token → Prop where
  | name : Written k [.string (some k.name)]
  | variant : Written k (objectTokens [(k.name, [.null])])

variable {k : TapeKind} {ts more rest : List Token}

theorem ofName_name (k : TapeKind) : ofName k.name = .ok k := by
  rw [ofName, ofName?_eq_some_iff.mpr rfl]

theorem eq_name_of_ofName {s : String} (h : ofName s = .ok k) : s = k.name := by
  rw [ofName] at h
  split at h
  next found =>
    cases h
    exact ofName?_eq_some_iff.mp found
  next => cases h

theorem Written.finds (h : k.Written ts) : Finds reader ts k := by
  cases h with
  | name => exact finds_name k
  | variant =>
    intro rest
    rw [objectTokens_append, List.map_cons, List.map_nil, List.intercalate_singleton]
    simp only [fieldTokens, List.cons_append, List.nil_append, reader, ofName_name]
    rfl

theorem Written.isValue (h : k.Written ts) : IsValue ts := by
  cases h with
  | name => exact .string _
  | variant =>
    apply IsValue.object
    intro f hf
    rw [List.mem_singleton.mp hf]
    exact .null

theorem written_of_reader (value : IsValue ts) (found : reader (ts ++ more) = .ok (k, rest)) :
    k.Written ts ∧ rest = more := by
  unfold reader at found
  split at found
  next s after first =>
    obtain ⟨k', named, read⟩ := ok_of_map found
    cases read
    obtain ⟨rfl, same⟩ := value.eq_singleton first (by simp) (by simp)
    rw [eq_name_of_ofName named]
    exact ⟨.name, same⟩
  next s after first =>
    obtain ⟨k', named, read⟩ := Config.ok_of_bind found
    split at read
    next =>
      cases read
      obtain ⟨rfl, same⟩ := value.eq_of_null_member first
      rw [eq_name_of_ofName named]
      exact ⟨.variant, same⟩
    next => cases read
    next => cases read
    next => cases read
  next => cases found

end TapeKind

namespace Config

/-- One setting of a configuration, with its value. -/
inductive Setting where
  | tape (k : TapeKind)
  | tapeBytes (n : UInt64)
  | chunkSize (n : UInt64)
deriving DecidableEq

namespace Setting

def name : Setting → String
  | tape _ => "tape"
  | tapeBytes _ => "tape_bytes"
  | chunkSize _ => "chunk_size"

/-- The configuration with this setting in place of the one it has. -/
def put (c : Config) : Setting → Config
  | tape k => { c with tape := k }
  | tapeBytes n => { c with tapeBytes := n }
  | chunkSize n => { c with chunkSize := n }

def give (d : Draft) : Setting → Draft
  | tape k => { d with tape := some k }
  | tapeBytes n => { d with tapeBytes := some n }
  | chunkSize n => { d with chunkSize := some n }

/-- The tokens of the value. -/
inductive Written : Setting → List Token → Prop where
  | tape {k : TapeKind} {ts : List Token} (kind : k.Written ts) : Written (.tape k) ts
  | tapeBytes (n : UInt64) : Written (.tapeBytes n) [sizeToken n]
  | chunkSize (n : UInt64) : Written (.chunkSize n) [sizeToken n]

/-- A field of an object that gives this setting. -/
def IsField (s : Setting) (f : String × List Token) : Prop := f.1 = s.name ∧ s.Written f.2

def filler : Setting → Filler Draft
  | tape _ => Draft.fillTape
  | tapeBytes _ => Draft.fillTapeBytes
  | chunkSize _ => Draft.fillChunkSize

/-- Whether a draft has this setting, with whatever value. -/
def isIn (d : Draft) : Setting → Bool
  | tape _ => d.tape.isSome
  | tapeBytes _ => d.tapeBytes.isSome
  | chunkSize _ => d.chunkSize.isSome

variable {s : Setting} {d e : Draft} {ts : List Token}

theorem name_mem (s : Setting) : s.name ∈ Draft.names := by
  cases s <;> simp [name, Draft.names]

theorem field_name (d : Draft) (s : Setting) : Draft.field d s.name =
    if s.isIn d then .error (.duplicateField s.name) else .ok s.filler := by
  cases s <;> rfl

theorem field_of_unknown {name : String} (unknown : name ∉ Draft.names) :
    Draft.field d name = .error (.unknownField name Draft.names) := by
  simp only [Draft.names, List.mem_cons, List.not_mem_nil, or_false, not_or] at unknown
  obtain ⟨tape, tapeBytes, chunkSize⟩ := unknown
  rw [Draft.field, if_neg tape, if_neg tapeBytes, if_neg chunkSize]

theorem isIn_give (d : Draft) (r s : Setting) :
    s.isIn (r.give d) = (decide (s.name = r.name) || s.isIn d) := by
  cases r <;> cases s <;> rfl

theorem Written.isValue (h : s.Written ts) : IsValue ts := by
  cases h with
  | tape kind => exact kind.isValue
  | tapeBytes n => exact .number _
  | chunkSize n => exact .number _

theorem Written.finds (h : s.Written ts) (d : Draft) : Finds (s.filler d) ts (s.give d) := by
  cases h with
  | tape kind =>
    intro rest
    rw [filler, Draft.fillTape, kind.finds rest]
    rfl
  | tapeBytes n => exact finds_fillSingle (size_sizeToken n) (fun d n => give d (.tapeBytes n)) d
  | chunkSize n => exact finds_fillSingle (size_sizeToken n) (fun d n => give d (.chunkSize n)) d

theorem exists_name {name : String} (known : name ∈ Draft.names) : ∃ s : Setting, name = s.name := by
  simp only [Draft.names, List.mem_cons, List.not_mem_nil, or_false] at known
  rcases known with rfl | rfl | rfl
  · exact ⟨.tape .reserved, rfl⟩
  · exact ⟨.tapeBytes 0, rfl⟩
  · exact ⟨.chunkSize 0, rfl⟩

theorem of_field {name : String} {fill : Filler Draft} (known : Draft.field d name = .ok fill) :
    ∃ s : Setting, name = s.name ∧ s.isIn d = false ∧ fill = s.filler := by
  by_cases listed : name ∈ Draft.names
  · obtain ⟨s, rfl⟩ := exists_name listed
    rw [field_name] at known
    split at known
    next => cases known
    next new =>
      cases known
      exact ⟨s, rfl, Bool.eq_false_iff.mpr new, rfl⟩
  · rw [field_of_unknown listed] at known
    cases known

theorem eq_sizeToken {t : Token} {n : UInt64} (h : Draft.size t = .ok n) : t = sizeToken n := by
  unfold Draft.size natural at h
  split at h
  next m =>
    split at h
    next =>
      cases h
      simp [sizeToken]
    next => cases h
  next => cases h
  next => cases h

theorem of_filler {name : String} {fill : Filler Draft} {more rest : List Token}
    (known : Draft.field d name = .ok fill) (value : IsValue ts)
    (found : fill d (ts ++ more) = .ok (e, rest)) :
    ∃ s : Setting, name = s.name ∧ s.isIn d = false ∧ fill = s.filler ∧ s.Written ts ∧
      e = s.give d ∧ rest = more := by
  obtain ⟨s, rfl, new, rfl⟩ := of_field known
  cases s with
  | tape _ =>
    rw [filler, Draft.fillTape] at found
    obtain ⟨⟨k, after⟩, read, filled⟩ := ok_of_map found
    cases filled
    obtain ⟨written, taken⟩ := TapeKind.written_of_reader value read
    exact ⟨.tape k, rfl, new, rfl, .tape written, rfl, taken⟩
  | tapeBytes _ =>
    change fillSingle Draft.size (fun d n => give d (.tapeBytes n)) d (ts ++ more) = _ at found
    obtain ⟨t, n, rfl, size, rfl, taken⟩ := value.of_fillSingle found
      (fun _ h => by cases eq_sizeToken h) (fun _ h => by cases eq_sizeToken h)
    rw [eq_sizeToken size]
    exact ⟨.tapeBytes n, rfl, new, rfl, .tapeBytes n, rfl, taken⟩
  | chunkSize _ =>
    change fillSingle Draft.size (fun d n => give d (.chunkSize n)) d (ts ++ more) = _ at found
    obtain ⟨t, n, rfl, size, rfl, taken⟩ := value.of_fillSingle found
      (fun _ h => by cases eq_sizeToken h) (fun _ h => by cases eq_sizeToken h)
    rw [eq_sizeToken size]
    exact ⟨.chunkSize n, rfl, new, rfl, .chunkSize n, rfl, taken⟩

theorem wholeValues {name : String} {fill : Filler Draft}
    (known : Draft.field d name = .ok fill) : WholeValues (fill d) := by
  intro ts more e rest value found
  obtain ⟨s, -, -, rfl, written, rfl, taken⟩ := of_filler known value found
  exact ⟨taken, written.finds d⟩

variable {settings : List Setting} {fields : List (String × List Token)}

theorem isIn_foldl (settings : List Setting) (d : Draft) (s : Setting) :
    s.isIn (settings.foldl give d) ↔ s.name ∈ settings.map name ∨ s.isIn d := by
  induction settings generalizing d with
  | nil => simp
  | cons r settings ih =>
    rw [List.foldl_cons, ih, isIn_give, List.map_cons, List.mem_cons, Bool.or_eq_true,
      decide_eq_true_eq]
    tauto

theorem fills_of_fields (given : List.Forall₂ IsField settings fields)
    (distinct : (settings.map name).Nodup) (new : ∀ s ∈ settings, s.isIn d = false) :
    Fills Draft.field d fields (settings.foldl give d) := by
  induction given generalizing d with
  | nil => exact .nil d
  | @cons s f settings fields head tail ih =>
    obtain ⟨key, ts⟩ := f
    obtain ⟨rfl, written⟩ := head
    rw [List.map_cons, List.nodup_cons] at distinct
    have known : Draft.field d s.name = .ok s.filler := by
      rw [field_name, new s List.mem_cons_self]
      rfl
    refine .cons known (written.finds d) (ih distinct.2 ?_)
    intro r hr
    have other : r.name ≠ s.name := fun same => distinct.1 (same ▸ List.mem_map_of_mem hr)
    rw [isIn_give, new r (List.mem_cons_of_mem _ hr), decide_eq_false other]
    rfl

theorem fields_of_fills (h : Fills Draft.field d fields e) (values : ∀ f ∈ fields, IsValue f.2) :
    ∃ settings : List Setting, List.Forall₂ IsField settings fields ∧
      (settings.map name).Nodup ∧ (∀ s ∈ settings, s.isIn d = false) ∧
      e = settings.foldl give d := by
  induction h with
  | nil d => exact ⟨[], .nil, List.nodup_nil, by simp, rfl⟩
  | @cons d _ f key fill ts fields known found more ih =>
    obtain ⟨settings, given, distinct, new, rfl⟩ :=
      ih fun g hg => values g (List.mem_cons_of_mem _ hg)
    have value : IsValue ts := values _ List.mem_cons_self
    obtain ⟨s, rfl, fresh, -, written, rfl, -⟩ := of_filler known value (found [])
    -- This setting is in the draft from here on, so no later one has its name.
    have others (r : Setting) (hr : r ∈ settings) : r.name ≠ s.name ∧ r.isIn d = false := by
      have both := new r hr
      rw [isIn_give, Bool.or_eq_false_iff, decide_eq_false_iff_not] at both
      exact both
    refine ⟨s :: settings, .cons ⟨rfl, written⟩ given, ?_, ?_, rfl⟩
    · rw [List.map_cons, List.nodup_cons]
      refine ⟨fun member => ?_, distinct⟩
      obtain ⟨r, hr, same⟩ := List.mem_map.mp member
      exact (others r hr).1 same
    · intro r hr
      rcases List.mem_cons.mp hr with rfl | hr
      · exact fresh
      · exact (others r hr).2

theorem complete_foldl (settings : List Setting) (d : Draft) :
    (settings.foldl give d).complete = settings.foldl put d.complete := by
  induction settings generalizing d with
  | nil => rfl
  | cons s settings ih =>
    have step : (s.give d).complete = put d.complete s := by cases s <;> rfl
    rw [List.foldl_cons, List.foldl_cons, ih, step]

theorem put_comm {r s : Setting} (other : r.name ≠ s.name) (c : Config) :
    put (put c r) s = put (put c s) r := by
  cases r <;> cases s <;> first | rfl | exact absurd rfl other

theorem foldl_put_perm {settings' : List Setting} (same : settings.Perm settings')
    (distinct : (settings.map name).Nodup) (c : Config) :
    settings.foldl put c = settings'.foldl put c := by
  apply same.foldl_eq'
  intro r hr s hs c
  by_cases named : r.name = s.name
  · rw [List.inj_on_of_nodup_map distinct hr hs named]
  · exact put_comm named c

end Setting

/-- The text is an object whose members give these settings, in this order. -/
def IsObject (settings : List Setting) (text : List Char) : Prop :=
  ∃ fields, List.Forall₂ Setting.IsField settings fields ∧ LaidOut (objectTokens fields) text

/-- The text is an array of the values of these settings, in this order. -/
def IsArray (settings : List Setting) (text : List Char) : Prop :=
  ∃ values, List.Forall₂ Setting.Written settings values ∧ LaidOut (arrayTokens values) text

variable {settings : List Setting} {fields : List (String × List Token)} {text : List Char}

theorem reader_object (fields : List (String × List Token)) :
    reader (objectTokens fields) = (object Draft.field {}
      (List.intercalate [.comma] (fields.map fieldTokens) ++ [.closeBrace])).map
        fun (d, rest) => (d.complete, rest) := by
  have whole := objectTokens_append fields []
  rw [List.append_nil] at whole
  rw [whole]
  rfl

theorem reader_array (values : List (List Token)) :
    reader (arrayTokens values) = (array Draft.fills {}
      (List.intercalate [.comma] values ++ [.closeBracket])).map
        fun ((d, _), rest) => (d.complete, rest) := by
  have whole := arrayTokens_append values []
  rw [List.append_nil] at whole
  rw [whole]
  rfl

theorem readText_object (distinct : (settings.map Setting.name).Nodup) (h : IsObject settings text) :
    Json.readText reader (String.ofList text) = .ok (settings.foldl Setting.put {}) := by
  obtain ⟨fields, given, laid⟩ := h
  have fills := Setting.fills_of_fields given distinct (d := {}) fun s _ => by cases s <;> rfl
  rw [Json.readText, laid.tokens, reader_object, object_of_fills fills []]
  change Except.ok (settings.foldl Setting.give {}).complete = _
  rw [Setting.complete_foldl]
  rfl

theorem takes_of_written {values : List (List Token)}
    (given : List.Forall₂ Setting.Written settings values) (more : List (Filler Draft)) (d : Draft) :
    Takes (settings.map Setting.filler ++ more) d values (settings.foldl Setting.give d) := by
  induction given generalizing d with
  | nil => exact .nil more d
  | cons head tail ih => exact .cons head.isValue (head.finds d) (ih _)

/-- An array has the settings in their own order, and may end after any of them. -/
theorem readText_array (k : TapeKind) (n m : UInt64) (count : Nat)
    (h : IsArray ([.tape k, .tapeBytes n, .chunkSize m].take count) text) :
    Json.readText reader (String.ofList text) =
      .ok (([.tape k, .tapeBytes n, .chunkSize m].take count).foldl Setting.put {}) := by
  obtain ⟨values, given, laid⟩ := h
  have takes := takes_of_written given
    (([.tape k, .tapeBytes n, .chunkSize m].drop count).map Setting.filler) {}
  rw [← List.map_append, List.take_append_drop] at takes
  have all : Draft.fills = [Setting.tape k, .tapeBytes n, .chunkSize m].map Setting.filler := rfl
  rw [Json.readText, laid.tokens, reader_array, all, array_of_takes takes []]
  change Except.ok (List.foldl Setting.give {} _).complete = _
  rw [Setting.complete_foldl]
  rfl

theorem settings_of_readText {c : Config} (values : ∀ f ∈ fields, IsValue f.2)
    (laid : LaidOut (objectTokens fields) text)
    (found : Json.readText reader (String.ofList text) = .ok c) :
    ∃ settings, List.Forall₂ Setting.IsField settings fields ∧
      (settings.map Setting.name).Nodup ∧ c = settings.foldl Setting.put {} := by
  rw [Json.readText, laid.tokens, reader_object] at found
  obtain ⟨_, read, last⟩ := ok_of_bind found
  obtain ⟨⟨d, rest⟩, filled, rfl⟩ := ok_of_map read
  obtain ⟨fills, rfl⟩ :=
    fills_of_object (fun _ _ _ known => Setting.wholeValues known) values filled
  obtain ⟨settings, given, distinct, -, rfl⟩ := Setting.fields_of_fills fills values
  cases last
  exact ⟨settings, given, distinct, Setting.complete_foldl settings {}⟩

theorem readText_of_fault (given : List.Forall₂ Setting.IsField settings fields)
    (distinct : (settings.map Setting.name).Nodup) {key : String} {fault : Json.Error}
    (unknown : Draft.field (settings.foldl Setting.give {}) key = .error fault)
    {value : List Token} {others : List (String × List Token)}
    (laid : LaidOut (objectTokens (fields ++ (key, value) :: others)) text) :
    Json.readText reader (String.ofList text) = .error fault := by
  have fills := Setting.fills_of_fields given distinct (d := {}) fun s _ => by cases s <;> rfl
  rw [Json.readText, laid.tokens, reader_object, object_of_fault fills unknown]
  rfl

theorem names_of_fields (given : List.Forall₂ Setting.IsField settings fields) :
    fields.map Prod.fst = settings.map Setting.name := by
  induction given with
  | nil => rfl
  | cons head tail ih => rw [List.map_cons, List.map_cons, ih, head.1]

/-- A member of another name, or a second one of the same, is refused wherever it stands. -/
theorem readText_of_bad_member (values : ∀ f ∈ fields, IsValue f.2)
    (laid : LaidOut (objectTokens fields) text)
    (bad : (∃ f ∈ fields, f.1 ∉ Draft.names) ∨ ¬(fields.map Prod.fst).Nodup) :
    ∃ e, Json.readText reader (String.ofList text) = .error e := by
  cases found : Json.readText reader (String.ofList text) with
  | error e => exact ⟨e, rfl⟩
  | ok c =>
    obtain ⟨settings, given, distinct, -⟩ := settings_of_readText values laid found
    rw [← names_of_fields given] at distinct
    rcases bad with ⟨f, hf, other⟩ | twice
    · have member : f.1 ∈ fields.map Prod.fst := List.mem_map_of_mem hf
      rw [names_of_fields given] at member
      obtain ⟨s, -, same⟩ := List.mem_map.mp member
      rw [← same] at other
      exact absurd s.name_mem other
    · exact absurd distinct twice

theorem checked_of_validate (c : Config) :
    (c.validate = .ok () → c.checked = .ok c) ∧
      ∀ e, c.validate = .error e → c.checked = .error e := by
  rw [checked]
  refine ⟨fun valid => ?_, fun e invalid => ?_⟩
  · rw [valid]
    rfl
  · rw [invalid]
    rfl

/-- The members of an object give settings that replace the defaults, in whatever order they stand.
The configuration is refused if it is not valid, and only then; the array of the settings, which may
end after any of them, means the same. A member of another name, or a name given twice, is refused
wherever it stands, and if nothing is wrong before it, it is what the error is about. -/
theorem parse_means_settings :
    (∀ settings text, (settings.map Setting.name).Nodup → IsObject settings text →
      let c := settings.foldl Setting.put {}
      (c.validate = .ok () → parse (String.ofList text) = .ok c) ∧
      ∀ e, c.validate = .error e → parse (String.ofList text) = .error e) ∧
    (∀ settings settings' text text', (settings.map Setting.name).Nodup →
      settings.Perm settings' → IsObject settings text → IsObject settings' text' →
      parse (String.ofList text) = parse (String.ofList text')) ∧
    (∀ k n m count text text',
      let settings := [.tape k, .tapeBytes n, .chunkSize m].take count
      IsArray settings text → IsObject settings text' →
      parse (String.ofList text) = parse (String.ofList text')) ∧
    (∀ fields text, (∀ f ∈ fields, IsValue f.2) → LaidOut (objectTokens fields) text →
      (∃ f ∈ fields, f.1 ∉ Draft.names) ∨ ¬(fields.map Prod.fst).Nodup →
      ∃ e, parse (String.ofList text) = .error (.invalidText e)) ∧
    ∀ settings fields key value others text, (settings.map Setting.name).Nodup →
      List.Forall₂ Setting.IsField settings fields →
      LaidOut (objectTokens (fields ++ (key, value) :: others)) text →
      (key ∉ Draft.names →
        parse (String.ofList text) = .error (.invalidText (.unknownField key Draft.names))) ∧
      (key ∈ settings.map Setting.name →
        parse (String.ofList text) = .error (.invalidText (.duplicateField key))) := by
  have object {settings : List Setting} {text : List Char}
      (distinct : (settings.map Setting.name).Nodup) (h : IsObject settings text) :
      parse (String.ofList text) = (settings.foldl Setting.put {}).checked := by
    rw [parse, readText_object distinct h]
  refine ⟨?_, ?_, ?_, ?_, ?_⟩
  · intro settings text distinct h c
    rw [object distinct h]
    exact checked_of_validate c
  · intro settings settings' text text' distinct same h h'
    have distinct' : (settings'.map Setting.name).Nodup := (same.map _).nodup_iff.mp distinct
    rw [object distinct h, object distinct' h', Setting.foldl_put_perm same distinct]
  · intro k n m count text text' settings h h'
    have all : ([Setting.tape k, .tapeBytes n, .chunkSize m].map Setting.name).Nodup := by
      change ["tape", "tape_bytes", "chunk_size"].Nodup
      decide
    have distinct : (settings.map Setting.name).Nodup := by
      rw [List.map_take]
      exact all.sublist (List.take_sublist _ _)
    rw [object distinct h', parse, readText_array k n m count h]
  · intro fields text values laid bad
    obtain ⟨e, refused⟩ := readText_of_bad_member values laid bad
    exact ⟨e, by rw [parse, refused]⟩
  · intro settings fields key value others text distinct given laid
    refine ⟨fun other => ?_, fun again => ?_⟩
    · rw [parse, readText_of_fault given distinct (Setting.field_of_unknown other) laid]
    · obtain ⟨s, -, rfl⟩ := List.mem_map.mp again
      have there : s.isIn (settings.foldl Setting.give {}) = true :=
        (Setting.isIn_foldl settings {} s).mpr (Or.inl again)
      have fault : Draft.field (settings.foldl Setting.give {}) s.name =
          .error (.duplicateField s.name) := by
        rw [Setting.field_name, if_pos there]
      rw [parse, readText_of_fault given distinct fault laid]

/-- An object with the last field first, a name that is escaped and white space of all kinds; and one
that repeats a name with the same value. -/
theorem parse_means_settings_escaped :
    let s := "\t\x7b \"chunk_size\" : 16,\r\n\"t\\u0061pe\":\"growable\"\x7d "
    let again := "\x7b\"chunk_size\":16,\"chunk_size\":16\x7d"
    let settings : List Setting := [.chunkSize 16, .tape .growable]
    (settings.map Setting.name).Nodup ∧ IsObject settings s.toList ∧
    parse s = .ok { tape := .growable, chunkSize := 16 } ∧
    parse again = .error (.invalidText (.duplicateField "chunk_size")) := by
  intro s again settings
  obtain ⟨parsed, -, -, -, faults⟩ := parse_means_settings
  have distinct : (settings.map Setting.name).Nodup := by
    change ["chunk_size", "tape"].Nodup
    decide
  have chunkSize : Lexeme (.string (some "chunk_size")) _ := Lexeme.unescaped rfl
  have growable : Lexeme (.string (some "growable")) _ := Lexeme.unescaped rfl
  have tape : Lexeme (.string (some "tape")) _ :=
    @Lexeme.string [.char 't', .unit 0x61, .char 'p', .char 'e']
      [['t'], ['\\', 'u', '0', '0', '6', '1'], ['p'], ['e']]
      (.cons (.plain (by decide) (by decide) (by decide)) (.cons (.numbered rfl)
        (.cons (.plain (by decide) (by decide) (by decide))
          (.cons (.plain (by decide) (by decide) (by decide)) .nil))))
  have sixteen : Lexeme (sizeToken 16) ['1', '6'] := @Lexeme.natural 16 (by decide)
  have laid := @LaidOut.cons ['\t'] _ _ _ _ rfl .openBrace nofun <|
    @LaidOut.cons [' '] _ _ _ _ rfl chunkSize nofun <|
    @LaidOut.cons [' '] _ _ _ _ rfl .colon nofun <|
    @LaidOut.cons [' '] _ _ _ _ rfl sixteen (fun _ _ => by simp [EndsNumber]) <|
    @LaidOut.cons [] _ _ _ _ rfl .comma nofun <|
    @LaidOut.cons ['\r', '\n'] _ _ _ _ rfl tape nofun <|
    @LaidOut.cons [] _ _ _ _ rfl .colon nofun <|
    @LaidOut.cons [] _ _ _ _ rfl growable nofun <|
    @LaidOut.cons [] _ _ _ _ rfl .closeBrace nofun <|
    @LaidOut.nil [' '] rfl
  have object : IsObject settings s.toList :=
    ⟨[("chunk_size", [sizeToken 16]), ("tape", [.string (some TapeKind.growable.name)])],
      .cons ⟨rfl, .chunkSize 16⟩ (.cons ⟨rfl, .tape .name⟩ .nil),
      Eq.mp (congrArg (LaidOut _) (by decide)) laid⟩
  have twice := @LaidOut.cons [] _ _ _ _ rfl .openBrace nofun <|
    @LaidOut.cons [] _ _ _ _ rfl chunkSize nofun <|
    @LaidOut.cons [] _ _ _ _ rfl .colon nofun <|
    @LaidOut.cons [] _ _ _ _ rfl sixteen (fun _ _ => by simp [EndsNumber]) <|
    @LaidOut.cons [] _ _ _ _ rfl .comma nofun <|
    @LaidOut.cons [] _ _ _ _ rfl chunkSize nofun <|
    @LaidOut.cons [] _ _ _ _ rfl .colon nofun <|
    @LaidOut.cons [] _ _ _ _ rfl sixteen (fun _ _ => by simp [EndsNumber]) <|
    @LaidOut.cons [] _ _ _ _ rfl .closeBrace nofun <|
    @LaidOut.nil [] rfl
  have repeated := (faults [.chunkSize 16] [("chunk_size", [sizeToken 16])] "chunk_size"
    [sizeToken 16] [] again.toList (by simp) (.cons ⟨rfl, .chunkSize 16⟩ .nil)
    (Eq.mp (congrArg (LaidOut _) (by decide)) twice)).2 (by simp [Setting.name])
  have found := (parsed settings s.toList distinct object).1 rfl
  rw [String.ofList_toList] at found repeated
  exact ⟨distinct, object, found, repeated⟩

end Config

end TapeMachine
