import TapeMachine.Proofs.Json.Reading
import TapeMachine.Serial

namespace TapeMachine

open Json

namespace Symbol

def token (s : Symbol) : Token := .number (some (.natural s.code.toNat.toUInt64))

theorem code_lt_size (s : Symbol) : s.code.toNat < UInt64.size :=
  Nat.lt_trans s.code.toNat_lt (by decide)

theorem prints_json (s : Symbol) : Prints s.json [s.token] := prints_natural s.code_lt_size

theorem ofToken_token (s : Symbol) : ofToken s.token = .ok s := by
  rw [ofToken, token, natural_of_lt s.code_lt_size s.code.toNat_lt]
  change Except.ok (Symbol.mk (UInt32.ofNat s.code.toNat)) = _
  rw [UInt32.ofNat_toNat]

theorem finds_token (s : Symbol) : Finds reader [s.token] s := finds_single s.ofToken_token

end Symbol

namespace Alphabet

def tokens (a : Alphabet) : List Token := arrayTokens (a.symbols.map fun s => [s.token])

theorem prints_json (a : Alphabet) : Prints a.json a.tokens := by
  apply prints_array
  rw [List.forall₂_map_left_iff, List.forall₂_map_right_iff, List.forall₂_same]
  exact fun s _ => s.prints_json

theorem finds_tokens (a : Alphabet) : Finds reader a.tokens a := by
  intro rest
  have found := finds_list Symbol.ofToken_token (fun s h => by cases h) "a sequence" a.symbols rest
  rw [reader, tokens, found]
  rfl

end Alphabet

namespace NoTransition

def fields (f : NoTransition) : List (String × List Token) :=
  [("state", [.string (some f.state)]), ("symbol", [f.symbol.token])]

theorem prints_json (f : NoTransition) : Prints f.json (objectTokens f.fields) := by
  apply prints_object
  exact .cons ⟨rfl, prints_string f.state⟩ (.cons ⟨rfl, f.symbol.prints_json⟩ .nil)

theorem fills (f : NoTransition) :
    Fills Draft.field {} f.fields { state := some f.state, symbol := some f.symbol } := by
  have state : text "a string" (.string (some f.state)) = .ok f.state := rfl
  exact .cons rfl (finds_fillSingle state _ _)
    (.cons rfl (finds_fillSingle f.symbol.ofToken_token _ _) (.nil _))

theorem finds_fields (f : NoTransition) : Finds reader (objectTokens f.fields) f := by
  intro rest
  rw [objectTokens_append, reader, object_of_fills f.fills rest]
  rfl

end NoTransition

namespace TapeKind

theorem finds_name (k : TapeKind) : Finds reader [.string (some k.name)] k := by
  intro rest
  cases k with
  | reserved => rfl
  | growable => rfl

end TapeKind

namespace Config

def sizeToken (n : UInt64) : Token := .number (some (.natural n.toNat.toUInt64))

def fields (c : Config) : List (String × List Token) :=
  [("tape", [.string (some c.tape.name)]), ("tape_bytes", [sizeToken c.tapeBytes]),
    ("chunk_size", [sizeToken c.chunkSize])]

theorem prints_json (c : Config) : Prints c.json (objectTokens c.fields) := by
  apply prints_object
  exact .cons ⟨rfl, prints_string c.tape.name⟩ (.cons ⟨rfl, prints_natural c.tapeBytes.toNat_lt⟩
    (.cons ⟨rfl, prints_natural c.chunkSize.toNat_lt⟩ .nil))

theorem size_sizeToken (n : UInt64) : Draft.size (sizeToken n) = .ok n := by
  rw [Draft.size, sizeToken, natural_of_lt n.toNat_lt n.toNat_lt]
  exact congrArg Except.ok UInt64.ofNat_toNat

theorem finds_fillTape (d : Draft) (k : TapeKind) :
    Finds (Draft.fillTape d) [.string (some k.name)] { d with tape := some k } := by
  intro rest
  rw [Draft.fillTape, k.finds_name rest]
  rfl

theorem fills (c : Config) : Fills Draft.field {} c.fields
    { tape := some c.tape, tapeBytes := some c.tapeBytes, chunkSize := some c.chunkSize } :=
  .cons rfl (finds_fillTape _ c.tape)
    (.cons rfl (finds_fillSingle (size_sizeToken c.tapeBytes) _ _)
      (.cons rfl (finds_fillSingle (size_sizeToken c.chunkSize) _ _) (.nil _)))

theorem finds_fields (c : Config) : Finds reader (objectTokens c.fields) c := by
  intro rest
  rw [objectTokens_append, reader, object_of_fills c.fills rest]
  rfl

theorem parse_json (c : Config) : parse (String.ofList c.json) = c.checked := by
  rw [parse, c.finds_fields.readText c.prints_json]

end Config

/-- What is printed for a value is read as that value: for every symbol, whether or not it is a
character; every alphabet, in its order and with what it repeats; every missing transition, whatever
its state is called; every kind of tape; and every configuration, valid or not. A configuration that
is not valid is refused then for what is wrong with it, and not for its text. -/
theorem readText_json :
    (∀ s : Symbol, readText Symbol.reader (String.ofList s.json) = .ok s) ∧
    (∀ a : Alphabet, readText Alphabet.reader (String.ofList a.json) = .ok a) ∧
    (∀ f : NoTransition, readText NoTransition.reader (String.ofList f.json) = .ok f) ∧
    (∀ k : TapeKind, readText TapeKind.reader (String.ofList k.json) = .ok k) ∧
    (∀ c : Config, readText Config.reader (String.ofList c.json) = .ok c) ∧
    ∀ c : Config, (c.validate = .ok () → Config.parse (String.ofList c.json) = .ok c) ∧
      ∀ e, c.validate = .error e → Config.parse (String.ofList c.json) = .error e := by
  refine ⟨fun s => s.finds_token.readText s.prints_json,
    fun a => a.finds_tokens.readText a.prints_json,
    fun f => f.finds_fields.readText f.prints_json,
    fun k => k.finds_name.readText (prints_string k.name),
    fun c => c.finds_fields.readText c.prints_json, fun c => ?_⟩
  rw [c.parse_json, Config.checked]
  refine ⟨fun valid => ?_, fun e invalid => ?_⟩
  · rw [valid]
    rfl
  · rw [invalid]
    rfl

/-- A quote and a control character are escaped, and any other character stands for itself. -/
example : String.ofList (NoTransition.json ⟨"q\"\x01é", ⟨0xFFFFFFFF⟩⟩) =
    "\x7b\"state\":\"q\\\"\\u0001é\",\"symbol\":4294967295\x7d" := by decide

end TapeMachine
