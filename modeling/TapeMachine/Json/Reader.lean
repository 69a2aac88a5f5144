import TapeMachine.Decimal
import TapeMachine.Json.Token
import TapeMachine.Text

namespace TapeMachine.Json

/-- What stands where a value of another type was expected. -/
inductive Found where
  | null
  | bool (b : Bool)
  | number (n : Number)
  | string (s : String)
  | sequence
  | map

def Number.describe : Number → String
  | .natural n => "integer `" ++ Text.decimal n.toNat ++ "`"
  | .negative n => "integer `" ++ Text.signedDecimal n.toInt ++ "`"
  | .real x => "floating point `" ++ Decimal.diagnostic.text x ++ "`"

def Found.describe : Found → String
  | null => "null"
  | bool b => "boolean `" ++ (if b then "true" else "false") ++ "`"
  | number n => n.describe
  | string s => "string " ++ Text.quoted s
  | sequence => "sequence"
  | map => "map"

/-- The first thing wrong with a JSON text: it is malformed, or a part of it is not what the type
asked for expects. -/
inductive Error where
  | malformed
  | invalidType (found : Found) (expected : String)
  | invalidValue (found : Number) (expected : String)
  | invalidLength (length : Nat) (expected : String)
  | unknownField (name : String) (known : List String)
  | duplicateField (name : String)
  | missingField (name : String)
  | unknownVariant (name : String) (known : List String)

def choice : List String → String
  | [a] => "expected `" ++ a ++ "`"
  | [a, b] => "expected `" ++ a ++ "` or `" ++ b ++ "`"
  | names => "expected one of " ++ ", ".intercalate (names.map fun a => "`" ++ a ++ "`")

/-- The text of an error, without the place in the text (` at line 1 column 7`) that a parser tells
behind it. A parser has a text of its own for each way in which a text can be malformed; here these
are all one. -/
def Error.message : Error → String
  | malformed => "malformed JSON"
  | invalidType found expected => "invalid type: " ++ found.describe ++ ", expected " ++ expected
  | invalidValue n expected => "invalid value: " ++ n.describe ++ ", expected " ++ expected
  | invalidLength n expected => "invalid length " ++ Text.decimal n ++ ", expected " ++ expected
  | unknownField name known => "unknown field `" ++ name ++ "`, " ++ choice known
  | duplicateField name => "duplicate field `" ++ name ++ "`"
  | missingField name => "missing field `" ++ name ++ "`"
  | unknownVariant name known => "unknown variant `" ++ name ++ "`, " ++ choice known

def Token.mismatch (expected : String) : Token → Error
  | .null => .invalidType .null expected
  | .bool b => .invalidType (.bool b) expected
  | .number (some n) => .invalidType (.number n) expected
  | .string (some s) => .invalidType (.string s) expected
  | .openBracket => .invalidType .sequence expected
  | .openBrace => .invalidType .map expected
  | _ => .malformed

/-- A reader of values of one type: the value and the tokens after it. -/
abbrev Reader (α : Type) := List Token → Except Error (α × List Token)

def single {α : Type} (read : Token → Except Error α) : Reader α
  | [] => .error .malformed
  | t :: ts => (read t).map (·, ts)

def natural (bound : Nat) (expected : String) : Token → Except Error Nat
  | .number (some (.natural n)) =>
    if n.toNat < bound then .ok n.toNat else .error (.invalidValue (.natural n) expected)
  | .number (some (.negative n)) => .error (.invalidValue (.negative n) expected)
  | t => .error (t.mismatch expected)

def text (expected : String) : Token → Except Error String
  | .string (some s) => .ok s
  | t => .error (t.mismatch expected)

/-- The elements of a list after its opening bracket and up to its closing one. -/
def elements {α : Type} (read : Token → Except Error α) : Reader (List α)
  | [] => .error .malformed
  | t :: ts => do
    let a ← read t
    match ts with
    | .comma :: ts => do
      let (as, ts) ← elements read ts
      return (a :: as, ts)
    | .closeBracket :: ts => return ([a], ts)
    | _ => .error .malformed

def list {α : Type} (expected : String) (read : Token → Except Error α) : Reader (List α)
  | .openBracket :: .closeBracket :: ts => .ok ([], ts)
  | .openBracket :: ts => elements read ts
  | t :: _ => .error (t.mismatch expected)
  | [] => .error .malformed

/-- Reads a text that holds one value and nothing after it. -/
def readText {α : Type} (read : Reader α) (s : String) : Except Error α := do
  match ← read (tokens s) with
  | (a, []) => return a
  | _ => .error .malformed

/-- What may come next inside a value that is passed over: a value, a value or the end of an empty
array, a key, a key or the end of an empty object, a colon, or a comma or the end of what is open. -/
inductive Awaiting where
  | value | element | key | member | colon | more
deriving DecidableEq

/-- A place inside a value: the arrays (`false`) and objects (`true`) around it, innermost first,
and what may come next there. -/
structure Place where
  around : List Bool
  awaiting : Awaiting
deriving DecidableEq

def Place.enter? (around : List Bool) : Token → Option Place
  | .openBrace => some ⟨true :: around, .member⟩
  | .openBracket => some ⟨false :: around, .element⟩
  | .null | .bool _ | .number _ | .string _ => some ⟨around, .more⟩
  | _ => none

/-- The place after a token, if it may stand at this one. -/
def Place.next? : Place → Token → Option Place
  | ⟨true :: outer, .more⟩, .comma => some ⟨true :: outer, .key⟩
  | ⟨false :: outer, .more⟩, .comma => some ⟨false :: outer, .value⟩
  | ⟨true :: outer, .more⟩, .closeBrace => some ⟨outer, .more⟩
  | ⟨false :: outer, .more⟩, .closeBracket => some ⟨outer, .more⟩
  | ⟨true :: outer, .member⟩, .closeBrace => some ⟨outer, .more⟩
  | ⟨false :: outer, .element⟩, .closeBracket => some ⟨outer, .more⟩
  | ⟨around, .key⟩, .string _ => some ⟨around, .colon⟩
  | ⟨around, .member⟩, .string _ => some ⟨around, .colon⟩
  | ⟨around, .colon⟩, .colon => some ⟨around, .value⟩
  | ⟨around, .value⟩, t => Place.enter? around t
  | ⟨around, .element⟩, t => Place.enter? around t
  | _, _ => none

/-- Passes over tokens up to the end of the outermost value. -/
def skipFrom (p : Place) : List Token → Except Error (List Token)
  | [] => .error .malformed
  | t :: ts =>
    match p.next? t with
    | none => .error .malformed
    | some ⟨[], .more⟩ => .ok ts
    | some q => skipFrom q ts

def skip : List Token → Except Error (List Token) := skipFrom ⟨[], .value⟩

abbrev Filler (δ : Type) := δ → Reader δ

def fillSingle {δ α : Type} (read : Token → Except Error α) (put : δ → α → δ) : Filler δ :=
  fun d ts => (single read ts).map fun (a, rest) => (put d a, rest)

/-- The members of an object, from a key on. What a key stands for is decided as soon as it is
read: `field` gives the filler of its value, or an error. Each member takes a token at least, so
the number of tokens is fuel enough. -/
def members {δ : Type} (field : δ → String → Except Error (Filler δ)) :
    (fuel : Nat) → δ → Reader δ
  | fuel + 1, d, .string (some key) :: ts => do
    let fill ← field d key
    match ts with
    | .colon :: ts => do
      match ← fill d ts with
      | (d, .comma :: ts) => members field fuel d ts
      | (d, .closeBrace :: ts) => return (d, ts)
      | _ => .error .malformed
    | _ => .error .malformed
  | _, _, _ => .error .malformed

def object {δ : Type} (field : δ → String → Except Error (Filler δ)) (d : δ) : Reader δ
  | .closeBrace :: ts => .ok (d, ts)
  | ts => members field ts.length d ts

/-- The fields of an array from its second one on, with the number of fields read; the array may
end early. -/
def moreFields {δ : Type} : List (Filler δ) → (count : Nat) → δ → Reader (δ × Nat)
  | _, count, d, .closeBracket :: ts => .ok ((d, count), ts)
  | fill :: fills, count, d, .comma :: ts => do
    let (d, ts) ← fill d ts
    moreFields fills (count + 1) d ts
  | _, _, _, _ => .error .malformed

def array {δ : Type} (fills : List (Filler δ)) (d : δ) : Reader (δ × Nat)
  | .closeBracket :: ts => .ok ((d, 0), ts)
  | ts =>
    match fills with
    | [] => .error .malformed
    | fill :: fills => do
      let (d, ts) ← fill d ts
      moreFields fills 1 d ts

end TapeMachine.Json
