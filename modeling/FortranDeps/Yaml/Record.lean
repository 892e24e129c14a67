import FortranDeps.Yaml.Document
import FortranDeps.Yaml.Lexer

/-!
Documents as values of a known shape. A scalar of any style is a text, so numbers and
truth values can stand where a text is wanted. Where nothing is written, a record has no
fields and a list no items.
-/

namespace FortranDeps.Yaml

/-- Reads the only document of a text. -/
def Document.parse (text : String) : Except Fault Document := do
  Document.ofTokens (← tokenize text)

/-- The node that a reference stands for. -/
def Document.resolve (document : Document) : Node → Node
  | .reference anchor => (document.anchored.lookup anchor).getD .absent
  | node => node

namespace Node

def text : Node → Except Fault String
  | scalar _ _ text => .ok text
  | _ => .error (.expected "a string")

/-- Whether a scalar is read as a truth value or a number: it is plain, or a literal block
with the tag of that type. -/
def isTyped (typeTag : String) (tag : Option String) : Style → Bool
  | .plain => true
  | .literal => tag == some typeTag
  | _ => false

def truthValue? : String → Option Bool
  | "true" | "True" | "TRUE" => some true
  | "false" | "False" | "FALSE" => some false
  | _ => none

def bool : Node → Except Fault Bool
  | scalar tag style text =>
      match isTyped "tag:yaml.org,2002:bool" tag style, truthValue? text with
      | true, some value => .ok value
      | _, _ => .error (.expected "a boolean")
  | _ => .error (.expected "a boolean")

/-- The value of a digit in any base up to sixteen. -/
def digits? (base : Nat) (text : List Char) : Option Nat :=
  if text.isEmpty then none
  else text.foldlM (fun value digit => do
    let digit ← hexDigit? digit
    if digit < base then some (base * value + digit) else none) 0

/-- A number in base ten. Digits after a leading zero are no number. -/
def decimal? : List Char → Option Nat
  | '0' :: _ :: _ => none
  | digits => digits? 10 digits

/-- A natural number, in base sixteen, eight, two or ten. -/
def unsigned? (text : List Char) : Option Nat :=
  let unsigned := match text with
    | '+' :: rest => rest
    | rest => rest
  match unsigned with
  | '0' :: 'x' :: digits => digits? 16 digits
  | '0' :: 'o' :: digits => digits? 8 digits
  | '0' :: 'b' :: digits => digits? 2 digits
  | digits => decimal? digits

/-- A natural number below a limit. -/
def natural (limit : Nat) : Node → Except Fault Nat
  | scalar tag style text =>
      match isTyped "tag:yaml.org,2002:int" tag style, unsigned? text.toList with
      | true, some value =>
          if value < limit then .ok value else .error (.expected "a smaller number")
      | _, _ => .error (.expected "a number")
  | _ => .error (.expected "a number")

/-- The name of a variant: a text, or a tag of its own with nothing after it. -/
def variant : Node → Except Fault String
  | scalar (some tag) style text =>
      match tag.toList with
      | '!' :: name =>
          if style = .plain && text ∈ ["", "~", "null", "Null", "NULL"] then
            .ok (String.ofList name)
          else .error (.expected "a unit variant")
      | _ => .ok text
  | scalar none _ text => .ok text
  | _ => .error (.expected "a variant")

/-- The items of a list. -/
def items (document : Document) : Node → Except Fault (List Node)
  | sequence items => .ok (items.map document.resolve)
  | scalar _ .plain "" => .ok []
  | _ => .error (.expected "a sequence")

def texts (document : Document) (node : Node) : Except Fault (List String) := do
  (← node.items document).mapM text

end Node

/-- The fields of a record whose names are known. -/
abbrev Fields := List (String × Node)

namespace Fields

/-- Adds a field if its name is known; a known name may occur once. -/
def insert (known : List String) (fields : Fields) (name : String) (node : Node) :
    Except Fault Fields :=
  if name ∈ known then
    if (fields.lookup name).isSome then .error (.duplicateField name)
    else .ok (fields ++ [(name, node)])
  else .ok fields

def ofEntries (document : Document) (known : List String) (entries : List (Node × Node)) :
    Except Fault Fields :=
  entries.foldlM (fun fields (key, value) => do
    fields.insert known (← (document.resolve key).text) (document.resolve value)) []

/-- The fields of a record with known names. Other fields are passed over. -/
def ofNode (document : Document) (known : List String) : Node → Except Fault Fields
  | .mapping entries => ofEntries document known entries
  | .scalar _ .plain "" => .ok []
  | _ => .error (.expected "a mapping")

/-- The value of a field, or a standard value if it is missing. -/
def get {Value : Type} (fields : Fields) (name : String) (standard : Value)
    (read : Node → Except Fault Value) : Except Fault Value :=
  match fields.lookup name with
  | some node => read node
  | none => .ok standard

end Fields

end FortranDeps.Yaml
