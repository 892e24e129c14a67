/-!
JSON values and their text: one entry on each line, indented by two spaces for each level.
-/

namespace FortranDeps

inductive JsonValue where
  | null
  | bool (value : Bool)
  | text (value : String)
  | array (items : List JsonValue)
  | object (fields : List (String × JsonValue))
  deriving Repr

namespace JsonValue

def hexDigit (digit : Nat) : Char := "0123456789abcdef".toList.getD digit '0'

/-- A character inside quotes. Only quotes, backslashes and control characters are escaped. -/
def escape (c : Char) : List Char :=
  match c with
  | '"' => ['\\', '"']
  | '\\' => ['\\', '\\']
  | '\x08' => ['\\', 'b']
  | '\t' => ['\\', 't']
  | '\n' => ['\\', 'n']
  | '\x0c' => ['\\', 'f']
  | '\r' => ['\\', 'r']
  | c =>
      if c.toNat < 0x20 then
        ['\\', 'u', '0', '0', hexDigit (c.toNat / 16), hexDigit (c.toNat % 16)]
      else [c]

def quote (text : String) : String :=
  "\"" ++ String.ofList (text.toList.flatMap escape) ++ "\""

/-- A bracketed list with each entry on a line of its own. -/
def brackets (opening closing : String) (level : Nat) (entries : List String) : String :=
  let newLine (level : Nat) : String := "\n" ++ String.ofList (List.replicate (2 * level) ' ')
  match entries with
  | [] => opening ++ closing
  | entries =>
      opening ++ String.intercalate "," (entries.map (newLine (level + 1) ++ ·)) ++
        newLine level ++ closing

mutual

def renderAt (level : Nat) : JsonValue → String
  | null => "null"
  | bool true => "true"
  | bool false => "false"
  | text value => quote value
  | array items => brackets "[" "]" level (renderItems (level + 1) items)
  | object fields => brackets "\x7b" "\x7d" level (renderFields (level + 1) fields)

def renderItems (level : Nat) : List JsonValue → List String
  | [] => []
  | item :: rest => item.renderAt level :: renderItems level rest

def renderFields (level : Nat) : List (String × JsonValue) → List String
  | [] => []
  | (name, value) :: rest =>
      (quote name ++ ": " ++ value.renderAt level) :: renderFields level rest

end

def render (json : JsonValue) : String := json.renderAt 0

def ofOption : Option String → JsonValue
  | none => null
  | some value => text value

end JsonValue

end FortranDeps
