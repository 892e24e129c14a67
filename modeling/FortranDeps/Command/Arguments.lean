/-!
Command line arguments. A command knows some options; an option is a switch or takes a
value, which stands in the same argument or in the next one. Reading stops at the first
fault, and at the first option that asks for information only.
-/

namespace FortranDeps.Command

inductive OptionName where
  | config | verbose | version | help
  | root | file | manifestIn | extension | ignore | alwaysInclude | exclude | skip
  | define | includePath | noPreprocess | failFast | jobs
  | output | manifest | objectDirectory | objectExtension | overwrite | linkRules
  | format
  deriving DecidableEq, Repr

/-- What the value of an option has to be. -/
inductive ValueKind where
  /-- A path is not empty. -/
  | path
  | text
  | number
  | oneOf (choices : List String)
  deriving DecidableEq, Repr

inductive Arity where
  /-- A switch that may be given once. -/
  | switch
  /-- A switch that may be repeated. -/
  | count
  | single (kind : ValueKind)
  | many (kind : ValueKind)
  /-- An option that ends the reading. -/
  | information
  deriving DecidableEq, Repr

structure OptionSpec where
  name : OptionName
  short : Option Char
  long : String
  arity : Arity
  deriving DecidableEq, Repr

def Arity.kind? : Arity → Option ValueKind
  | single kind | many kind => some kind
  | _ => none

/-- Whether an option may be given more than once. -/
def Arity.isRepeatable : Arity → Bool
  | count | many _ => true
  | _ => false

/-- Why reading stops early. -/
inductive Stop where
  | information (name : OptionName)
  | unknownOption (argument : String)
  | missingValue (option : String)
  | unwantedValue (option : String)
  | invalidValue (option value : String)
  | repeated (option : String)
  | unexpected (argument : String)
  | unknownCommand (name : String)
  | missingCommand
  | missingInput
  deriving DecidableEq, Repr

/-- Decimal digits with an optional plus sign, for a number that fits into 64 bits. -/
def number? (text : String) : Option Nat :=
  let digits := match text.toList with
    | '+' :: digits => digits
    | digits => digits
  if digits.isEmpty || !digits.all Char.isDigit then none
  else
    let value := digits.foldl (fun value digit => 10 * value + (digit.toNat - '0'.toNat)) 0
    if value < Nat.pow 2 64 then some value else none

def ValueKind.accepts : ValueKind → String → Bool
  | path, value => value ≠ ""
  | text, _ => true
  | number, value => (number? value).isSome
  | oneOf choices, value => value ∈ choices

/-- What has been read. -/
structure Arguments where
  /-- The options with their values, which are empty for switches, in order. -/
  options : List (OptionName × String) := []
  words : List String := []
  /-- The option whose value is the next argument. -/
  pending : Option OptionSpec := none
  /-- Whether all further arguments are words. -/
  onlyWords : Bool := false
  deriving DecidableEq, Repr

namespace Arguments

def has (arguments : Arguments) (name : OptionName) : Bool :=
  arguments.options.any (·.1 == name)

/-- The values of an option, in order. -/
def values (arguments : Arguments) (name : OptionName) : List String :=
  arguments.options.filterMap fun (given, value) => if given = name then some value else none

def value? (arguments : Arguments) (name : OptionName) : Option String :=
  (arguments.values name).getLast?

/-- Takes an option with its value. -/
def give (arguments : Arguments) (spec : OptionSpec) (value : String) : Except Stop Arguments :=
  if !spec.arity.kind?.all (·.accepts value) then .error (.invalidValue spec.long value)
  else if !spec.arity.isRepeatable && arguments.has spec.name then .error (.repeated spec.long)
  else .ok { arguments with options := arguments.options ++ [(spec.name, value)], pending := none }

/-- Takes an option, with the value that is attached to it if there is one. -/
def readOption (arguments : Arguments) (spec : OptionSpec) (attached : Option String) :
    Except Stop Arguments :=
  match spec.arity.kind?, attached with
  | some _, some value => arguments.give spec value
  | some _, none => .ok { arguments with pending := some spec }
  | none, some _ => .error (.unwantedValue spec.long)
  | none, none =>
      if spec.arity = .information then .error (.information spec.name)
      else arguments.give spec ""

/-- Reads options written as letters after a single dash. The text after the letter of an
option with a value is its value, less an equals sign. -/
def readLetters (specs : List OptionSpec) (arguments : Arguments) :
    List Char → Except Stop Arguments
  | [] => .ok arguments
  | letter :: rest =>
      match specs.find? (·.short == some letter) with
      | none => .error (.unknownOption ("-" ++ letter.toString))
      | some spec =>
          if spec.arity.kind?.isSome then
            arguments.readOption spec (match rest with
              | [] => none
              | '=' :: value => some (String.ofList value)
              | value => some (String.ofList value))
          else do readLetters specs (← arguments.readOption spec none) rest

/-- Reads an option written as a name after two dashes, with its value after an equals
sign if there is one. -/
def readLong (specs : List OptionSpec) (arguments : Arguments) (text : List Char) :
    Except Stop Arguments :=
  let name := String.ofList (text.takeWhile (· ≠ '='))
  let attached := match text.dropWhile (· ≠ '=') with
    | [] => none
    | _ :: value => some (String.ofList value)
  match specs.find? (·.long == name) with
  | none => .error (.unknownOption ("--" ++ name))
  | some spec => arguments.readOption spec attached

/-- An option cannot come where a value is due. -/
def requireSettled (arguments : Arguments) : Except Stop Unit :=
  match arguments.pending with
  | some spec => .error (.missingValue spec.long)
  | none => .ok ()

def readWord (arguments : Arguments) (word : String) : Except Stop Arguments :=
  match arguments.pending with
  | some spec => arguments.give spec word
  | none => .ok { arguments with words := arguments.words ++ [word] }

/-- Reads one argument. -/
def read (specs : List OptionSpec) (arguments : Arguments) (argument : String) :
    Except Stop Arguments :=
  if arguments.onlyWords then .ok { arguments with words := arguments.words ++ [argument] }
  else match argument.toList with
    | ['-', '-'] => do
        arguments.requireSettled
        return { arguments with onlyWords := true }
    | '-' :: '-' :: text => do
        arguments.requireSettled
        arguments.readLong specs text
    | '-' :: letter :: rest => do
        arguments.requireSettled
        arguments.readLetters specs (letter :: rest)
    | _ => arguments.readWord argument

/-- Reads all arguments of a command. At most the given number of words may be among
them. -/
def readAll (specs : List OptionSpec) (wordLimit : Nat) (arguments : Arguments) :
    List String → Except Stop Arguments
  | [] => do
      arguments.requireSettled
      return arguments
  | argument :: rest => do
      let arguments ← arguments.read specs argument
      if wordLimit < arguments.words.length then throw (.unexpected argument)
      arguments.readAll specs wordLimit rest

end Arguments

end FortranDeps.Command
