import FortranDeps.Text.Blank
import FortranDeps.Text.WordChar

/-!
Preprocessor directives. A line is a directive if its first character that is not blank
is a hash mark; every other line is content. Keywords may be written in any letter case.
-/

namespace FortranDeps.Preprocess

inductive Directive where
  | includeFile (target : String)
  | define (name : String) (value : Option String)
  | undefine (name : String)
  | ifDefined (name : String)
  | ifUndefined (name : String)
  | otherwise
  | endIf
  /-- A condition on an expression, which cannot be evaluated. -/
  | unsupported (keyword : String)
  /-- Any other keyword, kept as it was written; such lines pass through unchanged. -/
  | unknown (keyword : String)
  deriving DecidableEq, Repr

namespace Directive

def opensBlock : Directive → Bool
  | ifDefined _ | ifUndefined _ => true
  | _ => false

def closesBlock : Directive → Bool
  | endIf => true
  | _ => false

/-- What can be wrong with the arguments of a directive. -/
inductive Fault where
  | missingName (keyword : String)
  | invalidName (keyword name : String)
  | functionLike (name : String)
  | missingTarget
  | unterminatedTarget (arguments : String)
  deriving DecidableEq, Repr

def Fault.message : Fault → String
  | missingName keyword => "#" ++ keyword ++ " requires a macro name"
  | invalidName keyword name => "#" ++ keyword ++ ": '" ++ name ++ "' is not a valid macro name"
  | functionLike name => "function-like macro '" ++ name ++ "' is not supported"
  | missingTarget => "#include requires a file name"
  | unterminatedTarget arguments => "unterminated file name in #include " ++ arguments

/-- Names of the preprocessor: a letter or underscore, then letters, digits and
underscores, all of them ASCII. -/
def isIdentifier : List Char → Bool
  | [] => false
  | c :: rest => Text.isNameStart c && rest.all Text.isNameChar

def checkName (keyword : String) (name : List Char) : Except Fault String :=
  if name.isEmpty then .error (.missingName keyword)
  else if isIdentifier name then .ok (String.ofList name)
  else .error (.invalidName keyword (String.ofList name))

/-- The mark that ends a file name opened by the given mark. -/
def closingMark (mark : Char) : Option Char :=
  if mark = '<' then some '>'
  else if mark = '"' ∨ mark = '\'' then some mark
  else none

/-- The file name in the arguments of an inclusion: what stands between the marks, or
the first word if there are none. -/
def target (arguments : List Char) : Except Fault String :=
  let checked (name : List Char) : Except Fault String :=
    if name.isEmpty then .error .missingTarget else .ok (String.ofList name)
  match arguments with
  | [] => .error .missingTarget
  | mark :: inner =>
      match closingMark mark with
      | none => checked (Text.firstWord arguments)
      | some close =>
          if inner.contains close then checked (inner.takeWhile (· ≠ close))
          else .error (.unterminatedTarget (String.ofList arguments))

/-- A definition: the name up to the first blank, and what follows it, if anything. -/
def definition (arguments : List Char) : Except Fault Directive := do
  let name := arguments.takeWhile (!Text.isBlank ·)
  let value := Text.trim (arguments.dropWhile (!Text.isBlank ·))
  if name.contains '(' then throw (.functionLike (String.ofList name))
  let name ← checkName "define" name
  return .define name (if value.isEmpty then none else some (String.ofList value))

/-- The directive with the given keyword and arguments, the arguments trimmed. -/
def ofKeyword (keyword arguments : List Char) : Except Fault Directive :=
  match String.ofList (keyword.map Char.toLower) with
  | "include" => includeFile <$> target arguments
  | "define" => definition arguments
  | "undef" => undefine <$> checkName "undef" (Text.firstWord arguments)
  | "ifdef" => ifDefined <$> checkName "ifdef" (Text.firstWord arguments)
  | "ifndef" => ifUndefined <$> checkName "ifndef" (Text.firstWord arguments)
  | "else" => .ok otherwise
  | "endif" => .ok endIf
  | "if" => .ok (unsupported "if")
  | "elif" => .ok (unsupported "elif")
  | _ => .ok (unknown (String.ofList keyword))

/-- Reads a line: no directive for content, a fault for a directive whose arguments are
wrong. -/
def classify (text : String) : Except Fault (Option Directive) :=
  match Text.trimStart text.toList with
  | '#' :: body =>
      let body := Text.trimStart body
      let keyword := body.takeWhile Text.isNameChar
      let arguments := Text.trim (body.dropWhile Text.isNameChar)
      some <$> ofKeyword keyword arguments
  | _ => .ok none

end Directive

end FortranDeps.Preprocess
