import ExprLang.Text.Integer
import ExprLang.Text.Quoted

/-!
# Arguments

Command-line arguments are sorted into options and positional arguments and
read from left to right.  Options may stand anywhere; `--` makes all arguments
after it positional.  The name of an option may be cut short as long as it fits
no other option.  A value follows its option as the next argument or after an
equals sign, and one-letter flags may be written together.  An argument that
names no option and looks like a negative number or holds a space is positional.

All arguments are sorted before the first one is read, so an ambiguous name is
noticed before anything else.  Reading stops at the first misuse of an option or
call for help; surplus arguments are only collected.
-/

namespace ExprLang.CommandLine

inductive OptionUse where
  | help
  | flag
  | value
  deriving DecidableEq, Repr

structure OptionSpec where
  name : String
  label : String
  use : OptionUse
  deriving DecidableEq, Repr

namespace OptionSpec

def single (name : String) (use : OptionUse) : OptionSpec := ⟨name, name, use⟩

def helps : List OptionSpec :=
  ["-h", "--help"].map fun name => ⟨name, "-h/--help", .help⟩

def takesValue (spec : OptionSpec) : Bool := spec.use = .value

def isLetter (spec : OptionSpec) : Bool := spec.name.length = 2

end OptionSpec

/-! ## Errors of usage -/

inductive ArgumentProblem where
  | valueMissing
  | valueIgnored (text : String)
  | conflict (other : String)
  | notPositive (number : Int)
  | invalid (sort : String) (text : String)
  deriving DecidableEq, Repr

inductive UsageError where
  | ambiguous (text : String) (names : List String)
  | required (name : String)
  | unrecognized (texts : List String)
  | argument (option : String) (problem : ArgumentProblem)
  deriving DecidableEq, Repr

def ArgumentProblem.message : ArgumentProblem → String
  | valueMissing => "expected one argument"
  | valueIgnored text => "ignored explicit argument " ++ Text.quoted text
  | conflict other => "not allowed with argument " ++ other
  | notPositive number => "must be a positive integer, got " ++ toString number
  | invalid sort text => "invalid " ++ sort ++ " value: " ++ Text.quoted text

def UsageError.message : UsageError → String
  | ambiguous text names =>
      "ambiguous option: " ++ text ++ " could match " ++
        String.intercalate ", " names
  | required name => "the following arguments are required: " ++ name
  | unrecognized texts => "unrecognized arguments: " ++ String.intercalate " " texts
  | argument option problem => "argument " ++ option ++ ": " ++ problem.message

/-! ## Sorting -/

inductive Argument where
  | positional (text : String)
  | separator
  | option (spec : OptionSpec) (attached : Option (List Char))
  | unknown (text : String)
  deriving DecidableEq, Repr

def findOption? (options : List OptionSpec) (name : List Char) :
    Option OptionSpec :=
  options.find? fun spec => spec.name.toList == name

def isDecimalDigit (character : Char) : Bool :=
  (Text.digitValue? character).isSome

def isNegativeNumber (text : List Char) : Bool :=
  match text with
  | '-' :: digits =>
      let body := if digits.getLast? = some '\n' then digits.dropLast else digits
      match body.dropWhile isDecimalDigit with
      | [] => !body.isEmpty
      | '.' :: fraction => !fraction.isEmpty && fraction.all isDecimalDigit
      | _ => false
  | _ => false

def nameBeforeEquals (text : List Char) : List Char :=
  text.takeWhile (· ≠ '=')

def textAfterEquals? (text : List Char) : Option (List Char) :=
  match text.dropWhile (· ≠ '=') with
  | [] => none
  | _ :: value => some value

def equalsOption? (options : List OptionSpec) (text : List Char) :
    Option Argument := do
  let value ← textAfterEquals? text
  let spec ← findOption? options (nameBeforeEquals text)
  pure (.option spec (some value))

/-- The use of an option that an argument may stand for.  After two dashes the
name may be cut short; after one dash a text may follow the letter directly. -/
def shortened? (text : List Char) (spec : OptionSpec) :
    Option (OptionSpec × Option (List Char)) :=
  match text with
  | '-' :: '-' :: _ =>
      if (nameBeforeEquals text).isPrefixOf spec.name.toList then
        some (spec, textAfterEquals? text)
      else none
  | _ =>
      if spec.name.toList = text.take 2 then some (spec, some (text.drop 2))
      else if text.isPrefixOf spec.name.toList then some (spec, none)
      else none

def sortShortened (options : List OptionSpec) (argument : String) :
    Except UsageError Argument :=
  match options.filterMap (shortened? argument.toList) with
  | [(spec, attached)] => pure (.option spec attached)
  | [] =>
      if isNegativeNumber argument.toList || argument.toList.contains ' ' then
        pure (.positional argument)
      else pure (.unknown argument)
  | several => throw (.ambiguous argument (several.map fun use => use.1.name))

def sortArgument (options : List OptionSpec) (argument : String) :
    Except UsageError Argument :=
  let text := argument.toList
  match text with
  | '-' :: _ :: _ =>
      match findOption? options text with
      | some spec => pure (.option spec none)
      | none =>
          match equalsOption? options text with
          | some sorted => pure sorted
          | none => sortShortened options argument
  | _ => pure (.positional argument)

def sortArguments (options : List OptionSpec) :
    List String → Except UsageError (List Argument)
  | [] => pure []
  | argument :: rest =>
      if argument = "--" then pure (.separator :: rest.map .positional)
      else do
        let sorted ← sortArgument options argument
        let others ← sortArguments options rest
        pure (sorted :: others)

/-! ## Reading -/

inductive Request where
  | positional (text : String)
  | help
  | flag (name : String)
  | value (name : String) (text : String)
  | surplus (text : String)
  | misuse (option : String) (problem : ArgumentProblem)
  deriving DecidableEq, Repr

namespace OptionSpec

def request (spec : OptionSpec) : Request :=
  if spec.use = .help then .help else .flag spec.name

def ignoring (spec : OptionSpec) (text : List Char) : Request :=
  .misuse spec.label (.valueIgnored (String.ofList text))

end OptionSpec

def letterOption? (options : List OptionSpec) (letter : Char) :
    Option OptionSpec :=
  options.find? fun spec =>
    spec.name.toList == ['-', letter] && !spec.takesValue

/-- The requests of a one-letter option and of the letters written after it.
What begins with a letter that is no option is attached in vain to the option
before it. -/
def letterRequests (options : List OptionSpec) (spec : OptionSpec) :
    List Char → Except Request (List Request)
  | [] => .ok [spec.request]
  | letter :: rest =>
      match letterOption? options letter with
      | none => .error (spec.ignoring (letter :: rest))
      | some following => do
          let others ← letterRequests options following rest
          pure (spec.request :: others)

def attachedRequests (options : List OptionSpec) (spec : OptionSpec)
    (text : List Char) : List Request :=
  if spec.takesValue then [.value spec.name (String.ofList text)]
  else if !spec.isLetter || text.isEmpty then [spec.ignoring text]
  else
    match letterRequests options spec text with
    | .ok requests => requests
    | .error misuse => [misuse]

/-- The requests of sorted arguments.  While a positional argument is wanted,
the first one is taken, together with a separator directly before or after it;
every other positional argument and separator is surplus. -/
def requests (options : List OptionSpec) (wanted : Bool) :
    List Argument → List Request
  | [] => []
  | .positional text :: rest =>
      if wanted then
        match rest with
        | .separator :: others =>
            .positional text :: requests options false others
        | others => .positional text :: requests options false others
      else .surplus text :: requests options false rest
  | .separator :: rest =>
      match wanted, rest with
      | true, .positional text :: others =>
          .positional text :: requests options false others
      | _, others => .surplus "--" :: requests options wanted others
  | .unknown text :: rest => .surplus text :: requests options wanted rest
  | .option spec (some attached) :: rest =>
      attachedRequests options spec attached ++ requests options wanted rest
  | .option spec none :: rest =>
      if spec.takesValue then
        match rest with
        | .positional text :: others =>
            .value spec.name text :: requests options wanted others
        | others =>
            .misuse spec.label .valueMissing :: requests options wanted others
      else spec.request :: requests options wanted rest
termination_by arguments => arguments.length

def readArguments (options : List OptionSpec) (wanted : Bool)
    (arguments : List String) : Except UsageError (List Request) := do
  let sorted ← sortArguments options arguments
  pure (requests options wanted sorted)

/-! ## Values of options -/

def readInteger (option sort : String) (text : String) :
    Except UsageError Int :=
  match Text.integer? text.toList with
  | some number => .ok number
  | none => .error (.argument option (.invalid sort text))

def readPositive (option sort : String) (text : String) :
    Except UsageError Int := do
  let number ← readInteger option sort text
  if number ≤ 0 then throw (.argument option (.notPositive number))
  else pure number

end ExprLang.CommandLine
