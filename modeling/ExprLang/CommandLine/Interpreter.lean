import ExprLang.CommandLine.Arguments
import ExprLang.CommandLine.Files
import ExprLang.CommandLine.Outcome
import ExprLang.CommandLine.Users
import ExprLang.Log
import ExprLang.Tree.Layout
import ExprLang.Tree.Outline

/-!
# The interpreter command

The command reads one source and prints the values of its statements, or its
tokens, outline or canonical form.  A source with diagnostics yields its report
instead.  Values are printed one by one when all of them are known, and the
command breaks off at one that has too many digits to be written; a command that
fails otherwise leaves standard output empty.
-/

namespace ExprLang.CommandLine

namespace Interpreter

inductive Mode where
  | values
  | tokens
  | outline
  | canonical
  deriving DecidableEq, Repr

structure Settings where
  source : String
  mode : Mode
  verbosity : Nat
  plain : Bool
  maxWidth : Int
  deriving DecidableEq, Repr

/-- What the command learns from its surroundings: whether standard error is a
terminal, whether colour is turned off for all commands, and who is at home
where. -/
structure Surroundings where
  terminal : Bool
  colorless : Bool
  users : Users
  deriving DecidableEq, Repr

/-! ## Options -/

def command : Command :=
  ⟨"translator",
    Text.terminated [
      "usage: translator [-h] [-v] [--tokens | --tree | --format] [--no-color]",
      "                  [--max-width MAX_WIDTH]",
      "                  source"],
    Text.terminated [
      "",
      "Parse and evaluate translator programs",
      "",
      "positional arguments:",
      "  source                Source file, or - for stdin",
      "",
      "options:",
      "  -h, --help            show this help message and exit",
      "  -v                    Increase log verbosity (repeatable)",
      "  --tokens              Print the token stream",
      "  --tree                Print the syntax tree",
      "  --format              Print the program in canonical form",
      "  --no-color            Do not highlight spans in diagnostics",
      "  --max-width MAX_WIDTH",
      "                        Context characters around a span (default: 80)"]⟩

def options : List OptionSpec :=
  OptionSpec.helps ++
    ["-v", "--tokens", "--tree", "--format", "--no-color"].map
      (OptionSpec.single · .flag) ++
    [.single "--max-width" .value]

def modeOf? : String → Option Mode
  | "--tokens" => some .tokens
  | "--tree" => some .outline
  | "--format" => some .canonical
  | _ => none

structure Progress where
  source : Option String
  chosen : Option (String × Mode)
  verbosity : Nat
  plain : Bool
  maxWidth : Int
  surplus : List String

def Progress.initial : Progress := ⟨none, none, 0, false, 80, []⟩

def Progress.choose (progress : Progress) (name : String) (mode : Mode) :
    Except UsageError Progress :=
  match progress.chosen with
  | some (earlier, _) =>
      if earlier = name then .ok progress
      else .error (.argument name (.conflict earlier))
  | none => .ok { progress with chosen := some (name, mode) }

def Progress.flag (progress : Progress) (name : String) :
    Except UsageError Progress :=
  match modeOf? name with
  | some mode => progress.choose name mode
  | none =>
      if name = "-v" then
        .ok { progress with verbosity := progress.verbosity + 1 }
      else .ok { progress with plain := true }

def Progress.request (progress : Progress) :
    Request → Except Halt Progress
  | .positional text => .ok { progress with source := some text }
  | .help => .error .help
  | .flag name => (progress.flag name).mapError .usage
  | .value name text => do
      let width ← (readPositive name "_positive_int" text).mapError .usage
      pure { progress with maxWidth := width }
  | .surplus text => .ok { progress with surplus := progress.surplus ++ [text] }
  | .misuse option problem => .error (.usage (.argument option problem))

/-- The settings that a list of arguments asks for.  A missing source is
reported before surplus arguments, and both after what is wrong with options. -/
def settings (arguments : List String) : Except Halt Settings := do
  let requests ← (readArguments options true arguments).mapError .usage
  let progress ← requests.foldlM Progress.request .initial
  match progress.source with
  | none => throw (.usage (.required "source"))
  | some source =>
      if progress.surplus ≠ [] then throw (.usage (.unrecognized progress.surplus))
      else
        let mode :=
          match progress.chosen with
          | some (_, mode) => mode
          | none => Mode.values
        pure ⟨source, mode, progress.verbosity, progress.plain,
          progress.maxWidth⟩

/-! ## Running -/

def logText (verbosity : Nat) (analysis : Analysis) : String :=
  if verbosity < 2 then ""
  else Text.terminated (analysis.records.map LogRecord.line)

def printing (rendering : Except Unshown String) : Except Breakdown Outcome :=
  match rendering with
  | .ok text => .ok ⟨0, text, ""⟩
  | .error cause => .error ⟨.unshown cause, "", ""⟩

def printNumbers (printed : String) : List Int → Except Breakdown Outcome
  | [] => .ok ⟨0, printed, ""⟩
  | number :: others =>
      match numberText number with
      | .ok digits => printNumbers (printed ++ digits ++ "\n") others
      | .error cause => .error ⟨.unshown cause, printed, ""⟩

def cleanOutcome (mode : Mode) (analysis : Analysis) :
    Except Breakdown Outcome :=
  match mode with
  | .tokens =>
      .ok ⟨0, Text.terminated (analysis.tokens.toList.map Token.describe), ""⟩
  | .outline =>
      printing do
        let text ← outlineText analysis.statements
        pure (text ++ "\n")
  | .canonical => printing (sourceText analysis.statements)
  | .values =>
      match evaluate analysis.statements with
      | .ok values => printNumbers "" values
      | .error refusal =>
          .ok ⟨1, "", "error: " ++ refusal.explanation.text ++ "\n"⟩

def analysisOutcome (settings : Settings) (surroundings : Surroundings)
    (analysis : Analysis) : Except Breakdown Outcome :=
  if analysis.isClean then cleanOutcome settings.mode analysis
  else
    let color :=
      !settings.plain && !surroundings.colorless && surroundings.terminal
    .ok ⟨1, "", analysis.report ⟨settings.maxWidth, color⟩ ++ "\n"⟩

def outcome (settings : Settings) (surroundings : Surroundings)
    (contents : Except ReadFailure (List UInt8)) : Except Breakdown Outcome :=
  match contents.bind decodeSource with
  | .error failure =>
      .ok ⟨1, "", "error: cannot read " ++ settings.source ++ ": " ++
        failure.message ++ "\n"⟩
  | .ok source =>
      let analysis := analyze source
      let logged := logText settings.verbosity analysis
      match analysisOutcome settings surroundings analysis with
      | .ok result => .ok { result with stderr := logged ++ result.stderr }
      | .error breakdown =>
          .error { breakdown with stderr := logged ++ breakdown.stderr }

/-- Where a source is found: in a file or, without one, in standard input, which
is named `-`.  No file has a null character in its name. -/
def sourcePath? (users : Users) (source : String) :
    Except Trouble (Option Path) :=
  if source = "-" then pure none
  else do
    let path ← (Path.ofString source).expanded users
    if path.text.toList.contains '\x00' then throw .nullCharacter
    else pure (some path)

def contents (tree : FileTree) (stdin : List UInt8) :
    Option Path → Except ReadFailure (List UInt8)
  | none => .ok stdin
  | some path => tree.read path

def run (arguments : List String) (surroundings : Surroundings)
    (tree : FileTree) (stdin : List UInt8) : Except Breakdown Outcome :=
  match settings arguments with
  | .error halt => .ok (halt.outcome command)
  | .ok chosen =>
      match sourcePath? surroundings.users chosen.source with
      | .error trouble => .error ⟨trouble, "", ""⟩
      | .ok path => outcome chosen surroundings (contents tree stdin path)

end Interpreter

end ExprLang.CommandLine
