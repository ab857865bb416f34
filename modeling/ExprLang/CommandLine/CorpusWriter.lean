import ExprLang.CommandLine.Arguments
import ExprLang.CommandLine.Files
import ExprLang.CommandLine.Outcome
import ExprLang.Corpus.Programs
import ExprLang.Text.Lines

/-!
# The corpus command

The command writes generated programs, one file each, into a directory named
for the kind of programs, the seed and the count, and prints that directory.
-/

namespace ExprLang.CommandLine.CorpusWriter

structure Settings where
  seed : Int
  count : Int
  malformed : Bool
  directory : String
  deriving DecidableEq, Repr

def Settings.initial : Settings :=
  ⟨1, 1000, false, "tests/fixtures/generated_corpus"⟩

def command : Command :=
  ⟨"generate_corpus",
    Text.terminated [
      "usage: generate_corpus [-h] [--seed SEED] [--count COUNT] [--malformed]",
      "                       [--out OUT]"],
    Text.terminated [
      "",
      "options:",
      "  -h, --help     show this help message and exit",
      "  --seed SEED",
      "  --count COUNT",
      "  --malformed    Splice junk into every program",
      "  --out OUT"]⟩

def options : List OptionSpec :=
  OptionSpec.helps ++
    [.single "--seed" .value, .single "--count" .value,
      .single "--malformed" .flag, .single "--out" .value]

structure Progress where
  settings : Settings
  surplus : List String

def Progress.request (progress : Progress) :
    Request → Except Halt Progress
  | .positional text => .ok { progress with surplus := progress.surplus ++ [text] }
  | .surplus text => .ok { progress with surplus := progress.surplus ++ [text] }
  | .misuse option problem => .error (.usage (.argument option problem))
  | .help => .error .help
  | .flag _ =>
      .ok { progress with settings := { progress.settings with malformed := true } }
  | .value "--seed" text => do
      let seed ← (readInteger "--seed" "int" text).mapError .usage
      pure { progress with settings := { progress.settings with seed := seed } }
  | .value "--count" text => do
      let count ← (readInteger "--count" "int" text).mapError .usage
      pure { progress with settings := { progress.settings with count := count } }
  | .value _ text =>
      .ok { progress with settings := { progress.settings with directory := text } }

def settings (arguments : List String) : Except Halt Settings := do
  let requests ← (readArguments options false arguments).mapError .usage
  let progress ← requests.foldlM Progress.request ⟨.initial, []⟩
  if progress.surplus ≠ [] then throw (.usage (.unrecognized progress.surplus))
  else pure progress.settings

def kindName (settings : Settings) : String :=
  if settings.malformed then "malformed" else "valid"

def target (working : Path) (settings : Settings) : Path :=
  (working.fromDirectory (Path.ofString settings.directory)).resolved.below
    (kindName settings ++ "_seed_" ++ toString settings.seed ++ "_count_" ++
      toString settings.count)

def caseName (number : Nat) : String :=
  let digits := Nat.toDigits 10 number
  "case_" ++ String.ofList (List.replicate (6 - digits.length) '0' ++ digits) ++
    ".txt"

def sources (settings : Settings) : List String :=
  if settings.malformed then
    Corpus.seededMalformedPrograms settings.seed settings.count
  else Corpus.seededPrograms settings.seed settings.count true

def files (working : Path) (settings : Settings) : List (Path × String) :=
  (sources settings).zipIdx.map fun entry =>
    ((target working settings).below (caseName entry.2), entry.1)

def run (arguments : List String) (tree : FileTree) : Outcome × FileTree :=
  match settings arguments with
  | .error halt => (halt.outcome command, tree)
  | .ok chosen =>
      let directory := target tree.workingPath chosen
      (⟨0, directory.text ++ "\n", ""⟩,
        (files tree.workingPath chosen).foldl
          (fun tree file => tree.addFile file.1 file.2.toUTF8.toList)
          (tree.addDirectory directory))

end ExprLang.CommandLine.CorpusWriter
