import ExprLang.CommandLine.CorpusWriter
import ExprLang.CommandLine.Interpreter

/-!
# The commands

Both commands over real files and streams.  Everything that is decided or
printed is computed by the modules of `CommandLine`; here bytes are read and
texts are written.
-/

namespace ExprLang

open CommandLine

/-- The failure that an error of the operating system stands for.  An error of
another kind is passed on. -/
def readFailure (path : Path) (error : IO.Error) : IO ReadFailure :=
  match error with
  | .noFileOrDirectory _ _ _ => pure (.notFound path)
  | .inappropriateType _ 21 _ => pure (.isDirectory path)
  | .inappropriateType _ _ _ => pure (.notDirectory path)
  | .permissionDenied _ _ _ => pure (.permissionDenied path)
  | other => throw other

def readFile (path : Path) : IO (Except ReadFailure (List UInt8)) := do
  match ← (IO.FS.readBinFile path.text).toBaseIO with
  | .ok bytes => pure (.ok bytes.toList)
  | .error error => pure (.error (← readFailure path error))

partial def readStream (stream : IO.FS.Stream) (before : ByteArray) :
    IO ByteArray := do
  let bytes ← stream.read 65536
  if bytes.isEmpty then pure before else readStream stream (before ++ bytes)

def readSystemFile (name : String) : IO String := do
  match ← (IO.FS.readFile name).toBaseIO with
  | .ok text => pure text
  | .error _ => pure ""

def users : IO Users := do
  pure {
    current := Users.currentOfStatus? (← readSystemFile "/proc/self/status")
    environmentHome := ← IO.getEnv "HOME"
    accounts := Users.accountsOfText (← readSystemFile "/etc/passwd") }

def leave (result : Except Breakdown Outcome) : IO UInt32 := do
  let outcome :=
    match result with
    | .ok outcome => outcome
    | .error breakdown =>
        ⟨1, breakdown.stdout,
          breakdown.stderr ++ breakdown.trouble.message ++ "\n"⟩
  (← IO.getStderr).putStr outcome.stderr
  (← IO.getStdout).putStr outcome.stdout
  pure (UInt32.ofNat outcome.exitCode)

def interpret (arguments : List String) : IO UInt32 := do
  match Interpreter.settings arguments with
  | .error halt => leave (.ok (halt.outcome Interpreter.command))
  | .ok settings =>
      let surroundings : Interpreter.Surroundings :=
        ⟨← (← IO.getStderr).isTty, (← IO.getEnv "NO_COLOR").isSome, ← users⟩
      match Interpreter.sourcePath? surroundings.users settings.source with
      | .error trouble => leave (.error ⟨trouble, "", ""⟩)
      | .ok path =>
          let contents ←
            match path with
            | none => do
                let bytes ← readStream (← IO.getStdin) .empty
                pure (.ok bytes.toList)
            | some path => readFile path
          leave (Interpreter.outcome settings surroundings contents)

def writeCorpus (arguments : List String) : IO UInt32 := do
  match CorpusWriter.settings arguments with
  | .error halt => leave (.ok (halt.outcome CorpusWriter.command))
  | .ok settings =>
      let working := Path.ofString (← IO.currentDir).toString
      let directory := (CorpusWriter.target working settings).text
      IO.FS.createDirAll directory
      for file in CorpusWriter.files working settings do
        IO.FS.writeFile file.1.text file.2
      leave (.ok ⟨0, directory ++ "\n", ""⟩)

end ExprLang

def main (arguments : List String) : IO UInt32 := ExprLang.interpret arguments
