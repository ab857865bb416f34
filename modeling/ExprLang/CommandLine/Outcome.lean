import ExprLang.CommandLine.Arguments
import ExprLang.Tree

/-!
# Outcomes

What a command leaves behind on its output streams, and its exit code.  A
command that breaks off has no exit code of its own.
-/

namespace ExprLang.CommandLine

structure Outcome where
  exitCode : Nat
  stdout : String
  stderr : String
  deriving DecidableEq, Repr

inductive Trouble where
  | unshown (cause : Unshown)
  | homeUnknown
  | nullCharacter
  deriving DecidableEq, Repr

def Trouble.message : Trouble → String
  | unshown cause => cause.message
  | homeUnknown => "Could not determine home directory."
  | nullCharacter => "embedded null byte"

structure Breakdown where
  trouble : Trouble
  stdout : String
  stderr : String
  deriving DecidableEq, Repr

inductive Halt where
  | help
  | usage (error : UsageError)
  deriving DecidableEq, Repr

/-- A command by its name, the lines that show its usage, and the rest of its
help.  Both texts are laid out for a width of eighty columns. -/
structure Command where
  name : String
  usage : String
  details : String
  deriving DecidableEq, Repr

def Halt.outcome (halt : Halt) (command : Command) : Outcome :=
  match halt with
  | help => ⟨0, command.usage ++ command.details, ""⟩
  | usage error =>
      ⟨2, "", command.usage ++ command.name ++ ": error: " ++ error.message ++
        "\n"⟩

end ExprLang.CommandLine
