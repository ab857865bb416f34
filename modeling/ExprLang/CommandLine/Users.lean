import ExprLang.CommandLine.Files
import ExprLang.CommandLine.Outcome

/-!
# Home directories

A relative path may begin with the home directory of a user, written as a tilde
and the name of the user.  No name stands for the user who runs the command, and
the environment may say otherwise where that user is at home.
-/

namespace ExprLang.CommandLine

structure Account where
  name : String
  number : Nat
  home : String
  deriving DecidableEq, Repr

def Account.ofLine? (line : String) : Option Account :=
  match line.splitOn ":" with
  | [name, _, number, _, _, home, _] => number.toNat?.map (⟨name, ·, home⟩)
  | _ => none

/-- The accounts of a system, with the number of the user who runs a command, if
it is known, and the home directory that the environment names. -/
structure Users where
  current : Option Nat
  environmentHome : Option String
  accounts : List Account
  deriving DecidableEq, Repr

namespace Users

def accountsOfText (text : String) : List Account :=
  (text.splitOn "\n").filterMap Account.ofLine?

def currentOfStatus? (text : String) : Option Nat :=
  (text.splitOn "\n").findSome? fun line =>
    match line.splitOn "\t" with
    | "Uid:" :: number :: _ => number.toNat?
    | _ => none

def home? (users : Users) (name : String) : Option String :=
  if name = "" then
    match users.environmentHome with
    | some home => some home
    | none =>
        (users.accounts.find? fun account =>
          some account.number = users.current).map Account.home
  else
    (users.accounts.find? fun account => account.name = name).map Account.home

end Users

def Path.ofHome (home : String) : Path :=
  let kept := (home.toList.reverse.dropWhile (· = '/')).reverse
  if kept = [] then ⟨"/", []⟩ else Path.ofString (String.ofList kept)

/-- A home directory that begins with a tilde counts as unknown. -/
def Users.homePath (users : Users) (name : String) : Except Trouble Path :=
  if name.toList.contains '\x00' then throw .nullCharacter
  else
    match users.home? name with
    | none => throw .homeUnknown
    | some home =>
        if home.toList.head? = some '~' then throw .homeUnknown
        else pure (Path.ofHome home)

def Path.expanded (users : Users) (path : Path) : Except Trouble Path :=
  match path.isAbsolute, path.names with
  | false, name :: rest =>
      match name.toList with
      | '~' :: user => do
          let home ← users.homePath (String.ofList user)
          pure ⟨home.root, home.names ++ rest⟩
      | _ => pure path
  | _, _ => pure path

end ExprLang.CommandLine
