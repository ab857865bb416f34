import ExprLang.Text.Quoted
import ExprLang.Text.Utf8

/-!
# Files

Paths as sequences of names, a directory tree held in memory, and the ways in
which reading a source can fail.
-/

namespace ExprLang.CommandLine

/-! ## Paths -/

/-- A path without empty names and names of one point.  `root` holds the
slashes of an absolute path: two when the path begins with exactly two. -/
structure Path where
  root : String
  names : List String
  deriving DecidableEq, Repr

namespace Path

def splitSlashes : List Char → List (List Char)
  | [] => [[]]
  | character :: rest =>
      if character = '/' then [] :: splitSlashes rest
      else
        match splitSlashes rest with
        | [] => [[character]]
        | part :: parts => (character :: part) :: parts

def ofString (text : String) : Path :=
  let characters := text.toList
  let root :=
    match (characters.takeWhile (· = '/')).length with
    | 0 => ""
    | 2 => "//"
    | _ => "/"
  let names :=
    ((splitSlashes characters).map String.ofList).filter fun name =>
      name ≠ "" ∧ name ≠ "."
  ⟨root, names⟩

def isAbsolute (path : Path) : Bool := path.root ≠ ""

def text (path : Path) : String :=
  if path.root = "" ∧ path.names = [] then "."
  else path.root ++ String.intercalate "/" path.names

def resolvedNames (path : Path) : List String :=
  path.names.foldl
    (fun reached name => if name = ".." then reached.dropLast else reached ++ [name])
    []

def resolved (path : Path) : Path := ⟨path.root, path.resolvedNames⟩

def below (path : Path) (name : String) : Path :=
  ⟨path.root, path.names ++ [name]⟩

def fromDirectory (directory path : Path) : Path :=
  if path.isAbsolute then path else ⟨directory.root, directory.names ++ path.names⟩

end Path

/-! ## Failures -/

inductive ReadFailure where
  | notFound (path : Path)
  | isDirectory (path : Path)
  | notDirectory (path : Path)
  | permissionDenied (path : Path)
  | undecodable (fault : Text.Utf8.Fault)
  deriving DecidableEq, Repr

def ReadFailure.message : ReadFailure → String
  | notFound path =>
      "[Errno 2] No such file or directory: " ++ Text.quoted path.text
  | isDirectory path => "[Errno 21] Is a directory: " ++ Text.quoted path.text
  | notDirectory path => "[Errno 20] Not a directory: " ++ Text.quoted path.text
  | permissionDenied path =>
      "[Errno 13] Permission denied: " ++ Text.quoted path.text
  | undecodable fault => fault.message

def decodeSource (bytes : List UInt8) : Except ReadFailure String :=
  match Text.Utf8.decode bytes with
  | .ok text => .ok (String.ofList (Text.unifyNewlines text))
  | .error fault => .error (.undecodable fault)

/-! ## Directory trees -/

/-- Directories and files by the names that lead to them from the root, with the
bytes of each file.  Relative paths begin at the working directory, which is
there with all directories above it. -/
structure FileTree where
  working : List String
  directories : List (List String)
  files : List (List String × List UInt8)
  deriving DecidableEq, Repr

namespace FileTree

def bare (working : List String) : FileTree := ⟨working, [], []⟩

def workingPath (tree : FileTree) : Path := ⟨"/", tree.working⟩

def place (tree : FileTree) (path : Path) : List String :=
  (tree.workingPath.fromDirectory path).resolvedNames

def ancestors (place : List String) : List (List String) :=
  (List.range place.length).map place.take

def addDirectory (tree : FileTree) (path : Path) : FileTree :=
  let place := tree.place path
  { tree with directories := tree.directories ++ ancestors place ++ [place] }

def addFile (tree : FileTree) (path : Path) (bytes : List UInt8) : FileTree :=
  let place := tree.place path
  { tree with
    directories := tree.directories ++ ancestors place
    files := tree.files.filter (fun file => file.1 ≠ place) ++ [(place, bytes)] }

def isDirectory (tree : FileTree) (place : List String) : Bool :=
  place.isPrefixOf tree.working || tree.directories.contains place

def file? (tree : FileTree) (place : List String) : Option (List UInt8) :=
  (tree.files.find? fun file => file.1 = place).map Prod.snd

def follow (tree : FileTree) (path : Path) (place : List String) :
    List String → Except ReadFailure (List UInt8)
  | [] => .error (.isDirectory path)
  | name :: rest =>
      if name = ".." then tree.follow path place.dropLast rest
      else
        let reached := place ++ [name]
        if tree.isDirectory reached then tree.follow path reached rest
        else
          match tree.file? reached with
          | none => .error (.notFound path)
          | some bytes =>
              if rest.isEmpty then .ok bytes else .error (.notDirectory path)

def read (tree : FileTree) (path : Path) : Except ReadFailure (List UInt8) :=
  let start := if path.isAbsolute then [] else tree.working
  tree.follow path start path.names

def listing (tree : FileTree) : List (String × List UInt8) :=
  let below := tree.files.filter fun file => tree.working.isPrefixOf file.1
  (below.map fun file =>
      (String.intercalate "/" (file.1.drop tree.working.length), file.2)).mergeSort
    fun earlier later => earlier.1 ≤ later.1

end FileTree

end ExprLang.CommandLine
