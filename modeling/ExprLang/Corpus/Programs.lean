import ExprLang.Corpus.MersenneTwister
import ExprLang.Token

/-!
# Generated programs

Random programs of one to six statements.  Division and remainder take a
literal from one to nine as divisor and stand in parentheses, so no program
divides by zero; expression statements hold no names, so none of them begins an
assignment.  Malformed programs are programs with junk put in at random places.
-/

namespace ExprLang.Corpus

namespace Generator

variable {State : Type}

/-! ## Chances, as the least fractions that fail them -/

def assignmentChance : Nat := 3602879701896397 -- 4 in 10

def terminatorChance : Nat := 2702159776422298 -- 3 in 10

def operandChance : Nat := 3152519739159347 -- 35 in 100

def nameChance : Nat := 1801439850948199 -- 2 in 10

/-! ## Expressions -/

def nameStarts : List Char :=
  "abcdefghijklmnopqrstuvwxyzABCDEFGHIJKLMNOPQRSTUVWXYZ_$".toList

def nameParts : List Char :=
  "abcdefghijklmnopqrstuvwxyzABCDEFGHIJKLMNOPQRSTUVWXYZ0123456789_$".toList

def operatorSymbols : List String := ["+", "-", "*", "/", "%"]

def name : Generator State String := fun source => do
  let first ← oneOf nameStarts (by decide) source
  let length ← between 0 9 (by decide) source
  let rest ← times length.toNat (oneOf nameParts (by decide)) source
  let spelled := String.ofList (first :: rest)
  if TokenKind.keywords.any fun kind => kind.name == spelled then
    pure (spelled ++ "_")
  else pure spelled

def operand (names : Bool) (inner : Option (Generator State String)) :
    Generator State String := fun source => do
  let drawn ← fraction source
  if names && drawn.val < nameChance then name source
  else
    match inner with
    | some expression =>
        if drawn.val < operandChance then do
          let text ← expression source
          pure ("(" ++ text ++ ")")
        else number source
    | none => number source
where
  number : Generator State String := fun source => do
    let number ← between (-50) 1051 (by decide) source
    pure (toString number)

def expression (names : Bool) (room : Nat) : Generator State String :=
  fun source =>
    match room with
    | 0 => operand names none source
    | room + 1 => do
        if ← chance operandChance source then
          operand names (some (expression names room)) source
        else
          let symbol ← oneOf operatorSymbols (by decide) source
          let left ← expression names room source
          if symbol = "/" ∨ symbol = "%" then
            let divisor ← between 1 9 (by decide) source
            pure ("(" ++ left ++ " " ++ symbol ++ " " ++ toString divisor ++ ")")
          else
            let right ← expression names room source
            pure (left ++ " " ++ symbol ++ " " ++ right)

/-! ## Programs -/

def nesting : Nat := 3

def assignmentLine : Generator State String := fun source => do
  let target ← name source
  let text ← expression true nesting source
  pure (target ++ " := " ++ text ++ ";")

def expressionLine : Generator State String := fun source => do
  let text ← expression false nesting source
  let terminated ← chance terminatorChance source
  pure (if terminated then text ++ ";" else text)

def line (names : Bool) : Generator State String := fun source =>
  if names then do
    if ← chance assignmentChance source then assignmentLine source
    else expressionLine source
  else expressionLine source

def program (names : Bool) : Generator State String := fun source => do
  let count ← between 1 6 (by decide) source
  let lines ← times count.toNat (line names) source
  pure (String.intercalate "\n" lines ++ "\n")

/-! ## Malformed programs -/

def junk : List String :=
  ["@", "#", "?", "`", "\\", "'", "\x7b", "\x7d", "[", "]", ",", ".", ":",
    "\"", ";", ")", "(", ":=", "+"]

def splice (text : String) : Generator State String := fun source => do
  let place ← below (text.length + 1) (Nat.succ_pos _) source
  let added ← oneOf junk (by decide) source
  let characters := text.toList
  pure (String.ofList (characters.take place) ++ added ++
    String.ofList (characters.drop place))

def spliceTimes (count : Nat) (text : String) : Generator State String :=
  fun source =>
    match count with
    | 0 => pure text
    | count + 1 => do
        let spliced ← splice text source
        spliceTimes count spliced source

def malformedProgram : Generator State String := fun source => do
  let text ← program true source
  let count ← between 1 4 (by decide) source
  spliceTimes count.toNat text source

end Generator

/-- The programs drawn from a source; no program when the count is not positive. -/
def programs (source : DrawSource State) (names : Bool) (count : Int) :
    StateM State (List String) :=
  Generator.times count.toNat (Generator.program names) source

def malformedPrograms (source : DrawSource State) (count : Int) :
    StateM State (List String) :=
  Generator.times count.toNat Generator.malformedProgram source

def seededPrograms (seed count : Int) (names : Bool) : List String :=
  (programs MersenneTwister.draws names count
    (MersenneTwister.ofSeed seed)).1

def seededMalformedPrograms (seed count : Int) : List String :=
  (malformedPrograms MersenneTwister.draws count
    (MersenneTwister.ofSeed seed)).1

end ExprLang.Corpus
