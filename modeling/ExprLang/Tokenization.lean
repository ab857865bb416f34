import ExprLang.Diagnostic
import ExprLang.Piece

/-!
# Tokenization

Every piece of a text gets the span at which it stands.  Words become tokens,
unknown stretches become faults, and an end-of-text token closes the tokens.
-/

namespace ExprLang

namespace Piece

def token (offset : Nat) (kind : TokenKind) (text : List Char) : Token :=
  ⟨kind, String.ofList text, Span.covering offset text,
    Lexicon.value kind text⟩

def placeTokens (offset : Nat) : List Piece → List Token
  | [] => []
  | .blank _ :: rest => placeTokens (offset + 1) rest
  | .word kind text :: rest =>
      token offset kind text :: placeTokens (offset + text.length) rest
  | .unknown text :: rest => placeTokens (offset + text.length) rest

def placeUnknown (offset : Nat) : List Piece → List Fault
  | [] => []
  | .blank _ :: rest => placeUnknown (offset + 1) rest
  | .word _ text :: rest => placeUnknown (offset + text.length) rest
  | .unknown text :: rest =>
      .unknownToken (Span.covering offset text) ::
        placeUnknown (offset + text.length) rest

end Piece

structure Tokenization where
  tokens : TokenSequence
  faults : List Fault
  deriving DecidableEq, Repr

def Token.endOfText (length : Nat) : Token :=
  ⟨.endOfText, "", Span.covering length [], .absent⟩

def tokenize (source : String) : Tokenization :=
  let text := source.toList
  let pieces := Piece.pieces text
  ⟨⟨Piece.placeTokens 0 pieces, Token.endOfText text.length, rfl⟩,
    Piece.placeUnknown 0 pieces⟩

def Bag.tokenize (bag : Bag) (source : String) : TokenSequence × Bag :=
  let result := ExprLang.tokenize source
  (result.tokens, bag.append (result.faults.map Fault.diagnostic))

end ExprLang
