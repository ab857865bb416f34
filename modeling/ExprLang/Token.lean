import ExprLang.Span
import ExprLang.Text.Quoted

/-!
# Tokens

The kinds of token, the value a token stands for, and token sequences closed by
an end-of-text token.
-/

namespace ExprLang

inductive TokenKind where
  | intKeyword
  | floatKeyword
  | stringKeyword
  | logicalKeyword
  | beginKeyword
  | endKeyword
  | printKeyword
  | trueKeyword
  | falseKeyword
  | identifier
  | integerLiteral
  | floatLiteral
  | stringLiteral
  | assign
  | logicalAnd
  | logicalOr
  | plus
  | minus
  | star
  | percent
  | slash
  | bitwiseAnd
  | bitwiseOr
  | bitwiseXor
  | logicalNot
  | bitwiseNot
  | equal
  | leftParen
  | rightParen
  | semicolon
  | endOfText
  deriving DecidableEq, Repr

namespace TokenKind

/-- The name in messages.  A keyword and a punctuation mark are named by their spelling. -/
def name : TokenKind → String
  | intKeyword => "Int"
  | floatKeyword => "Float"
  | stringKeyword => "String"
  | logicalKeyword => "Logical"
  | beginKeyword => "Begin"
  | endKeyword => "End"
  | printKeyword => "Print"
  | trueKeyword => "True"
  | falseKeyword => "False"
  | identifier => "Identifier"
  | integerLiteral => "LiteralInteger"
  | floatLiteral => "LiteralFloat"
  | stringLiteral => "LiteralString"
  | assign => ":="
  | logicalAnd => "&&"
  | logicalOr => "||"
  | plus => "+"
  | minus => "-"
  | star => "*"
  | percent => "%"
  | slash => "/"
  | bitwiseAnd => "&"
  | bitwiseOr => "|"
  | bitwiseXor => "^"
  | logicalNot => "!"
  | bitwiseNot => "~"
  | equal => "="
  | leftParen => "("
  | rightParen => ")"
  | semicolon => ";"
  | endOfText => "EOF"

def keywords : List TokenKind :=
  [intKeyword, floatKeyword, stringKeyword, logicalKeyword, beginKeyword,
    endKeyword, printKeyword, trueKeyword, falseKeyword]

/-- The punctuation marks, the longer spellings first. -/
def punctuation : List TokenKind :=
  [assign, logicalAnd, logicalOr, plus, minus, star, percent, slash,
    bitwiseAnd, bitwiseOr, bitwiseXor, logicalNot, bitwiseNot, equal,
    leftParen, rightParen, semicolon]

def all : List TokenKind :=
  keywords ++ [identifier, integerLiteral, floatLiteral, stringLiteral] ++
    punctuation ++ [endOfText]

def ofName? (name : String) : Option TokenKind :=
  all.find? fun kind => kind.name == name

theorem mem_all (kind : TokenKind) : kind ∈ all := by
  cases kind <;> decide

theorem ofName?_name (kind : TokenKind) : ofName? kind.name = some kind := by
  cases kind <;> decide

end TokenKind

/-- The value of a token: a number for a numeric literal, the decoded contents
of a string literal, the name of an identifier, and nothing for other kinds.
A floating-point number is held by its binary64 bits. -/
inductive TokenValue where
  | absent
  | integer (number : Int)
  | binary64 (bits : UInt64)
  | text (contents : String)
  deriving DecidableEq, Repr

structure Token where
  kind : TokenKind
  lexeme : String
  span : Span
  value : TokenValue
  deriving DecidableEq, Repr

namespace Token

/-- The number an integer literal carries.  Tokens of a source always carry one;
a token put together by hand without one counts as zero. -/
def number (token : Token) : Int :=
  match token.value with
  | .integer number => number
  | _ => 0

def describe (token : Token) : String :=
  "Token(" ++ token.kind.name ++ ", " ++ Text.quoted token.lexeme ++ ", " ++
    token.span.bounds ++ ")"

end Token

/-- Tokens closed by an end-of-text token.  The body may hold further
end-of-text tokens when the sequence was built by hand. -/
structure TokenSequence where
  body : List Token
  terminal : Token
  terminal_kind : terminal.kind = .endOfText
  deriving DecidableEq, Repr

namespace TokenSequence

structure Unterminated where
  deriving DecidableEq, Repr

def Unterminated.message (_ : Unterminated) : String :=
  "token sequence must end with an EOF token"

def toList (tokens : TokenSequence) : List Token :=
  tokens.body ++ [tokens.terminal]

def length (tokens : TokenSequence) : Nat := tokens.body.length + 1

def ofList (tokens : List Token) : Except Unterminated TokenSequence :=
  match tokens.reverse with
  | [] => .error {}
  | last :: earlier =>
      if terminal_kind : last.kind = .endOfText then
        .ok ⟨earlier.reverse, last, terminal_kind⟩
      else .error {}

@[simp] theorem length_toList (tokens : TokenSequence) :
    tokens.toList.length = tokens.length := by
  simp [toList, length]

theorem ofList_toList (tokens : TokenSequence) :
    ofList tokens.toList = .ok tokens := by
  simp [ofList, toList, tokens.terminal_kind]

theorem toList_of_ofList {list : List Token} {tokens : TokenSequence}
    (h : ofList list = .ok tokens) : tokens.toList = list := by
  cases hreverse : list.reverse with
  | nil => simp [ofList, hreverse] at h
  | cons last earlier =>
      by_cases hkind : last.kind = .endOfText
      · simp only [ofList, hreverse, hkind, ↓reduceDIte,
          Except.ok.injEq] at h
        subst h
        have hlist := congrArg List.reverse hreverse
        simp only [List.reverse_reverse, List.reverse_cons] at hlist
        simp [toList, hlist]
      · simp [ofList, hreverse, hkind] at h

end TokenSequence

end ExprLang
