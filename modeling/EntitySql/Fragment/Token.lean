import EntitySql.Fragment.Lexeme

/-!
Tokens: the lexemes of a source with their kinds and the bytes they cover in UTF-8. The last token is the end of
the input, which is empty.
-/
namespace EntitySql.Fragment

/-- Kinds of tokens. -/
inductive TokenKind where
  | stringLiteral
  | quotedIdentifier
  | cast
  | placeholder
  | colon
  | text
  | invalid
  | endOfInput
  deriving DecidableEq, Repr, Inhabited

def TokenKind.label : TokenKind → String
  | stringLiteral => "string literal"
  | quotedIdentifier => "quoted identifier"
  | cast => "::"
  | placeholder => "placeholder"
  | colon => ":"
  | text => "text"
  | invalid => "invalid"
  | endOfInput => "EOF"

def Lexeme.kind : Lexeme → TokenKind
  | literal _ => .stringLiteral
  | quotedName _ => .quotedIdentifier
  | cast => .cast
  | placeholder _ _ => .placeholder
  | colon => .colon
  | plain _ => .text
  | unclosed _ => .invalid

/-- A token: its kind, its first byte, the byte after its last one, and its text. -/
structure Token where
  kind : TokenKind
  start : Nat
  stop : Nat
  text : String
  deriving DecidableEq, Repr, Inhabited

def byteLength : List Char → Nat
  | [] => 0
  | c :: cs => c.utf8Size + byteLength cs

/-- The tokens of consecutive lexemes, the first of which starts at byte `start`. -/
def tokensFrom (start : Nat) : List Lexeme → List Token
  | [] => [⟨.endOfInput, start, start, ""⟩]
  | x :: xs =>
    let stop := start + byteLength x.chars
    ⟨x.kind, start, stop, String.ofList x.chars⟩ :: tokensFrom stop xs

def tokenize (source : String) : List Token :=
  tokensFrom 0 (lexemes source.toList)

end EntitySql.Fragment
