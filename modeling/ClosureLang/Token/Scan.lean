import ClosureLang.Token.Segment

namespace ClosureLang

/-- A complaint about source text that is not a token. -/
inductive LexicalError where
  | unexpectedCharacter (c : Char) (line : Nat)
  | unterminatedString (line : Nat)
deriving Repr, DecidableEq

namespace LexicalError

def line : LexicalError → Nat
  | .unexpectedCharacter _ line => line
  | .unterminatedString line => line

def message : LexicalError → String
  | .unexpectedCharacter c line =>
    "Error on line " ++ toString line ++ ": Unexpected character '" ++ c.toString ++ "'."
  | .unterminatedString line =>
    "Error on line " ++ toString line ++ ": Unterminated string."

end LexicalError

/-- What scanning finds: it never fails. -/
structure Scanned where
  tokens : List Token
  errors : List LexicalError

/-- The state between two segments: the current line, and what was found so far, last first. -/
structure Scanning where
  line : Nat
  tokens : List Token
  errors : List LexicalError

namespace Scanning

/-- The first line is line 1. -/
def start : Scanning := ⟨1, [], []⟩

/-- Moves to the line on which a segment ends, and keeps its token or complaint. -/
def add (s : Scanning) (segment : Segment) : Scanning :=
  let line := s.line + segment.text.count '\n'
  match segment with
  | .token kind lexeme => ⟨line, Token.make kind (.ofList lexeme) line :: s.tokens, s.errors⟩
  | .unexpected c => ⟨line, s.tokens, .unexpectedCharacter c line :: s.errors⟩
  | .unterminated _ => ⟨line, s.tokens, .unterminatedString line :: s.errors⟩
  | .blank _ | .lineBreak | .comment _ => ⟨line, s.tokens, s.errors⟩

/-- The tokens in order, closed by the token after the last word. -/
def finish (s : Scanning) : Scanned :=
  ⟨(Token.endOfInput s.line :: s.tokens).reverse, s.errors.reverse⟩

end Scanning

def scan (source : String) : Scanned :=
  ((Segment.cutAll [] source.toList).foldl Scanning.add Scanning.start).finish

end ClosureLang
