import ClosureLang.Literal
import ClosureLang.Number.Reading

namespace ClosureLang

inductive TokenKind where
  | leftParen | rightParen | leftBrace | rightBrace | comma | dot | minus | plus | semicolon
  | slash | star | bang | bangEqual | equal | equalEqual | greater | greaterEqual | less | lessEqual
  | identifier | string | number
  | and | else | false | func | for | if | nil | or | output | return | true | create | while
  | comment | newLine | eof
deriving Repr, DecidableEq

namespace TokenKind

def name : TokenKind → String
  | .leftParen => "LeftParen"
  | .rightParen => "RightParen"
  | .leftBrace => "LeftBrace"
  | .rightBrace => "RightBrace"
  | .comma => "Comma"
  | .dot => "Dot"
  | .minus => "Minus"
  | .plus => "Plus"
  | .semicolon => "Semicolon"
  | .slash => "Slash"
  | .star => "Star"
  | .bang => "Bang"
  | .bangEqual => "BangEqual"
  | .equal => "Equal"
  | .equalEqual => "EqualEqual"
  | .greater => "Greater"
  | .greaterEqual => "GreaterEqual"
  | .less => "Less"
  | .lessEqual => "LessEqual"
  | .identifier => "Identifier"
  | .string => "String"
  | .number => "Number"
  | .and => "And"
  | .else => "Else"
  | .false => "False"
  | .func => "Func"
  | .for => "For"
  | .if => "If"
  | .nil => "Nil"
  | .or => "Or"
  | .output => "Output"
  | .return => "Return"
  | .true => "True"
  | .create => "Create"
  | .while => "While"
  | .comment => "Comment"
  | .newLine => "NewLine"
  | .eof => "Eof"

def all : List TokenKind :=
  [.leftParen, .rightParen, .leftBrace, .rightBrace, .comma, .dot, .minus, .plus, .semicolon,
   .slash, .star, .bang, .bangEqual, .equal, .equalEqual, .greater, .greaterEqual, .less,
   .lessEqual, .identifier, .string, .number, .and, .else, .false, .func, .for, .if, .nil, .or,
   .output, .return, .true, .create, .while, .comment, .newLine, .eof]

def ofName? (s : String) : Option TokenKind :=
  all.find? fun k => k.name == s

end TokenKind

/-- A word of a program: its kind, its text, the constant it denotes if any, and the line it ends
on. -/
structure Token where
  kind : TokenKind
  lexeme : String
  literal : Option Literal
  line : Nat

namespace Token

/-- Removes every quote at the front and every quote at the back. -/
def stripQuotes (cs : List Char) : List Char :=
  let front := cs.dropWhile (· == '"')
  (front.reverse.dropWhile (· == '"')).reverse

/-- The constant that a lexeme of a kind denotes. -/
def literalOf (kind : TokenKind) (lexeme : String) : Option Literal :=
  match kind with
  | .number => (readNumber? lexeme.toList).map .number
  | .string => some (.text (.ofList (stripQuotes lexeme.toList)))
  | .true => some (.bool true)
  | .false => some (.bool false)
  | .nil => some .nil
  | _ => none

/-- The token of a kind and a lexeme that ends on `line`. -/
def make (kind : TokenKind) (lexeme : String) (line : Nat) : Token :=
  ⟨kind, lexeme, literalOf kind lexeme, line⟩

/-- The token after the last word of a program. -/
def endOfInput (line : Nat) : Token :=
  make .eof "" line

/-- How a diagnostic names the token it stands at. -/
def describe (t : Token) : String :=
  if t.kind = .eof then "end" else "'" ++ t.lexeme ++ "'"

/-- A text with blanks in front, up to `width` characters. -/
def padLeft (width : Nat) (s : String) : String :=
  .ofList (List.replicate (width - s.length) ' ') ++ s

/-- The line of a token listing: line number, kind, lexeme and constant. -/
def listing (t : Token) : String :=
  padLeft 4 (toString t.line) ++ " " ++ t.kind.name ++ " " ++ t.lexeme ++
    match t.literal with
    | some value => " " ++ value.listing
    | none => ""

end Token

end ClosureLang
