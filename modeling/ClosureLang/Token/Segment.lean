import ClosureLang.Token

namespace ClosureLang

/-- A piece of source text. -/
inductive Segment where
  | token (kind : TokenKind) (lexeme : List Char)
  | blank (run : List Char)
  | lineBreak
  | comment (body : List Char)
  | unexpected (c : Char)
  /-- A quote with no quote after it, and everything behind it. -/
  | unterminated (body : List Char)
deriving Repr, DecidableEq

namespace Segment

def text : Segment → List Char
  | .token _ lexeme => lexeme
  | .blank run => run
  | .lineBreak => ['\n']
  | .comment body => body
  | .unexpected c => [c]
  | .unterminated body => body

def isBlank (c : Char) : Bool :=
  c == ' ' || c == '\t' || c == '\r' || c == '\x0c'

def isNameStart (c : Char) : Bool :=
  c.isAlpha || c == '_'

def isNameChar (c : Char) : Bool :=
  c.isAlphanum || c == '_'

/-- A word is a keyword exactly if all of it is one. -/
def wordKind (word : List Char) : TokenKind :=
  match String.ofList word with
  | "and" => .and
  | "else" => .else
  | "false" => .false
  | "func" => .func
  | "for" => .for
  | "if" => .if
  | "nil" => .nil
  | "or" => .or
  | "output" => .output
  | "return" => .return
  | "true" => .true
  | "create" => .create
  | "while" => .while
  | _ => .identifier

/-- The kinds of one character. -/
def symbolKind? (c : Char) : Option TokenKind :=
  match c with
  | '(' => some .leftParen
  | ')' => some .rightParen
  | '\x7b' => some .leftBrace
  | '\x7d' => some .rightBrace
  | ',' => some .comma
  | '.' => some .dot
  | '-' => some .minus
  | '+' => some .plus
  | ';' => some .semicolon
  | '/' => some .slash
  | '*' => some .star
  | '!' => some .bang
  | '=' => some .equal
  | '>' => some .greater
  | '<' => some .less
  | _ => none

/-- The kinds of a character followed by an equals sign. -/
def withEqualKind? (c : Char) : Option TokenKind :=
  match c with
  | '!' => some .bangEqual
  | '=' => some .equalEqual
  | '>' => some .greaterEqual
  | '<' => some .lessEqual
  | _ => none

/-- A run of digits, and a point only if another digit follows it. -/
def cutNumber (c : Char) (cs : List Char) : Segment × List Char :=
  let whole := c :: cs.takeWhile Char.isDigit
  match cs.dropWhile Char.isDigit with
  | '.' :: d :: r =>
    if d.isDigit then
      (.token .number (whole ++ '.' :: d :: r.takeWhile Char.isDigit), r.dropWhile Char.isDigit)
    else (.token .number whole, '.' :: d :: r)
  | r => (.token .number whole, r)

/-- A string runs to the next quote; without one the rest of the text is abandoned. -/
def cutString (cs : List Char) : Segment × List Char :=
  let body := cs.takeWhile (· != '"')
  match cs.dropWhile (· != '"') with
  | _ :: r => (.token .string ('"' :: body ++ ['"']), r)
  | [] => (.unterminated ('"' :: body), [])

/-- Punctuation, two characters if they make a token together. -/
def cutSymbol (c : Char) (cs : List Char) : Segment × List Char :=
  match withEqualKind? c, cs with
  | some kind, '=' :: r => (.token kind [c, '='], r)
  | _, _ =>
    match symbolKind? c with
    | some kind => (.token kind [c], cs)
    | none => (.unexpected c, cs)

/-- Cuts the first segment off the text `c :: cs`; a token there is cut at its longest. -/
def cut (c : Char) (cs : List Char) : Segment × List Char :=
  if isBlank c then (.blank (c :: cs.takeWhile isBlank), cs.dropWhile isBlank)
  else if c = '\n' then (.lineBreak, cs)
  else if isNameStart c then
    let word := c :: cs.takeWhile isNameChar
    (.token (wordKind word) word, cs.dropWhile isNameChar)
  else if c.isDigit then cutNumber c cs
  else if c = '"' then cutString cs
  else if c = '/' ∧ cs.head? = some '/' then
    (.comment (c :: cs.takeWhile (· != '\n')), cs.dropWhile (· != '\n'))
  else cutSymbol c cs

theorem length_dropWhile_le (p : Char → Bool) (cs : List Char) :
    (cs.dropWhile p).length ≤ cs.length :=
  (List.dropWhile_sublist p).length_le

/-- What is left after a segment is shorter than the text was. -/
theorem length_cut_le (c : Char) (cs : List Char) : (cut c cs).2.length ≤ cs.length := by
  have hd := length_dropWhile_le Char.isDigit cs
  unfold cut
  split
  · exact length_dropWhile_le _ cs
  split
  · exact Nat.le_refl _
  split
  · exact length_dropWhile_le _ cs
  split
  · unfold cutNumber
    dsimp only
    split
    next d r he =>
      rw [he] at hd
      have hr := length_dropWhile_le Char.isDigit r
      simp only [List.length_cons] at hd
      split <;> simp only [List.length_cons] <;> omega
    next => exact hd
  split
  · have hs := length_dropWhile_le (· != '"') cs
    unfold cutString
    dsimp only
    split
    next q r he =>
      rw [he] at hs
      exact Nat.le_of_succ_le hs
    next => simp
  split
  · exact length_dropWhile_le _ cs
  · unfold cutSymbol
    split
    next => simp only [List.length_cons]; omega
    next => split <;> exact Nat.le_refl _

/-- Cuts a whole text, the segments found so far standing in `done` last first. -/
def cutAll (done : List Segment) : List Char → List Segment
  | [] => done.reverse
  | c :: cs => cutAll ((cut c cs).1 :: done) (cut c cs).2
termination_by cs => cs.length
decreasing_by
  have := length_cut_le c cs
  simp only [List.length_cons]
  omega

end Segment

end ClosureLang
