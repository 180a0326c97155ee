import ClosureLang.Tree.Pending

namespace ClosureLang

/-- The statements that could be read and the complaints about the rest. -/
structure Parsed where
  statements : List Stmt
  errors : List SyntaxError

/-- Whether the tokens were a program. -/
def Parsed.isOk (p : Parsed) : Bool :=
  p.errors.isEmpty

/-- Equality of what was read and complained about. -/
def Parsed.same (p q : Parsed) : Bool :=
  p.statements == q.statements && p.errors == q.errors

instance : BEq Parsed := ⟨Parsed.same⟩

/-- A program part way through; its lists hold the last element first. It takes one token at a time
and looks at no other. -/
structure Builder where
  position : Position
  opened : List Open
  statements : List Stmt
  errors : List SyntaxError

namespace Builder

def start : Builder := ⟨.declaration, [], [], []⟩

/-- The most parameters or arguments that go without complaint. -/
def maxItems : Nat := 255

/-- Reads the next token at `position`. -/
def moveTo (b : Builder) (position : Position) : Builder :=
  { b with position }

/-- Enters a construct and reads the next token at `position`. -/
def enter (b : Builder) (construct : Open) (position : Position) : Builder :=
  { b with position, opened := construct :: b.opened }

def report (b : Builder) (e : SyntaxError) : Builder :=
  { b with errors := e :: b.errors }

/-- Gives up the current declaration, back to the block that lists it. -/
def abandon (b : Builder) (e : SyntaxError) (position : Position) : Builder :=
  { b with position, opened := b.opened.dropWhile (! ·.isBlock), errors := e :: b.errors }

/-- Where reading stands once `t` is dropped after a mistake. -/
def afterDropping (t : Token) : Position :=
  if t.kind = .semicolon then .declaration else .skip

/-- A mistake at the token `t`, which is dropped. -/
def fail (b : Builder) (e : SyntaxError) (t : Token) : Builder :=
  b.abandon e (afterDropping t)

/-- The token `t` stands where another was needed. -/
def expected (b : Builder) (message : String) (t : Token) : Builder :=
  b.fail (.expectedToken message t.describe t.line) t

/-- Moves on if `t` is of the needed kind. -/
def need (b : Builder) (kind : TokenKind) (message : String) (t : Token) (next : Builder) :
    Builder :=
  if t.kind = kind then next else b.expected message t

/-- Complains if `t` starts an argument beyond the limit. -/
def checkArguments (b : Builder) (pending : List Pending) (t : Token) : Builder :=
  match pending with
  | .arguments _ done :: _ =>
    if done.length = maxItems then b.report (.tooManyArguments maxItems t.line) else b
  | _ => b

def atOperand (b : Builder) (use : Use) (pending : List Pending) (t : Token) : Builder :=
  let b := b.checkArguments pending t
  match t.kind with
  | .number | .string | .true | .false | .nil =>
    b.moveTo (.operator use pending (.literal (t.literal.getD .nil)))
  | .identifier => b.moveTo (.operator use pending (.lookup t.lexeme t.line))
  | .leftParen => b.moveTo (.operand use (.group :: pending))
  | .bang => b.moveTo (.operand use (.unary .not t.line :: pending))
  | .minus => b.moveTo (.operand use (.unary .negate t.line :: pending))
  | _ => b.fail (.expectedExpression t.describe t.line) t

def afterExpression (b : Builder) (use : Use) (e : Expr) (t : Token) : Builder :=
  match use with
  | .expression =>
    b.need .semicolon "Expect ';' after expression." t (b.moveTo (.completed (.expression e)))
  | .output => b.need .semicolon "Expect ';' after value." t (b.moveTo (.completed (.output e)))
  | .initial name line =>
    b.need .semicolon "Expect ';' after variable declaration." t
      (b.moveTo (.completed (.create name (some e) line)))
  | .ifCondition =>
    b.need .rightParen "Expect ')' after if condition." t (b.enter (.thenBranch e) .statement)
  | .loopCondition =>
    b.need .rightParen "Expect ')' after condition." t (b.enter (.loopBody e) .statement)
  | .result line =>
    b.need .semicolon "Expect ';' after return value." t
      (b.moveTo (.completed (.giveBack (some e) line)))
  | .forCondition initial =>
    b.need .semicolon "Expect ';' after loop condition." t
      (b.moveTo (.forIncrement initial (some e)))
  | .forIncrement initial condition =>
    b.need .rightParen "Expect ')' after for clauses." t
      (b.enter (.forBody initial condition (some e)) .statement)

/-- Reads `t`, with which no expression goes on, behind the operand `e`. -/
def atEnd (b : Builder) (use : Use) (pending : List Pending) (e : Expr) (t : Token) : Builder :=
  match Pending.complete e pending with
  | .whole e => b.afterExpression use e t
  | .grouped e rest =>
    b.need .rightParen "Expect ')' after expression." t
      (b.moveTo (.operator use rest (.grouping e)))
  | .argument callee done e rest =>
    if t.kind = .comma then b.moveTo (.operand use (.arguments callee (e :: done) :: rest))
    else
      b.need .rightParen "Expect ')' after arguments." t
        (b.moveTo (.operator use rest (.call callee (e :: done).reverse t.line)))
  | .badTarget line => b.fail (.invalidAssignmentTarget line) t

/-- Reads `t` behind the operand `e`: a call, an operator, or the end of the expression. -/
def atOperator (b : Builder) (use : Use) (pending : List Pending) (e : Expr) (t : Token) :
    Builder :=
  match t.kind with
  | .leftParen => b.moveTo (.firstArgument use pending e)
  | .equal =>
    let (target, rest) := Pending.settle 0 e pending
    b.moveTo (.operand use (.assign target t.line :: rest))
  | kind =>
    match Connective.ofKind? kind with
    | some op =>
      let (left, rest) := Pending.settle op.level e pending
      b.moveTo (.operand use (.joined left op t.line :: rest))
    | none => b.atEnd use pending e t

def atStatement (b : Builder) (t : Token) : Builder :=
  match t.kind with
  | .for => b.moveTo .forOpen
  | .if => b.moveTo .ifOpen
  | .while => b.moveTo .loopOpen
  | .output => b.moveTo (.operand .output [])
  | .return =>
    if b.opened.any Open.isBody then b.moveTo (.resultStart t.line)
    else b.abandon (.returnOutsideFunction t.line) .discard
  | .leftBrace => b.enter (.block []) .declaration
  | _ => b.atOperand .expression [] t

/-- Reads `t` as the start of a declaration or the end of the block; the end of the input is
neither. -/
def atDeclaration (b : Builder) (t : Token) : Builder :=
  match t.kind, b.opened with
  | .eof, _ => b.moveTo .declaration
  | .create, _ => b.moveTo .createName
  | .func, _ => b.moveTo .functionName
  | .rightBrace, .block done :: rest =>
    { b with position := .completed (.block done.reverse), opened := rest }
  | .rightBrace, .body head done :: rest =>
    { b with
      position := .completed (.function head.name head.params done.reverse head.line)
      opened := rest }
  | _, _ => b.atStatement t

/-- Reads `t` as the start of the condition of a `for` loop. -/
def atForCondition (b : Builder) (initial : Option Stmt) (t : Token) : Builder :=
  if t.kind = .semicolon then b.moveTo (.forIncrement initial none)
  else b.atOperand (.forCondition initial) [] t

/-- Reads `t` behind the whole statement `s`, which completes the constructs that waited for it. -/
def afterStatement (b : Builder) (t : Token) : Stmt → List Open → Builder
  | s, [] => { b with opened := [], statements := s :: b.statements }.atDeclaration t
  | s, .block done :: rest => { b with opened := .block (s :: done) :: rest }.atDeclaration t
  | s, .body head done :: rest =>
    { b with opened := .body head (s :: done) :: rest }.atDeclaration t
  | s, .forInitial :: rest => { b with opened := rest }.atForCondition (some s) t
  | s, .thenBranch condition :: rest =>
    if t.kind = .else then
      { b with position := .statement, opened := .elseBranch condition s :: rest }
    else b.afterStatement t (.ifThen condition s) rest
  | s, .elseBranch condition yes :: rest => b.afterStatement t (.ifElse condition yes s) rest
  | s, .loopBody condition :: rest => b.afterStatement t (.loop condition s) rest
  | s, .forBody initial condition increment :: rest =>
    b.afterStatement t (.forLoop initial condition increment s) rest

/-- Reads `t` as the name of the next parameter. -/
def atParameter (b : Builder) (name : String) (line : Nat) (done : List String) (t : Token) :
    Builder :=
  let b := if done.length = maxItems then b.report (.tooManyParameters maxItems t.line) else b
  b.need .identifier "Expect parameter name." t
    (b.moveTo (.parameterRest name line (t.lexeme :: done)))

def feed (b : Builder) (t : Token) : Builder :=
  match b.position with
  | .declaration => b.atDeclaration t
  | .statement => b.atStatement t
  | .operand use pending => b.atOperand use pending t
  | .operator use pending e => b.atOperator use pending e t
  | .firstArgument use pending callee =>
    if t.kind = .rightParen then b.moveTo (.operator use pending (.call callee [] t.line))
    else b.atOperand use (.arguments callee [] :: pending) t
  | .completed s => b.afterStatement t s b.opened
  | .createName =>
    b.need .identifier "Expect variable name." t (b.moveTo (.createRest t.lexeme t.line))
  | .createRest name line =>
    if t.kind = .equal then b.moveTo (.operand (.initial name line) [])
    else
      b.need .semicolon "Expect ';' after variable declaration." t
        (b.moveTo (.completed (.create name none line)))
  | .functionName =>
    b.need .identifier "Expect function name." t (b.moveTo (.functionOpen t.lexeme t.line))
  | .functionOpen name line =>
    b.need .leftParen "Expect '(' after function name." t (b.moveTo (.firstParameter name line))
  | .firstParameter name line =>
    if t.kind = .rightParen then b.moveTo (.functionBrace ⟨name, line, []⟩)
    else b.atParameter name line [] t
  | .parameter name line done => b.atParameter name line done t
  | .parameterRest name line done =>
    if t.kind = .comma then b.moveTo (.parameter name line done)
    else
      b.need .rightParen "Expect ')' after parameters." t
        (b.moveTo (.functionBrace ⟨name, line, done.reverse⟩))
  | .functionBrace head =>
    b.need .leftBrace "Expect '\x7b' before function body." t (b.enter (.body head []) .declaration)
  | .ifOpen => b.need .leftParen "Expect '(' after 'if'." t (b.moveTo (.operand .ifCondition []))
  | .loopOpen =>
    b.need .leftParen "Expect '(' after 'while'." t (b.moveTo (.operand .loopCondition []))
  | .forOpen => b.need .leftParen "Expect '(' after 'for'." t (b.moveTo .forStart)
  | .forStart =>
    match t.kind with
    | .semicolon => b.moveTo (.forCondition none)
    | .create => b.enter .forInitial .createName
    | _ => { b with opened := .forInitial :: b.opened }.atOperand .expression [] t
  | .forCondition initial => b.atForCondition initial t
  | .forIncrement initial condition =>
    if t.kind = .rightParen then b.enter (.forBody initial condition none) .statement
    else b.atOperand (.forIncrement initial condition) [] t
  | .resultStart line =>
    if t.kind = .semicolon then b.moveTo (.completed (.giveBack none line))
    else b.atOperand (.result line) [] t
  | .discard => b.moveTo (afterDropping t)
  | .skip =>
    match t.kind with
    | .func | .create | .for | .if | .while | .output | .return => b.atDeclaration t
    | _ => b.moveTo (afterDropping t)

/-- The result at the end token `t`: each block that is still open lacks its closing brace. -/
def finish (b : Builder) (t : Token) : Parsed :=
  let b := b.feed t
  let unclosed := SyntaxError.expectedToken "Expect '\x7d' after block." t.describe t.line
  { statements := b.statements.reverse
    errors := (List.replicate (b.opened.countP Open.isBlock) unclosed ++ b.errors).reverse }

/-- Reads tokens up to the first end token; the end of the list is one on line 0. -/
def run (b : Builder) : List Token → Parsed
  | [] => b.finish (Token.endOfInput 0)
  | t :: rest => if t.kind = .eof then b.finish t else (b.feed t).run rest

end Builder

def parse (tokens : List Token) : Parsed :=
  Builder.start.run tokens

end ClosureLang
