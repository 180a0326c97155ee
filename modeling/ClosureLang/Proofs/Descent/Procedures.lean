import ClosureLang.Tree.Builder
import Mathlib.Util.TermReduce

namespace ClosureLang

/-- A place in a list of tokens, and the complaints made on the way to it, last first. -/
structure Cursor where
  current : Nat
  errors : List SyntaxError

namespace Cursor

/-- The token under the cursor; there is an end token on line 0 behind the last one. -/
def peek (ts : List Token) (c : Cursor) : Token :=
  ts[c.current]?.getD (.endOfInput 0)

/-- The token in front of the cursor. -/
def previous (ts : List Token) (c : Cursor) : Token :=
  match c.current with
  | 0 => .endOfInput 0
  | i + 1 => ts[i]?.getD (.endOfInput 0)

/-- Moves on by one token, but never past the end. -/
def next (ts : List Token) (c : Cursor) : Cursor :=
  if (c.peek ts).kind = .eof then c else { c with current := c.current + 1 }

def report (c : Cursor) (e : SyntaxError) : Cursor :=
  { c with errors := e :: c.errors }

end Cursor

/-- A procedure that moves a cursor over the tokens and gives a result or fails with a complaint;
`none` stands for one that does not end. -/
abbrev Descent (α : Type) : Type :=
  ExceptT SyntaxError (StateT Cursor Option) α

namespace Descent

section

variable (ts : List Token)

def look : Descent Token := do
  return (← get).peek ts

def advance : Descent Unit :=
  modify (Cursor.next ts)

def report (e : SyntaxError) : Descent Unit :=
  modify (·.report e)

/-- Takes a token of the kind that must stand here. -/
def consume (kind : TokenKind) (message : String) : Descent Token := do
  let t ← look ts
  if t.kind = kind then
    advance ts
    return t
  else throw (.expectedToken message t.describe t.line)

/-- Complains if the item that starts here has as many before it as go without complaint. -/
def checkItems (excess : Nat → Nat → SyntaxError) (before : Nat) : Descent Unit := do
  let t ← look ts
  if before = Builder.maxItems then report (excess Builder.maxItems t.line)
  else return ()

/-- Whether reading resumes at a kind of token after a mistake. -/
def resumes : TokenKind → Bool
  | .func | .create | .for | .if | .while | .output | .return => true
  | _ => false

/-- Drops tokens up to the next semicolon or to the next token that starts a statement. -/
def skipRule (skip : Descent Unit) : Descent Unit := do
  let c ← get
  if (c.peek ts).kind = .eof ∨ (c.previous ts).kind = .semicolon ∨ resumes (c.peek ts).kind then
    return ()
  else
    advance ts
    skip

-- A procedure is its rule with the procedures that the rule calls. `delta%` unfolds the rule, so
-- that its calls are seen to be calls.
def skip : Descent Unit :=
  delta% skipRule ts (by apply skip)
partial_fixpoint

/-- Drops the token under the cursor, and more up to where reading resumes. -/
def synchronize : Descent Unit := do
  advance ts
  skip ts

end

section

variable (ts : List Token)

section

variable (expression : Descent Expr) (level : Nat → Descent Expr)
  (joined : Nat → Expr → Descent Expr) (unary primary : Descent Expr)
  (calls : Expr → Descent Expr) (arguments : Descent (List Expr))
  (argumentsAfter : List Expr → Descent (List Expr))

def expressionRule : Descent Expr := do
  let target ← level 1
  let t ← look ts
  if t.kind = .equal then
    advance ts
    let value ← expression
    match target with
    | .lookup name line => return .assign name value line
    | _ => throw (.invalidAssignmentTarget t.line)
  else return target

/-- Operands of the operators of level `n`, joined from the left; the tightest bind at level 6. -/
def levelRule (n : Nat) : Descent Expr := do
  if n ≤ 6 then
    let left ← level (n + 1)
    joined n left
  else unary

def joinedRule (n : Nat) (left : Expr) : Descent Expr := do
  let t ← look ts
  match Connective.ofKind? t.kind with
  | some op =>
    if op.level = n then
      advance ts
      let right ← level (n + 1)
      joined n (op.join left right t.line)
    else return left
  | none => return left

def unaryRule : Descent Expr := do
  let t ← look ts
  match t.kind with
  | .bang =>
    advance ts
    return .unary .not (← unary) t.line
  | .minus =>
    advance ts
    return .unary .negate (← unary) t.line
  | _ =>
    let e ← primary
    calls e

/-- Any number of calls behind a callee. -/
def callsRule (callee : Expr) : Descent Expr := do
  let t ← look ts
  if t.kind = .leftParen then
    advance ts
    let args ← arguments
    let closing ← consume ts .rightParen "Expect ')' after arguments."
    calls (.call callee args closing.line)
  else return callee

def argumentsRule : Descent (List Expr) := do
  let t ← look ts
  if t.kind = .rightParen then return []
  else argumentsAfter []

/-- At least one more argument; those before it, last first. -/
def argumentsAfterRule (done : List Expr) : Descent (List Expr) := do
  checkItems ts .tooManyArguments done.length
  let e ← expression
  let t ← look ts
  if t.kind = .comma then
    advance ts
    argumentsAfter (e :: done)
  else return (e :: done).reverse

def primaryRule : Descent Expr := do
  let t ← look ts
  match t.kind with
  | .number | .string | .true | .false | .nil =>
    advance ts
    return .literal (t.literal.getD .nil)
  | .identifier =>
    advance ts
    return .lookup t.lexeme t.line
  | .leftParen =>
    advance ts
    let e ← expression
    let _ ← consume ts .rightParen "Expect ')' after expression."
    return .grouping e
  | _ => throw (.expectedExpression t.describe t.line)

end

mutual

def expression : Descent Expr :=
  delta% expressionRule ts (by apply expression) (by apply level)
partial_fixpoint

def level (n : Nat) : Descent Expr :=
  delta% levelRule (by apply level) (by apply joined) (by apply unary) n
partial_fixpoint

def joined (n : Nat) (left : Expr) : Descent Expr :=
  delta% joinedRule ts (by apply level) (by apply joined) n left
partial_fixpoint

def unary : Descent Expr :=
  delta% unaryRule ts (by apply unary) (by apply primary) (by apply calls)
partial_fixpoint

def calls (callee : Expr) : Descent Expr :=
  delta% callsRule ts (by apply calls) (by apply arguments) callee
partial_fixpoint

def arguments : Descent (List Expr) :=
  delta% argumentsRule ts (by apply argumentsAfter)
partial_fixpoint

def argumentsAfter (done : List Expr) : Descent (List Expr) :=
  delta% argumentsAfterRule ts (by apply expression) (by apply argumentsAfter) done
partial_fixpoint

def primary : Descent Expr :=
  delta% primaryRule ts (by apply expression)
partial_fixpoint

end

/-- An expression, unless a token of the kind stands here. -/
def optional (kind : TokenKind) : Descent (Option Expr) := do
  let t ← look ts
  if t.kind = kind then return none
  else return some (← expression ts)

def expressionStatement : Descent Stmt := do
  let e ← expression ts
  let _ ← consume ts .semicolon "Expect ';' after expression."
  return .expression e

/-- A variable declaration behind its keyword. -/
def varDeclaration : Descent Stmt := do
  let name ← consume ts .identifier "Expect variable name."
  let t ← look ts
  if t.kind = .equal then
    advance ts
    let e ← expression ts
    let _ ← consume ts .semicolon "Expect ';' after variable declaration."
    return .create name.lexeme (some e) name.line
  else
    let _ ← consume ts .semicolon "Expect ';' after variable declaration."
    return .create name.lexeme none name.line

/-- At least one more parameter; those before it, last first. -/
def parametersAfterRule (parametersAfter : List String → Descent (List String))
    (done : List String) : Descent (List String) := do
  checkItems ts .tooManyParameters done.length
  let name ← consume ts .identifier "Expect parameter name."
  let t ← look ts
  if t.kind = .comma then
    advance ts
    parametersAfter (name.lexeme :: done)
  else return (name.lexeme :: done).reverse

def parametersAfter (done : List String) : Descent (List String) :=
  delta% parametersAfterRule ts (by apply parametersAfter) done
partial_fixpoint

def parameters : Descent (List String) := do
  let t ← look ts
  if t.kind = .rightParen then return []
  else parametersAfter ts []

/-- The first clause of a `for` loop, its semicolon included. -/
def forInitial : Descent (Option Stmt) := do
  let t ← look ts
  match t.kind with
  | .semicolon =>
    advance ts
    return none
  | .create =>
    advance ts
    return some (← varDeclaration ts)
  | _ => return some (← expressionStatement ts)

/-- A condition in parentheses. -/
def condition (opening closing : String) : Descent Expr := do
  let _ ← consume ts .leftParen opening
  let e ← expression ts
  let _ ← consume ts .rightParen closing
  return e

def outputStatement : Descent Stmt := do
  let e ← expression ts
  let _ ← consume ts .semicolon "Expect ';' after value."
  return .output e

/-- A return statement behind its keyword, which stands on `line`. -/
def returnStatement (inside : Bool) (line : Nat) : Descent Stmt := do
  if inside then
    let value ← optional ts .semicolon
    let _ ← consume ts .semicolon "Expect ';' after return value."
    return .giveBack value line
  else throw (.returnOutsideFunction line)

section

variable (declarationOrRecover : Bool → Descent (Option Stmt)) (declaration : Bool → Descent Stmt)
  (functionDeclaration : Descent Stmt)
  (statement forStatement ifStatement whileStatement : Bool → Descent Stmt)
  (block : Bool → List Stmt → Descent (List Stmt))

/-- A declaration, or none where one was given up after a mistake. -/
def declarationOrRecoverRule (inside : Bool) : Descent (Option Stmt) := fun c => do
  match ← declaration inside c with
  | (.ok s, c) => return (.ok (some s), c)
  | (.error e, c) =>
    let (_, c) ← synchronize ts (c.report e)
    return (.ok none, c)

def declarationRule (inside : Bool) : Descent Stmt := do
  let t ← look ts
  match t.kind with
  | .create =>
    advance ts
    varDeclaration ts
  | .func =>
    advance ts
    functionDeclaration
  | _ => statement inside

/-- A function declaration behind its keyword. -/
def functionDeclarationRule : Descent Stmt := do
  let name ← consume ts .identifier "Expect function name."
  let _ ← consume ts .leftParen "Expect '(' after function name."
  let params ← parameters ts
  let _ ← consume ts .rightParen "Expect ')' after parameters."
  let _ ← consume ts .leftBrace "Expect '\x7b' before function body."
  let body ← block true []
  return .function name.lexeme params body name.line

def statementRule (inside : Bool) : Descent Stmt := do
  let t ← look ts
  match t.kind with
  | .for =>
    advance ts
    forStatement inside
  | .if =>
    advance ts
    ifStatement inside
  | .while =>
    advance ts
    whileStatement inside
  | .output =>
    advance ts
    outputStatement ts
  | .return =>
    advance ts
    returnStatement ts inside t.line
  | .leftBrace =>
    advance ts
    let body ← block inside []
    return .block body
  | _ => expressionStatement ts

def forStatementRule (inside : Bool) : Descent Stmt := do
  let _ ← consume ts .leftParen "Expect '(' after 'for'."
  let initial ← forInitial ts
  let condition ← optional ts .semicolon
  let _ ← consume ts .semicolon "Expect ';' after loop condition."
  let increment ← optional ts .rightParen
  let _ ← consume ts .rightParen "Expect ')' after for clauses."
  let body ← statement inside
  return .forLoop initial condition increment body

def ifStatementRule (inside : Bool) : Descent Stmt := do
  let c ← condition ts "Expect '(' after 'if'." "Expect ')' after if condition."
  let yes ← statement inside
  let t ← look ts
  if t.kind = .else then
    advance ts
    let no ← statement inside
    return .ifElse c yes no
  else return .ifThen c yes

def whileStatementRule (inside : Bool) : Descent Stmt := do
  let c ← condition ts "Expect '(' after 'while'." "Expect ')' after condition."
  let body ← statement inside
  return .loop c body

/-- The rest of a block behind the statements `done`, last first, with its closing brace. -/
def blockRule (inside : Bool) (done : List Stmt) : Descent (List Stmt) := do
  let t ← look ts
  if t.kind = .rightBrace ∨ t.kind = .eof then
    let _ ← consume ts .rightBrace "Expect '\x7d' after block."
    return done.reverse
  else
    match ← declarationOrRecover inside with
    | some s => block inside (s :: done)
    | none => block inside done

end

mutual

def declarationOrRecover (inside : Bool) : Descent (Option Stmt) :=
  delta% declarationOrRecoverRule ts (by apply declaration) inside
partial_fixpoint

def declaration (inside : Bool) : Descent Stmt :=
  delta% declarationRule ts (by apply functionDeclaration) (by apply statement) inside
partial_fixpoint

def functionDeclaration : Descent Stmt :=
  delta% functionDeclarationRule ts (by apply block)
partial_fixpoint

def statement (inside : Bool) : Descent Stmt :=
  delta% statementRule ts (by apply forStatement) (by apply ifStatement)
    (by apply whileStatement) (by apply block) inside
partial_fixpoint

def forStatement (inside : Bool) : Descent Stmt :=
  delta% forStatementRule ts (by apply statement) inside
partial_fixpoint

def ifStatement (inside : Bool) : Descent Stmt :=
  delta% ifStatementRule ts (by apply statement) inside
partial_fixpoint

def whileStatement (inside : Bool) : Descent Stmt :=
  delta% whileStatementRule ts (by apply statement) inside
partial_fixpoint

def block (inside : Bool) (done : List Stmt) : Descent (List Stmt) :=
  delta% blockRule ts (by apply declarationOrRecover) (by apply block) inside done
partial_fixpoint

end

/-- The rest of a program behind the statements `done`, last first. -/
def programRule (program : List Stmt → Descent (List Stmt)) (done : List Stmt) :
    Descent (List Stmt) := do
  let t ← look ts
  if t.kind = .eof then return done.reverse
  else
    match ← declarationOrRecover ts false with
    | some s => program (s :: done)
    | none => program done

def program (done : List Stmt) : Descent (List Stmt) :=
  delta% programRule ts (by apply program) done
partial_fixpoint

end

end Descent

end ClosureLang
