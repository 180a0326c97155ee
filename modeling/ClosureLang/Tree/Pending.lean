import ClosureLang.Tree.SyntaxError

namespace ClosureLang

inductive Connective where
  | binary (op : BinaryOp)
  | logical (op : LogicalOp)
deriving Repr, DecidableEq

namespace Connective

/-- How tightly an operator binds. -/
def level : Connective → Nat
  | .logical .or => 1
  | .logical .and => 2
  | .binary .equal | .binary .notEqual => 3
  | .binary .less | .binary .greater | .binary .lessEqual | .binary .greaterEqual => 4
  | .binary .add | .binary .sub => 5
  | .binary .mul | .binary .div => 6

/-- The operator that a kind of token denotes after an operand. -/
def ofKind? : TokenKind → Option Connective
  | .or => some (.logical .or)
  | .and => some (.logical .and)
  | kind => (BinaryOp.ofKind? kind).map .binary

/-- The expression that an operator makes of its operands. -/
def join (op : Connective) (left right : Expr) (line : Nat) : Expr :=
  match op with
  | .binary op => .binary left op right line
  | .logical op => .logical left op right line

end Connective

/-- A part of an expression that waits for an operand. -/
inductive Pending where
  | group
  | unary (op : UnaryOp) (line : Nat)
  | joined (left : Expr) (op : Connective) (line : Nat)
  | assign (target : Expr) (line : Nat)
  /-- A call with the arguments before this one, last first. -/
  | arguments (callee : Expr) (done : List Expr)

namespace Pending

/-- Applies the waiting operators that bind at least as tightly as `level` to an operand. -/
def settle (level : Nat) : Expr → List Pending → Expr × List Pending
  | e, .unary op line :: rest => settle level (.unary op e line) rest
  | e, .joined left op line :: rest =>
    if level ≤ op.level then settle level (op.join left e line) rest
    else (e, .joined left op line :: rest)
  | e, rest => (e, rest)

/-- What an expression is once no operator can follow: complete, in a bracket, or misassigned. -/
inductive Completed where
  | whole (e : Expr)
  | grouped (e : Expr) (rest : List Pending)
  | argument (callee : Expr) (done : List Expr) (e : Expr) (rest : List Pending)
  | badTarget (line : Nat)

/-- Applies every waiting operator up to the nearest bracket; only a name can be assigned to. -/
def complete : Expr → List Pending → Completed
  | e, .unary op line :: rest => complete (.unary op e line) rest
  | e, .joined left op line :: rest => complete (op.join left e line) rest
  | e, .assign (.lookup name line) _ :: rest => complete (.assign name e line) rest
  | _, .assign _ line :: _ => .badTarget line
  | e, .group :: rest => .grouped e rest
  | e, .arguments callee done :: rest => .argument callee done e rest
  | e, [] => .whole e

end Pending

/-- What a whole expression is read for. -/
inductive Use where
  | expression
  | output
  | initial (name : String) (line : Nat)
  | ifCondition
  | loopCondition
  | result (line : Nat)
  | forCondition (initial : Option Stmt)
  | forIncrement (initial : Option Stmt) (condition : Option Expr)

/-- A function declaration up to its body: its name, the line of the name, and its parameters. -/
structure FunctionHead where
  name : String
  line : Nat
  params : List String

/-- A statement that waits for a statement inside it. -/
inductive Open where
  /-- A block with the statements read so far, last first. -/
  | block (done : List Stmt)
  /-- A function body with the statements read so far, last first. -/
  | body (head : FunctionHead) (done : List Stmt)
  | thenBranch (condition : Expr)
  | elseBranch (condition : Expr) (yes : Stmt)
  | loopBody (condition : Expr)
  | forInitial
  | forBody (initial : Option Stmt) (condition increment : Option Expr)

namespace Open

/-- Whether statements are listed here, so that reading can resume here after a mistake. -/
def isBlock : Open → Bool
  | .block _ | .body .. => true
  | _ => false

def isBody : Open → Bool
  | .body .. => true
  | _ => false

end Open

/-- What the next token is read as. -/
inductive Position where
  | declaration
  | statement
  | operand (use : Use) (pending : List Pending)
  | operator (use : Use) (pending : List Pending) (e : Expr)
  | firstArgument (use : Use) (pending : List Pending) (callee : Expr)
  /-- After a whole statement, which an `else` may still continue. -/
  | completed (s : Stmt)
  | createName
  | createRest (name : String) (line : Nat)
  | functionName
  | functionOpen (name : String) (line : Nat)
  | firstParameter (name : String) (line : Nat)
  /-- The next parameter, those before it last first. -/
  | parameter (name : String) (line : Nat) (done : List String)
  | parameterRest (name : String) (line : Nat) (done : List String)
  | functionBrace (head : FunctionHead)
  | ifOpen
  | loopOpen
  | forOpen
  | forStart
  | forCondition (initial : Option Stmt)
  | forIncrement (initial : Option Stmt) (condition : Option Expr)
  | resultStart (line : Nat)
  /-- After a mistake, at a token that is dropped whatever it is. -/
  | discard
  /-- After a mistake, at a token that is dropped unless a statement starts with it. -/
  | skip

end ClosureLang
