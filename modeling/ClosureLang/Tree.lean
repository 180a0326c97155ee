import ClosureLang.Token

namespace ClosureLang

/-- Operators with one operand. -/
inductive UnaryOp where
  | negate | not
deriving Repr, DecidableEq

/-- Operators that evaluate both operands. -/
inductive BinaryOp where
  | add | sub | mul | div | less | greater | lessEqual | greaterEqual | equal | notEqual
deriving Repr, DecidableEq

/-- Operators that may leave their right operand unevaluated. -/
inductive LogicalOp where
  | and | or
deriving Repr, DecidableEq

def UnaryOp.symbol : UnaryOp → String
  | .negate => "-"
  | .not => "!"

def UnaryOp.name : UnaryOp → String
  | .negate => "Negate"
  | .not => "Not"

namespace BinaryOp

def symbol : BinaryOp → String
  | .add => "+"
  | .sub => "-"
  | .mul => "*"
  | .div => "/"
  | .less => "<"
  | .greater => ">"
  | .lessEqual => "<="
  | .greaterEqual => ">="
  | .equal => "=="
  | .notEqual => "!="

def name : BinaryOp → String
  | .add => "Add"
  | .sub => "Sub"
  | .mul => "Mul"
  | .div => "Div"
  | .less => "Less"
  | .greater => "Greater"
  | .lessEqual => "LessEqual"
  | .greaterEqual => "GreaterEqual"
  | .equal => "Equal"
  | .notEqual => "NotEqual"

/-- The operator that a kind of token denotes between two operands. -/
def ofKind? : TokenKind → Option BinaryOp
  | .plus => some .add
  | .minus => some .sub
  | .star => some .mul
  | .slash => some .div
  | .less => some .less
  | .greater => some .greater
  | .lessEqual => some .lessEqual
  | .greaterEqual => some .greaterEqual
  | .equalEqual => some .equal
  | .bangEqual => some .notEqual
  | _ => none

def all : List BinaryOp :=
  [.add, .sub, .mul, .div, .less, .greater, .lessEqual, .greaterEqual, .equal, .notEqual]

def ofSymbol? (s : String) : Option BinaryOp :=
  all.find? fun op => op.symbol == s

end BinaryOp

def LogicalOp.symbol : LogicalOp → String
  | .and => "and"
  | .or => "or"

def LogicalOp.name : LogicalOp → String
  | .and => "And"
  | .or => "Or"

/-- An expression; a node bears the line that a fault in it is reported on. -/
inductive Expr where
  | literal (value : Literal)
  | grouping (inner : Expr)
  | unary (op : UnaryOp) (operand : Expr) (line : Nat)
  | binary (left : Expr) (op : BinaryOp) (right : Expr) (line : Nat)
  | logical (left : Expr) (op : LogicalOp) (right : Expr) (line : Nat)
  | lookup (name : String) (line : Nat)
  | assign (name : String) (value : Expr) (line : Nat)
  | call (callee : Expr) (arguments : List Expr) (line : Nat)

inductive Stmt where
  | expression (e : Expr)
  | output (e : Expr)
  | create (name : String) (initial : Option Expr) (line : Nat)
  | block (body : List Stmt)
  | ifThen (condition : Expr) (yes : Stmt)
  | ifElse (condition : Expr) (yes no : Stmt)
  | loop (condition : Expr) (body : Stmt)
  | function (name : String) (params : List String) (body : List Stmt) (line : Nat)
  | giveBack (value : Option Expr) (line : Nat)

mutual

def Expr.same : Expr → Expr → Bool
  | .literal a, .literal b => a == b
  | .grouping a, .grouping b => a.same b
  | .unary op a l, .unary op' a' l' => op == op' && l == l' && a.same a'
  | .binary a op b l, .binary a' op' b' l' => op == op' && l == l' && a.same a' && b.same b'
  | .logical a op b l, .logical a' op' b' l' => op == op' && l == l' && a.same a' && b.same b'
  | .lookup n l, .lookup n' l' => n == n' && l == l'
  | .assign n a l, .assign n' a' l' => n == n' && l == l' && a.same a'
  | .call f as l, .call f' as' l' => l == l' && f.same f' && Expr.sameAll as as'
  | _, _ => false

def Expr.sameAll : List Expr → List Expr → Bool
  | [], [] => true
  | a :: as, b :: bs => a.same b && Expr.sameAll as bs
  | _, _ => false

end

instance : BEq Expr := ⟨Expr.same⟩

mutual

def Stmt.same : Stmt → Stmt → Bool
  | .expression a, .expression b => a == b
  | .output a, .output b => a == b
  | .create n a l, .create n' a' l' => n == n' && a == a' && l == l'
  | .block as, .block bs => Stmt.sameAll as bs
  | .ifThen c a, .ifThen c' a' => c == c' && a.same a'
  | .ifElse c a b, .ifElse c' a' b' => c == c' && a.same a' && b.same b'
  | .loop c a, .loop c' a' => c == c' && a.same a'
  | .function n ps as l, .function n' ps' as' l' =>
    n == n' && ps == ps' && l == l' && Stmt.sameAll as as'
  | .giveBack a l, .giveBack a' l' => a == a' && l == l'
  | _, _ => false

def Stmt.sameAll : List Stmt → List Stmt → Bool
  | [], [] => true
  | a :: as, b :: bs => a.same b && Stmt.sameAll as bs
  | _, _ => false

end

instance : BEq Stmt := ⟨Stmt.same⟩

namespace Stmt

/--
A `for` loop in terms of `while`: the increment closes each round in a block with the body, a
missing condition is true, and an initial statement shares a block with the loop.
-/
def forLoop (initial : Option Stmt) (condition increment : Option Expr) (body : Stmt) : Stmt :=
  let round := match increment with
    | some e => .block [body, .expression e]
    | none => body
  let rounds := .loop (condition.getD (.literal (.bool true))) round
  match initial with
  | some s => .block [s, rounds]
  | none => rounds

end Stmt

end ClosureLang
