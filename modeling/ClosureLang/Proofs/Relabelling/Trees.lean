import ClosureLang.Proofs.Likeness.Trees
import ClosureLang.Tree.Builder

namespace ClosureLang

/-- The token on another line. -/
def Token.relabel (f : Nat → Nat) (t : Token) : Token :=
  { t with line := f t.line }

mutual

def Expr.relabel (f : Nat → Nat) : Expr → Expr
  | .literal a => .literal a
  | .grouping e => .grouping (e.relabel f)
  | .unary op e l => .unary op (e.relabel f) (f l)
  | .binary a op b l => .binary (a.relabel f) op (b.relabel f) (f l)
  | .logical a op b l => .logical (a.relabel f) op (b.relabel f) (f l)
  | .lookup name l => .lookup name (f l)
  | .assign name e l => .assign name (e.relabel f) (f l)
  | .call callee args l => .call (callee.relabel f) (Expr.relabelAll f args) (f l)

def Expr.relabelAll (f : Nat → Nat) : List Expr → List Expr
  | [] => []
  | e :: rest => e.relabel f :: Expr.relabelAll f rest

end

mutual

def Stmt.relabel (f : Nat → Nat) : Stmt → Stmt
  | .expression e => .expression (e.relabel f)
  | .output e => .output (e.relabel f)
  | .create name e l => .create name (e.map (Expr.relabel f)) (f l)
  | .block body => .block (Stmt.relabelAll f body)
  | .ifThen c yes => .ifThen (c.relabel f) (yes.relabel f)
  | .ifElse c yes no => .ifElse (c.relabel f) (yes.relabel f) (no.relabel f)
  | .loop c body => .loop (c.relabel f) (body.relabel f)
  | .function name params body l => .function name params (Stmt.relabelAll f body) (f l)
  | .giveBack e l => .giveBack (e.map (Expr.relabel f)) (f l)

def Stmt.relabelAll (f : Nat → Nat) : List Stmt → List Stmt
  | [] => []
  | s :: rest => s.relabel f :: Stmt.relabelAll f rest

end

/-- The complaint, made on another line. -/
def SyntaxError.withLine (line : Nat) : SyntaxError → SyntaxError
  | .expectedToken message found _ => .expectedToken message found line
  | .expectedExpression found _ => .expectedExpression found line
  | .invalidAssignmentTarget _ => .invalidAssignmentTarget line
  | .tooManyParameters max _ => .tooManyParameters max line
  | .tooManyArguments max _ => .tooManyArguments max line
  | .returnOutsideFunction _ => .returnOutsideFunction line

def SyntaxError.relabel (f : Nat → Nat) (e : SyntaxError) : SyntaxError :=
  e.withLine (f e.line)

def Fault.relabel (f : Nat → Nat) (x : Fault) : Fault :=
  x.withLine (f x.line)

/-- What was read, with other lines in the trees and in the complaints. -/
def Parsed.relabel (f : Nat → Nat) (p : Parsed) : Parsed :=
  ⟨p.statements.map (Stmt.relabel f), p.errors.map (SyntaxError.relabel f)⟩

variable (f : Nat → Nat)

@[simp]
theorem Token.relabel_kind (t : Token) : (t.relabel f).kind = t.kind := rfl

@[simp]
theorem Token.relabel_lexeme (t : Token) : (t.relabel f).lexeme = t.lexeme := rfl

@[simp]
theorem Token.relabel_literal (t : Token) : (t.relabel f).literal = t.literal := rfl

@[simp]
theorem Token.relabel_line (t : Token) : (t.relabel f).line = f t.line := rfl

@[simp]
theorem Token.relabel_describe (t : Token) : (t.relabel f).describe = t.describe := rfl

@[simp]
theorem Expr.relabelAll_eq_map (es : List Expr) : relabelAll f es = es.map (relabel f) := by
  induction es with
  | nil => rfl
  | cons e es ih => simp [relabelAll, ih]

@[simp]
theorem Stmt.relabelAll_eq_map (body : List Stmt) : relabelAll f body = body.map (relabel f) := by
  induction body with
  | nil => rfl
  | cons s body ih => simp [relabelAll, ih]

@[simp]
theorem SyntaxError.line_relabel (e : SyntaxError) : (e.relabel f).line = f e.line := by
  cases e <;> rfl

@[simp]
theorem Fault.line_relabel (x : Fault) : (x.relabel f).line = f x.line := by
  cases x <;> rfl

/-- The tree of a `for` loop with other lines is that of its parts with other lines. -/
theorem Stmt.relabel_forLoop (initial : Option Stmt) (condition increment : Option Expr)
    (body : Stmt) :
    (forLoop initial condition increment body).relabel f =
      forLoop (initial.map (relabel f)) (condition.map (Expr.relabel f))
        (increment.map (Expr.relabel f)) (body.relabel f) := by
  cases initial <;> cases condition <;> cases increment <;>
    simp [forLoop, relabel, Expr.relabel]

end ClosureLang
