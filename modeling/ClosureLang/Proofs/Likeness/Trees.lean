import ClosureLang.Value.Operators
import ClosureLang.World
import Mathlib

namespace ClosureLang

/-- Which lines, numbers and printed texts count as alike. -/
structure Likeness where
  line : Nat → Nat → Prop
  number : Float → Float → Prop
  output : Output → Output → Prop
  neg {x x' : Float} : number x x' → number (-x) (-x')
  add {x x' y y' : Float} : number x x' → number y y' → number (x + y) (x' + y')
  sub {x x' y y' : Float} : number x x' → number y y' → number (x - y) (x' - y')
  mul {x x' y y' : Float} : number x x' → number y y' → number (x * y) (x' * y')
  div {x x' y y' : Float} : number x x' → number y y' → (y == 0) = false →
    number (x / y) (x' / y')
  sqrt {x x' : Float} : number x x' → number x.sqrt x'.sqrt
  zero {x x' : Float} : number x x' → (x == 0) = (x' == 0)
  equal {x x' y y' : Float} : number x x' → number y y' → (x == y) = (x' == y')
  order {x x' y y' : Float} : number x x' → number y y' → ∀ op, ordered op x y = ordered op x' y'
  render {x x' : Float} : number x x' →
    NumberStyle.display.render x = NumberStyle.display.render x'
  println {o o' : Output} : output o o' → ∀ text, output (o.println text) (o'.println text)

namespace Likeness

/-- Nothing may differ. -/
def same : Likeness where
  line := Eq
  number := Eq
  output := Eq
  neg := by rintro _ _ rfl; rfl
  add := by rintro _ _ _ _ rfl rfl; rfl
  sub := by rintro _ _ _ _ rfl rfl; rfl
  mul := by rintro _ _ _ _ rfl rfl; rfl
  div := by rintro _ _ _ _ rfl rfl _; rfl
  sqrt := by rintro _ _ rfl; rfl
  zero := by rintro _ _ rfl; rfl
  equal := by rintro _ _ _ _ rfl rfl; rfl
  order := by rintro _ _ _ _ rfl rfl _; rfl
  render := by rintro _ _ rfl; rfl
  println := by rintro _ _ rfl _; rfl

/-- Trees count as like themselves. -/
structure Reflexive (L : Likeness) : Prop where
  line : ∀ n, L.line n n
  number : ∀ x, L.number x x

theorem same_reflexive : same.Reflexive :=
  ⟨fun _ => rfl, fun _ => rfl⟩

end Likeness

/-- The fault, reported on another line. -/
def Fault.withLine (line : Nat) : Fault → Fault
  | .undefinedVariable name _ => .undefinedVariable name line
  | .operandMustBeNumber operator _ => .operandMustBeNumber operator line
  | .operandsMustBeNumbers operator _ => .operandsMustBeNumbers operator line
  | .invalidAddOperands _ => .invalidAddOperands line
  | .divisionByZero _ => .divisionByZero line
  | .notCallable _ => .notCallable line
  | .arityMismatch expected found _ => .arityMismatch expected found line
  | .typeError details _ => .typeError details line

section

variable (L : Likeness)

/-- Faults that differ in the line at most. -/
def Fault.Like (f f' : Fault) : Prop :=
  L.line f.line f'.line ∧ f' = f.withLine f'.line

/-- Both give related results, or faults that are alike. -/
inductive Likeness.Result {α β : Type} (value : α → β → Prop) :
    Except Fault α → Except Fault β → Prop where
  | ok {a : α} {b : β} (h : value a b) : Result value (.ok a) (.ok b)
  | error {f f' : Fault} (h : f.Like L f') : Result value (.error f) (.error f')

inductive Literal.Like : Literal → Literal → Prop where
  | number {x x' : Float} (h : L.number x x') : Like (.number x) (.number x')
  | text {s : String} : Like (.text s) (.text s)
  | bool {b : Bool} : Like (.bool b) (.bool b)
  | nil : Like .nil .nil

/-- Expressions that differ in lines and numbers only. -/
inductive Expr.Like : Expr → Expr → Prop where
  | literal {a a' : Literal} (h : a.Like L a') : Like (.literal a) (.literal a')
  | grouping {e e' : Expr} (h : Like e e') : Like (.grouping e) (.grouping e')
  | unary {op : UnaryOp} {e e' : Expr} {l l' : Nat} (h : Like e e') (hl : L.line l l') :
      Like (.unary op e l) (.unary op e' l')
  | binary {op : BinaryOp} {a a' b b' : Expr} {l l' : Nat} (ha : Like a a') (hb : Like b b')
      (hl : L.line l l') : Like (.binary a op b l) (.binary a' op b' l')
  | logical {op : LogicalOp} {a a' b b' : Expr} {l l' : Nat} (ha : Like a a') (hb : Like b b')
      (hl : L.line l l') : Like (.logical a op b l) (.logical a' op b' l')
  | lookup {name : String} {l l' : Nat} (hl : L.line l l') : Like (.lookup name l) (.lookup name l')
  | assign {name : String} {e e' : Expr} {l l' : Nat} (h : Like e e') (hl : L.line l l') :
      Like (.assign name e l) (.assign name e' l')
  | call {f f' : Expr} {args args' : List Expr} {l l' : Nat} (h : Like f f')
      (ha : List.Forall₂ Like args args') (hl : L.line l l') :
      Like (.call f args l) (.call f' args' l')

/-- Statements that differ in lines and numbers only. -/
inductive Stmt.Like : Stmt → Stmt → Prop where
  | expression {e e' : Expr} (h : e.Like L e') : Like (.expression e) (.expression e')
  | output {e e' : Expr} (h : e.Like L e') : Like (.output e) (.output e')
  | create {name : String} {e e' : Option Expr} {l l' : Nat} (h : Option.Rel (Expr.Like L) e e')
      (hl : L.line l l') : Like (.create name e l) (.create name e' l')
  | block {body body' : List Stmt} (h : List.Forall₂ Like body body') :
      Like (.block body) (.block body')
  | ifThen {c c' : Expr} {yes yes' : Stmt} (hc : c.Like L c') (hy : Like yes yes') :
      Like (.ifThen c yes) (.ifThen c' yes')
  | ifElse {c c' : Expr} {yes yes' no no' : Stmt} (hc : c.Like L c') (hy : Like yes yes')
      (hn : Like no no') : Like (.ifElse c yes no) (.ifElse c' yes' no')
  | loop {c c' : Expr} {body body' : Stmt} (hc : c.Like L c') (hb : Like body body') :
      Like (.loop c body) (.loop c' body')
  | function {name : String} {params : List String} {body body' : List Stmt} {l l' : Nat}
      (h : List.Forall₂ Like body body') (hl : L.line l l') :
      Like (.function name params body l) (.function name params body' l')
  | giveBack {e e' : Option Expr} {l l' : Nat} (h : Option.Rel (Expr.Like L) e e')
      (hl : L.line l l') : Like (.giveBack e l) (.giveBack e' l')

end

theorem Likeness.Result.bind {L : Likeness} {α β γ δ : Type} {R : α → β → Prop} {S : γ → δ → Prop}
    {a : Except Fault α} {b : Except Fault β} (h : L.Result R a b) {g : α → Except Fault γ}
    {k : β → Except Fault δ} (hg : ∀ x y, R x y → L.Result S (g x) (k y)) :
    L.Result S (a >>= g) (b >>= k) := by
  cases h with
  | ok h => exact hg _ _ h
  | error h => exact .error h

namespace Likeness.Reflexive

variable {L : Likeness}

theorem fault (h : L.Reflexive) (f : Fault) : f.Like L f := by
  refine ⟨h.line f.line, ?_⟩
  cases f <;> rfl

theorem literal (h : L.Reflexive) (a : Literal) : a.Like L a := by
  cases a with
  | number x => exact .number (h.number x)
  | text s => exact .text
  | bool b => exact .bool
  | nil => exact .nil

mutual

theorem expr (h : L.Reflexive) : (e : Expr) → e.Like L e
  | .literal a => .literal (h.literal a)
  | .grouping e => .grouping (h.expr e)
  | .unary _ e l => .unary (h.expr e) (h.line l)
  | .binary a _ b l => .binary (h.expr a) (h.expr b) (h.line l)
  | .logical a _ b l => .logical (h.expr a) (h.expr b) (h.line l)
  | .lookup _ l => .lookup (h.line l)
  | .assign _ e l => .assign (h.expr e) (h.line l)
  | .call f args l => .call (h.expr f) (h.exprs args) (h.line l)

theorem exprs (h : L.Reflexive) : (es : List Expr) → List.Forall₂ (Expr.Like L) es es
  | [] => .nil
  | e :: es => .cons (h.expr e) (h.exprs es)

end

theorem optionalExpr (h : L.Reflexive) (e : Option Expr) : Option.Rel (Expr.Like L) e e := by
  cases e with
  | none => exact .none
  | some e => exact .some (h.expr e)

mutual

theorem stmt (h : L.Reflexive) : (s : Stmt) → s.Like L s
  | .expression e => .expression (h.expr e)
  | .output e => .output (h.expr e)
  | .create _ e l => .create (h.optionalExpr e) (h.line l)
  | .block body => .block (h.stmts body)
  | .ifThen c yes => .ifThen (h.expr c) (h.stmt yes)
  | .ifElse c yes no => .ifElse (h.expr c) (h.stmt yes) (h.stmt no)
  | .loop c body => .loop (h.expr c) (h.stmt body)
  | .function _ _ body l => .function (h.stmts body) (h.line l)
  | .giveBack e l => .giveBack (h.optionalExpr e) (h.line l)

theorem stmts (h : L.Reflexive) : (body : List Stmt) → List.Forall₂ (Stmt.Like L) body body
  | [] => .nil
  | s :: rest => .cons (h.stmt s) (h.stmts rest)

end

end Likeness.Reflexive

end ClosureLang
