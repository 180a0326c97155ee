import ClosureLang.Tree.Builder
import Mathlib

namespace ClosureLang.Grammar

/-- The operators between operands on each level, from the loosest to the tightest. -/
def operators : Nat → List (TokenKind × Connective)
  | 1 => [(.or, .logical .or)]
  | 2 => [(.and, .logical .and)]
  | 3 => [(.bangEqual, .binary .notEqual), (.equalEqual, .binary .equal)]
  | 4 => [(.greater, .binary .greater), (.greaterEqual, .binary .greaterEqual),
      (.less, .binary .less), (.lessEqual, .binary .lessEqual)]
  | 5 => [(.minus, .binary .sub), (.plus, .binary .add)]
  | 6 => [(.slash, .binary .div), (.star, .binary .mul)]
  | _ => []

def constants : List TokenKind := [.number, .string, .true, .false, .nil]

/-- The complaint about the item of a list that follows `n` others, and starts with `t`. -/
def excess (complaint : Nat → Nat → SyntaxError) (n : Nat) (t : Token) : List SyntaxError :=
  if n = 255 then [complaint 255 t.line] else []

theorem excess_of_lt {complaint : Nat → Nat → SyntaxError} {n : Nat} {t : Token} (h : n < 255) :
    excess complaint n t = [] :=
  if_neg (Nat.ne_of_lt h)

mutual

/-- The tokens of an expression, its tree, and the complaints that over-long lists in it deserve, in
the order in which the lists get too long; `fits n` says that a list of `n` items is allowed. -/
inductive Expression (fits : Nat → Prop) : List Token → Expr → List SyntaxError → Prop where
  | assignment {name eq : Token} {ts : List Token} {value : Expr} {d : List SyntaxError}
      (hn : name.kind = .identifier) (he : eq.kind = .equal) (hv : Expression fits ts value d) :
      Expression fits (name :: eq :: ts) (.assign name.lexeme value name.line) d
  | logicOr {ts : List Token} {e : Expr} {d : List SyntaxError} (h : Operand fits 1 ts e d) :
      Expression fits ts e d

/-- Operands of the levels 1 to 6 are joined by the operators of their level, those of level 7 may
start with an operator, and those of level 8 are constants, names, groups and calls. -/
inductive Operand (fits : Nat → Prop) : Nat → List Token → Expr → List SyntaxError → Prop where
  | tighter {n : Nat} {ts : List Token} {e : Expr} {d : List SyntaxError}
      (h : Operand fits (n + 1) ts e d) : Operand fits n ts e d
  | binary {n : Nat} {op : Token} {o : BinaryOp} {ts us : List Token} {left right : Expr}
      {d d' : List SyntaxError} (ho : (op.kind, .binary o) ∈ operators n)
      (hl : Operand fits n ts left d) (hr : Operand fits (n + 1) us right d') :
      Operand fits n (ts ++ op :: us) (.binary left o right op.line) (d ++ d')
  | logical {n : Nat} {op : Token} {o : LogicalOp} {ts us : List Token} {left right : Expr}
      {d d' : List SyntaxError} (ho : (op.kind, .logical o) ∈ operators n)
      (hl : Operand fits n ts left d) (hr : Operand fits (n + 1) us right d') :
      Operand fits n (ts ++ op :: us) (.logical left o right op.line) (d ++ d')
  | not {op : Token} {ts : List Token} {e : Expr} {d : List SyntaxError} (ho : op.kind = .bang)
      (h : Operand fits 7 ts e d) : Operand fits 7 (op :: ts) (.unary .not e op.line) d
  | negate {op : Token} {ts : List Token} {e : Expr} {d : List SyntaxError}
      (ho : op.kind = .minus) (h : Operand fits 7 ts e d) :
      Operand fits 7 (op :: ts) (.unary .negate e op.line) d
  | call {opening closing : Token} {ts us : List Token} {callee : Expr} {args : List Expr}
      {d d' : List SyntaxError} (h : Operand fits 8 ts callee d) (ho : opening.kind = .leftParen)
      (ha : Arguments fits us args d') (hf : fits args.length) (hc : closing.kind = .rightParen) :
      Operand fits 8 (ts ++ opening :: (us ++ [closing])) (.call callee args closing.line) (d ++ d')
  | callEmpty {opening closing : Token} {ts : List Token} {callee : Expr} {d : List SyntaxError}
      (h : Operand fits 8 ts callee d) (ho : opening.kind = .leftParen) (hf : fits 0)
      (hc : closing.kind = .rightParen) :
      Operand fits 8 (ts ++ [opening, closing]) (.call callee [] closing.line) d
  | literal {t : Token} (ht : t.kind ∈ constants) :
      Operand fits 8 [t] (.literal (t.literal.getD .nil)) []
  | lookup {t : Token} (ht : t.kind = .identifier) : Operand fits 8 [t] (.lookup t.lexeme t.line) []
  | grouping {opening closing : Token} {ts : List Token} {e : Expr} {d : List SyntaxError}
      (ho : opening.kind = .leftParen) (h : Expression fits ts e d)
      (hc : closing.kind = .rightParen) :
      Operand fits 8 (opening :: (ts ++ [closing])) (.grouping e) d

inductive Arguments (fits : Nat → Prop) : List Token → List Expr → List SyntaxError → Prop where
  | first {ts : List Token} {e : Expr} {d : List SyntaxError} (h : Expression fits ts e d) :
      Arguments fits ts [e] d
  | next {comma t : Token} {ts us : List Token} {es : List Expr} {e : Expr}
      {d d' : List SyntaxError} (h : Arguments fits ts es d) (hc : comma.kind = .comma)
      (he : Expression fits (t :: us) e d') :
      Arguments fits (ts ++ comma :: t :: us) (es ++ [e])
        (d ++ excess .tooManyArguments es.length t ++ d')

end

theorem Operand.joined {fits : Nat → Prop} {n : Nat} {op : Token} {c : Connective}
    {ts us : List Token} {left right : Expr} {d d' : List SyntaxError}
    (ho : (op.kind, c) ∈ operators n) (hl : Operand fits n ts left d)
    (hr : Operand fits (n + 1) us right d') :
    Operand fits n (ts ++ op :: us) (c.join left right op.line) (d ++ d') := by
  cases c with
  | binary o => exact .binary ho hl hr
  | logical o => exact .logical ho hl hr

theorem Operand.loosen {fits : Nat → Prop} {m n : Nat} {ts : List Token} {e : Expr}
    {d : List SyntaxError} (h : Operand fits n ts e d) (hm : m ≤ n) : Operand fits m ts e d := by
  induction n, hm using Nat.le_induction with
  | base => exact h
  | succ n _ ih => exact ih h.tighter

theorem Operand.expression {fits : Nat → Prop} {n : Nat} {ts : List Token} {e : Expr}
    {d : List SyntaxError} (h : Operand fits (n + 1) ts e d) : Expression fits ts e d :=
  .logicOr (h.loosen (Nat.le_add_left 1 n))

inductive Parameters : List Token → List String → List SyntaxError → Prop where
  | first {t : Token} (ht : t.kind = .identifier) : Parameters [t] [t.lexeme] []
  | next {comma t : Token} {ts : List Token} {ps : List String} {d : List SyntaxError}
      (h : Parameters ts ps d) (hc : comma.kind = .comma) (ht : t.kind = .identifier) :
      Parameters (ts ++ [comma, t]) (ps ++ [t.lexeme])
        (d ++ excess .tooManyParameters ps.length t)

/-- A function declaration up to its body. -/
inductive Head (fits : Nat → Prop) : List Token → FunctionHead → List SyntaxError → Prop where
  | parameters {func name opening closing : Token} {ts : List Token} {ps : List String}
      {d : List SyntaxError} (hf : func.kind = .func) (hn : name.kind = .identifier)
      (ho : opening.kind = .leftParen) (hp : Parameters ts ps d) (hl : fits ps.length)
      (hc : closing.kind = .rightParen) :
      Head fits (func :: name :: opening :: (ts ++ [closing])) ⟨name.lexeme, name.line, ps⟩ d
  | empty {func name opening closing : Token} (hf : func.kind = .func)
      (hn : name.kind = .identifier) (ho : opening.kind = .leftParen) (hl : fits 0)
      (hc : closing.kind = .rightParen) :
      Head fits [func, name, opening, closing] ⟨name.lexeme, name.line, []⟩ []

inductive VarDecl (fits : Nat → Prop) : List Token → Stmt → List SyntaxError → Prop where
  | bare {create name semicolon : Token} (hk : create.kind = .create)
      (hn : name.kind = .identifier) (hs : semicolon.kind = .semicolon) :
      VarDecl fits [create, name, semicolon] (.create name.lexeme none name.line) []
  | initialized {create name eq semicolon : Token} {ts : List Token} {e : Expr}
      {d : List SyntaxError} (hk : create.kind = .create) (hn : name.kind = .identifier)
      (hq : eq.kind = .equal) (he : Expression fits ts e d) (hs : semicolon.kind = .semicolon) :
      VarDecl fits (create :: name :: eq :: (ts ++ [semicolon]))
        (.create name.lexeme (some e) name.line) d

inductive ExprStmt (fits : Nat → Prop) : List Token → Stmt → List SyntaxError → Prop where
  | mk {semicolon : Token} {ts : List Token} {e : Expr} {d : List SyntaxError}
      (he : Expression fits ts e d) (hs : semicolon.kind = .semicolon) :
      ExprStmt fits (ts ++ [semicolon]) (.expression e) d

/-- The first clause of a `for` loop, its semicolon included. -/
inductive Initial (fits : Nat → Prop) : List Token → Option Stmt → List SyntaxError → Prop where
  | none {semicolon : Token} (hs : semicolon.kind = .semicolon) : Initial fits [semicolon] none []
  | varDecl {ts : List Token} {s : Stmt} {d : List SyntaxError} (h : VarDecl fits ts s d) :
      Initial fits ts (some s) d
  | exprStmt {ts : List Token} {s : Stmt} {d : List SyntaxError} (h : ExprStmt fits ts s d) :
      Initial fits ts (some s) d

/-- An expression that may be missing. -/
inductive Optional (fits : Nat → Prop) : List Token → Option Expr → List SyntaxError → Prop where
  | none : Optional fits [] none []
  | some {ts : List Token} {e : Expr} {d : List SyntaxError} (h : Expression fits ts e d) :
      Optional fits ts (some e) d

/-- What a `for` loop stands for: the loop shares a block with the initial statement if there is
one, and the body shares a block with the increment if there is one. -/
def lowered (initial : Option Stmt) (condition : Expr) (increment : Option Expr) (body : Stmt) :
    Stmt :=
  match initial, increment with
  | none, none => .loop condition body
  | none, some e => .loop condition (.block [body, .expression e])
  | some s, none => .block [s, .loop condition body]
  | some s, some e => .block [s, .loop condition (.block [body, .expression e])]

/-- The builder makes of a `for` loop what the loop stands for. -/
theorem forLoop_eq_lowered (initial : Option Stmt) (condition increment : Option Expr)
    (body : Stmt) :
    Stmt.forLoop initial condition increment body =
      lowered initial (condition.getD (.literal (.bool true))) increment body := by
  cases initial <;> cases increment <;> rfl

mutual

/-- A declaration, inside a function body or not. -/
inductive Declaration (fits : Nat → Prop) :
    Bool → List Token → Stmt → List SyntaxError → Prop where
  | varDecl {inside : Bool} {ts : List Token} {s : Stmt} {d : List SyntaxError}
      (h : VarDecl fits ts s d) : Declaration fits inside ts s d
  | funcDecl {inside : Bool} {opening closing : Token} {ts us : List Token} {head : FunctionHead}
      {body : List Stmt} {d d' : List SyntaxError} (hh : Head fits ts head d)
      (ho : opening.kind = .leftBrace) (hb : Declarations fits true us body d')
      (hc : closing.kind = .rightBrace) :
      Declaration fits inside (ts ++ opening :: (us ++ [closing]))
        (.function head.name head.params body head.line) (d ++ d')
  | statement {inside dangling : Bool} {ts : List Token} {s : Stmt} {d : List SyntaxError}
      (h : Statement fits inside dangling ts s d) : Declaration fits inside ts s d

/-- A statement, inside a function body or not. It is dangling if it ends in an `if` without `else`,
and then stands in front of no `else`, so every `else` belongs to the nearest `if` that is open. -/
inductive Statement (fits : Nat → Prop) :
    Bool → Bool → List Token → Stmt → List SyntaxError → Prop where
  | exprStmt {inside : Bool} {ts : List Token} {s : Stmt} {d : List SyntaxError}
      (h : ExprStmt fits ts s d) : Statement fits inside false ts s d
  | output {inside : Bool} {output semicolon : Token} {ts : List Token} {e : Expr}
      {d : List SyntaxError} (hk : output.kind = .output) (he : Expression fits ts e d)
      (hs : semicolon.kind = .semicolon) :
      Statement fits inside false (output :: (ts ++ [semicolon])) (.output e) d
  | giveBack {ret semicolon : Token} {ts : List Token} {value : Option Expr}
      {d : List SyntaxError} (hk : ret.kind = .return) (hv : Optional fits ts value d)
      (hs : semicolon.kind = .semicolon) :
      Statement fits true false (ret :: (ts ++ [semicolon])) (.giveBack value ret.line) d
  | block {inside : Bool} {opening closing : Token} {ts : List Token} {body : List Stmt}
      {d : List SyntaxError} (ho : opening.kind = .leftBrace)
      (hb : Declarations fits inside ts body d) (hc : closing.kind = .rightBrace) :
      Statement fits inside false (opening :: (ts ++ [closing])) (.block body) d
  | ifThen {inside dangling : Bool} {key opening closing : Token} {ts us : List Token}
      {condition : Expr} {yes : Stmt} {d d' : List SyntaxError} (hk : key.kind = .if)
      (ho : opening.kind = .leftParen) (he : Expression fits ts condition d)
      (hc : closing.kind = .rightParen) (hy : Statement fits inside dangling us yes d') :
      Statement fits inside true (key :: opening :: (ts ++ closing :: us)) (.ifThen condition yes)
        (d ++ d')
  | ifElse {inside dangling : Bool} {key opening closing other : Token} {ts us vs : List Token}
      {condition : Expr} {yes no : Stmt} {d d' d'' : List SyntaxError} (hk : key.kind = .if)
      (ho : opening.kind = .leftParen) (he : Expression fits ts condition d)
      (hc : closing.kind = .rightParen) (hy : Statement fits inside false us yes d')
      (hx : other.kind = .else) (hn : Statement fits inside dangling vs no d'') :
      Statement fits inside dangling (key :: opening :: (ts ++ closing :: (us ++ other :: vs)))
        (.ifElse condition yes no) (d ++ d' ++ d'')
  | loop {inside dangling : Bool} {key opening closing : Token} {ts us : List Token}
      {condition : Expr} {body : Stmt} {d d' : List SyntaxError} (hk : key.kind = .while)
      (ho : opening.kind = .leftParen) (he : Expression fits ts condition d)
      (hc : closing.kind = .rightParen) (hb : Statement fits inside dangling us body d') :
      Statement fits inside dangling (key :: opening :: (ts ++ closing :: us))
        (.loop condition body) (d ++ d')
  | forLoop {inside dangling : Bool} {key opening semicolon closing : Token}
      {ts us vs ws : List Token} {initial : Option Stmt} {condition increment : Option Expr}
      {body : Stmt} {d d' d'' d''' : List SyntaxError} (hk : key.kind = .for)
      (ho : opening.kind = .leftParen) (hi : Initial fits ts initial d)
      (he : Optional fits us condition d') (hs : semicolon.kind = .semicolon)
      (hn : Optional fits vs increment d'') (hc : closing.kind = .rightParen)
      (hb : Statement fits inside dangling ws body d''') :
      Statement fits inside dangling
        (key :: opening :: (ts ++ us ++ semicolon :: (vs ++ closing :: ws)))
        (lowered initial (condition.getD (.literal (.bool true))) increment body)
        (d ++ d' ++ d'' ++ d''')

inductive Declarations (fits : Nat → Prop) :
    Bool → List Token → List Stmt → List SyntaxError → Prop where
  | nil {inside : Bool} : Declarations fits inside [] [] []
  | cons {inside : Bool} {ts us : List Token} {s : Stmt} {rest : List Stmt}
      {d d' : List SyntaxError} (h : Declaration fits inside ts s d)
      (hr : Declarations fits inside us rest d') :
      Declarations fits inside (ts ++ us) (s :: rest) (d ++ d')

end

/-- The tokens in front of the end token are the program `statements`. -/
def Program (fits : Nat → Prop) (ts : List Token) (statements : List Stmt)
    (d : List SyntaxError) : Prop :=
  Declarations fits false ts statements d

end ClosureLang.Grammar
