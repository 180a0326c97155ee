import ClosureLang.Proofs.Grammar.Contexts

namespace ClosureLang.Grammar

/-- Where a statement stands: among declarations, as a part of another statement, or as the first
clause of a `for` loop. -/
inductive Place where
  | list
  | single
  | initial
deriving DecidableEq

/-- A statement for a place, dangling or not. -/
def Fits : Place → Bool → Bool → List Token → Stmt → Prop
  | .list, inside, _, ts, s => Declaration (· ≤ 255) inside ts s []
  | .single, inside, dangling, ts, s => Statement (· ≤ 255) inside dangling ts s []
  | .initial, _, _, ts, s => VarDecl (· ≤ 255) ts s [] ∨ ExprStmt (· ≤ 255) ts s []

section

variable {place : Place} {inside dangling : Bool} {ts : List Token} {s : Stmt}

theorem Statement.fits (h : Statement (· ≤ 255) inside dangling ts s []) (hp : place ≠ .initial) :
    Fits place inside dangling ts s := by
  cases place with
  | list => exact .statement h
  | single => exact h
  | initial => contradiction

theorem VarDecl.fits (h : VarDecl (· ≤ 255) ts s []) (hp : place ≠ .single) :
    Fits place inside dangling ts s := by
  cases place with
  | list => exact .varDecl h
  | single => contradiction
  | initial => exact .inl h

theorem ExprStmt.fits (h : ExprStmt (· ≤ 255) ts s []) : Fits place inside false ts s := by
  cases place with
  | list => exact .statement (.exprStmt h)
  | single => exact .exprStmt h
  | initial => exact .inr h

end

theorem Declarations.snoc {fits : Nat → Prop} {inside : Bool} {ts us : List Token} {ss : List Stmt}
    {s : Stmt} {d d' : List SyntaxError} (h : Declarations fits inside ts ss d)
    (hs : Declaration fits inside us s d') :
    Declarations fits inside (ts ++ us) (ss ++ [s]) (d ++ d') := by
  match h with
  | .nil => simpa using Declarations.cons hs .nil
  | .cons h hr => simpa using Declarations.cons h (hr.snoc hs)
termination_by structural h

/-- The tokens of the constructs that are open around a place, with the top-level statements. -/
inductive Opened : Place → Bool → List Stmt → List Open → List Token → Prop where
  | nil {ss : List Stmt} {ts : List Token} (h : Declarations (· ≤ 255) false ts ss.reverse []) :
      Opened .list false ss [] ts
  | block {place : Place} {inside : Bool} {ss done : List Stmt} {opened : List Open}
      {ts us : List Token} {opening : Token} (h : Opened place inside ss opened ts)
      (hp : place ≠ .initial) (ho : opening.kind = .leftBrace)
      (hb : Declarations (· ≤ 255) inside us done.reverse []) :
      Opened .list inside ss (.block done :: opened) (ts ++ opening :: us)
  | body {inside : Bool} {ss done : List Stmt} {opened : List Open} {ts us vs : List Token}
      {head : FunctionHead} {opening : Token} (h : Opened .list inside ss opened ts)
      (hh : Head (· ≤ 255) us head []) (ho : opening.kind = .leftBrace)
      (hb : Declarations (· ≤ 255) true vs done.reverse []) :
      Opened .list true ss (.body head done :: opened) (ts ++ us ++ opening :: vs)
  | thenBranch {place : Place} {inside : Bool} {ss : List Stmt} {opened : List Open}
      {ts us : List Token} {condition : Expr} {key opening closing : Token}
      (h : Opened place inside ss opened ts) (hp : place ≠ .initial) (hk : key.kind = .if)
      (ho : opening.kind = .leftParen) (he : Expression (· ≤ 255) us condition [])
      (hc : closing.kind = .rightParen) :
      Opened .single inside ss (.thenBranch condition :: opened)
        (ts ++ key :: opening :: (us ++ [closing]))
  | elseBranch {place : Place} {inside : Bool} {ss : List Stmt} {opened : List Open}
      {ts us vs : List Token} {condition : Expr} {yes : Stmt} {key opening closing other : Token}
      (h : Opened place inside ss opened ts) (hp : place ≠ .initial) (hk : key.kind = .if)
      (ho : opening.kind = .leftParen) (he : Expression (· ≤ 255) us condition [])
      (hc : closing.kind = .rightParen) (hy : Statement (· ≤ 255) inside false vs yes [])
      (hx : other.kind = .else) :
      Opened .single inside ss (.elseBranch condition yes :: opened)
        (ts ++ key :: opening :: (us ++ closing :: (vs ++ [other])))
  | loopBody {place : Place} {inside : Bool} {ss : List Stmt} {opened : List Open}
      {ts us : List Token} {condition : Expr} {key opening closing : Token}
      (h : Opened place inside ss opened ts) (hp : place ≠ .initial) (hk : key.kind = .while)
      (ho : opening.kind = .leftParen) (he : Expression (· ≤ 255) us condition [])
      (hc : closing.kind = .rightParen) :
      Opened .single inside ss (.loopBody condition :: opened)
        (ts ++ key :: opening :: (us ++ [closing]))
  | forInitial {place : Place} {inside : Bool} {ss : List Stmt} {opened : List Open}
      {ts : List Token} {key opening : Token} (h : Opened place inside ss opened ts)
      (hp : place ≠ .initial) (hk : key.kind = .for) (ho : opening.kind = .leftParen) :
      Opened .initial inside ss (.forInitial :: opened) (ts ++ [key, opening])
  | forBody {place : Place} {inside : Bool} {ss : List Stmt} {opened : List Open}
      {ts us vs ws : List Token} {initial : Option Stmt} {condition increment : Option Expr}
      {key opening semicolon closing : Token} (h : Opened place inside ss opened ts)
      (hp : place ≠ .initial) (hk : key.kind = .for) (ho : opening.kind = .leftParen)
      (hi : Initial (· ≤ 255) us initial []) (he : Optional (· ≤ 255) vs condition [])
      (hs : semicolon.kind = .semicolon) (hn : Optional (· ≤ 255) ws increment [])
      (hc : closing.kind = .rightParen) :
      Opened .single inside ss (.forBody initial condition increment :: opened)
        (ts ++ key :: opening :: (us ++ vs ++ semicolon :: (ws ++ [closing])))

theorem Opened.inside_eq {place : Place} {inside : Bool} {ss : List Stmt} {opened : List Open}
    {ts : List Token} (h : Opened place inside ss opened ts) :
    inside = opened.any Open.isBody := by
  induction h with
  | nil => rfl
  | body => rfl
  | block _ _ _ _ ih | thenBranch _ _ _ _ _ _ ih | elseBranch _ _ _ _ _ _ _ _ ih
  | loopBody _ _ _ _ _ _ ih | forInitial _ _ _ _ ih | forBody _ _ _ _ _ _ _ _ _ ih => exact ih

/-- The tokens in front of an expression, from the start of the statement that it is used in. -/
inductive Introduces : Place → Bool → Use → List Token → Prop where
  | expression {place : Place} {inside : Bool} : Introduces place inside .expression []
  | output {place : Place} {inside : Bool} {key : Token} (hp : place ≠ .initial)
      (hk : key.kind = .output) : Introduces place inside .output [key]
  | initial {place : Place} {inside : Bool} {create name eq : Token} (hp : place ≠ .single)
      (hk : create.kind = .create) (hn : name.kind = .identifier) (hq : eq.kind = .equal) :
      Introduces place inside (.initial name.lexeme name.line) [create, name, eq]
  | ifCondition {place : Place} {inside : Bool} {key opening : Token} (hp : place ≠ .initial)
      (hk : key.kind = .if) (ho : opening.kind = .leftParen) :
      Introduces place inside .ifCondition [key, opening]
  | loopCondition {place : Place} {inside : Bool} {key opening : Token} (hp : place ≠ .initial)
      (hk : key.kind = .while) (ho : opening.kind = .leftParen) :
      Introduces place inside .loopCondition [key, opening]
  | result {place : Place} {key : Token} (hp : place ≠ .initial) (hk : key.kind = .return) :
      Introduces place true (.result key.line) [key]
  | forCondition {place : Place} {inside : Bool} {key opening : Token} {ts : List Token}
      {initial : Option Stmt} (hp : place ≠ .initial) (hk : key.kind = .for)
      (ho : opening.kind = .leftParen) (hi : Initial (· ≤ 255) ts initial []) :
      Introduces place inside (.forCondition initial) (key :: opening :: ts)
  | forIncrement {place : Place} {inside : Bool} {key opening semicolon : Token}
      {ts us : List Token} {initial : Option Stmt} {condition : Option Expr}
      (hp : place ≠ .initial) (hk : key.kind = .for) (ho : opening.kind = .leftParen)
      (hi : Initial (· ≤ 255) ts initial []) (he : Optional (· ≤ 255) us condition [])
      (hs : semicolon.kind = .semicolon) :
      Introduces place inside (.forIncrement initial condition)
        (key :: opening :: (ts ++ us ++ [semicolon]))

/-- Whether an argument may follow those in front of it. -/
def Room : List Pending → Prop
  | .arguments _ done :: _ => done.length ≠ 255
  | _ => True

/-- The tokens of a declaration up to a position in it. -/
inductive Reached : Place → Bool → Position → List Token → Prop where
  | declaration {inside : Bool} : Reached .list inside .declaration []
  | statement {inside : Bool} : Reached .single inside .statement []
  | operand {place : Place} {inside : Bool} {use : Use} {pending : List Pending}
      {ts us : List Token} (hu : Introduces place inside use ts)
      (hc : Room pending → ∃ n, Context n pending us) :
      Reached place inside (.operand use pending) (ts ++ us)
  | operator {place : Place} {inside : Bool} {use : Use} {n : Nat} {pending : List Pending}
      {e : Expr} {ts us vs : List Token} (hu : Introduces place inside use ts)
      (hc : Context n pending us) (he : Operand (· ≤ 255) 8 vs e []) :
      Reached place inside (.operator use pending e) (ts ++ us ++ vs)
  | firstArgument {place : Place} {inside : Bool} {use : Use} {n : Nat} {pending : List Pending}
      {callee : Expr} {ts us vs : List Token} {opening : Token}
      (hu : Introduces place inside use ts) (hc : Context n pending us)
      (he : Operand (· ≤ 255) 8 vs callee []) (ho : opening.kind = .leftParen) :
      Reached place inside (.firstArgument use pending callee) (ts ++ us ++ vs ++ [opening])
  | completed {place : Place} {inside : Bool} {s : Stmt} {ts : List Token}
      (h : Fits place inside false ts s) : Reached place inside (.completed s) ts
  | createName {place : Place} {inside : Bool} {create : Token} (hp : place ≠ .single)
      (hk : create.kind = .create) : Reached place inside .createName [create]
  | createRest {place : Place} {inside : Bool} {create name : Token} (hp : place ≠ .single)
      (hk : create.kind = .create) (hn : name.kind = .identifier) :
      Reached place inside (.createRest name.lexeme name.line) [create, name]
  | functionName {inside : Bool} {func : Token} (hf : func.kind = .func) :
      Reached .list inside .functionName [func]
  | functionOpen {inside : Bool} {func name : Token} (hf : func.kind = .func)
      (hn : name.kind = .identifier) :
      Reached .list inside (.functionOpen name.lexeme name.line) [func, name]
  | firstParameter {inside : Bool} {func name opening : Token} (hf : func.kind = .func)
      (hn : name.kind = .identifier) (ho : opening.kind = .leftParen) :
      Reached .list inside (.firstParameter name.lexeme name.line) [func, name, opening]
  | parameter {inside : Bool} {func name opening comma : Token} {ts : List Token}
      {done : List String} (hf : func.kind = .func) (hn : name.kind = .identifier)
      (ho : opening.kind = .leftParen) (hp : Parameters ts done.reverse [])
      (hl : done.length ≤ 255) (hc : comma.kind = .comma) :
      Reached .list inside (.parameter name.lexeme name.line done)
        (func :: name :: opening :: (ts ++ [comma]))
  | parameterRest {inside : Bool} {func name opening : Token} {ts : List Token}
      {done : List String} (hf : func.kind = .func) (hn : name.kind = .identifier)
      (ho : opening.kind = .leftParen) (hp : Parameters ts done.reverse [])
      (hl : done.length ≤ 255) :
      Reached .list inside (.parameterRest name.lexeme name.line done)
        (func :: name :: opening :: ts)
  | functionBrace {inside : Bool} {head : FunctionHead} {ts : List Token}
      (h : Head (· ≤ 255) ts head []) : Reached .list inside (.functionBrace head) ts
  | ifOpen {place : Place} {inside : Bool} {key : Token} (hp : place ≠ .initial)
      (hk : key.kind = .if) : Reached place inside .ifOpen [key]
  | loopOpen {place : Place} {inside : Bool} {key : Token} (hp : place ≠ .initial)
      (hk : key.kind = .while) : Reached place inside .loopOpen [key]
  | forOpen {place : Place} {inside : Bool} {key : Token} (hp : place ≠ .initial)
      (hk : key.kind = .for) : Reached place inside .forOpen [key]
  | forStart {place : Place} {inside : Bool} {key opening : Token} (hp : place ≠ .initial)
      (hk : key.kind = .for) (ho : opening.kind = .leftParen) :
      Reached place inside .forStart [key, opening]
  | forCondition {place : Place} {inside : Bool} {initial : Option Stmt} {ts : List Token}
      (hu : Introduces place inside (.forCondition initial) ts) :
      Reached place inside (.forCondition initial) ts
  | forIncrement {place : Place} {inside : Bool} {initial : Option Stmt} {condition : Option Expr}
      {ts : List Token} (hu : Introduces place inside (.forIncrement initial condition) ts) :
      Reached place inside (.forIncrement initial condition) ts
  | resultStart {place : Place} {inside : Bool} {line : Nat} {ts : List Token}
      (hu : Introduces place inside (.result line) ts) :
      Reached place inside (.resultStart line) ts

end ClosureLang.Grammar
