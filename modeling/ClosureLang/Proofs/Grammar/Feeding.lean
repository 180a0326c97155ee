import ClosureLang.Proofs.Grammar.Rules

namespace ClosureLang

namespace Grammar

theorem operators_of_ofKind? {k : TokenKind} {c : Connective} (h : Connective.ofKind? k = some c) :
    (k, c) ∈ operators c.level := by
  cases k <;> cases h <;> decide

theorem ofKind?_of_operators : ∀ {n : Nat} {o : TokenKind × Connective}, o ∈ operators n →
    Connective.ofKind? o.1 = some o.2 ∧ o.2.level = n
  | 0, o | 1, o | 2, o | 3, o | 4, o | 5, o | 6, o => by revert o; decide
  | n + 7, _ => fun h => absurd h List.not_mem_nil

/-- The complaint that the operand `ts` deserves as an argument behind too many others. -/
def overflow : List Pending → List Token → List SyntaxError
  | .arguments _ done :: _, ts => ts.head?.toList.flatMap (excess .tooManyArguments done.length)
  | _, _ => []

section

variable {pending : List Pending} {ts : List Token}

@[simp] theorem overflow_nil : overflow [] ts = [] := rfl

@[simp] theorem overflow_group : overflow (.group :: pending) ts = [] := rfl

@[simp] theorem overflow_unary {op : UnaryOp} {line : Nat} :
    overflow (.unary op line :: pending) ts = [] := rfl

@[simp] theorem overflow_joined {left : Expr} {c : Connective} {line : Nat} :
    overflow (.joined left c line :: pending) ts = [] := rfl

@[simp] theorem overflow_assign {target : Expr} {line : Nat} :
    overflow (.assign target line :: pending) ts = [] := rfl

@[simp] theorem overflow_firstArgument {callee : Expr} :
    overflow (.arguments callee [] :: pending) ts = [] := by
  cases ts <;> rfl

theorem overflow_cons (t : Token) (ts : List Token) :
    overflow pending (t :: ts) = overflow pending [t] := by
  unfold overflow
  split <;> rfl

theorem overflow_append {us : List Token} (h : ts ≠ []) :
    overflow pending (ts ++ us) = overflow pending ts := by
  obtain ⟨t, ts, rfl⟩ := List.exists_cons_of_ne_nil h
  exact (overflow_cons t _).trans (overflow_cons t ts).symm

end

end Grammar

namespace Builder

open Grammar

variable {b : Builder} {t : Token} {use : Use} {pending : List Pending} {e : Expr} {p : Position}
  {ts us : List Token} {P Q : Token → Prop} {next next' : Token → Builder}

/-- Records complaints, the first one first. -/
def complain (b : Builder) (d : List SyntaxError) : Builder :=
  { b with errors := d.reverse ++ b.errors }

@[simp] theorem complain_nil : b.complain [] = b := rfl

@[simp] theorem complain_complain {d d' : List SyntaxError} :
    (b.complain d).complain d' = b.complain (d ++ d') := by
  simp [complain]

@[simp] theorem complain_opened {d : List SyntaxError} : (b.complain d).opened = b.opened := rfl

theorem checkArguments_eq_complain :
    b.checkArguments pending t = b.complain (overflow pending [t]) := by
  cases pending with
  | nil => rfl
  | cons waiting rest =>
    cases waiting with
    | arguments callee done =>
      by_cases h : done.length = 255 <;>
        simp [checkArguments, overflow, excess, maxItems, report, complain, h]
    | _ => rfl

@[simp] theorem moveTo_opened : (b.moveTo p).opened = b.opened := rfl

@[simp] theorem moveTo_moveTo {p' : Position} : (b.moveTo p).moveTo p' = b.moveTo p' := rfl

@[simp] theorem moveTo_enter {construct : Open} {p' : Position} :
    (b.moveTo p).enter construct p' = b.enter construct p' := rfl

@[simp] theorem moveTo_complain {d : List SyntaxError} :
    (b.moveTo p).complain d = (b.complain d).moveTo p := rfl

@[simp] theorem moveTo_abandon {x : SyntaxError} {p' : Position} :
    (b.moveTo p).abandon x p' = b.abandon x p' := rfl

@[simp] theorem moveTo_fail {x : SyntaxError} : (b.moveTo p).fail x t = b.fail x t := rfl

@[simp] theorem moveTo_need {kind : TokenKind} {message : String} {b' : Builder} :
    (b.moveTo p).need kind message t b' = b.need kind message t b' := rfl

@[simp] theorem moveTo_afterExpression :
    (b.moveTo p).afterExpression use e t = b.afterExpression use e t := by
  cases use <;> rfl

@[simp] theorem moveTo_atEnd :
    (b.moveTo p).atEnd use pending e t = b.atEnd use pending e t := by
  simp [atEnd]

@[simp] theorem moveTo_atOperator :
    (b.moveTo p).atOperator use pending e t = b.atOperator use pending e t := by
  simp [atOperator]

@[simp] theorem moveTo_atOperand :
    (b.moveTo p).atOperand use pending t = b.atOperand use pending t := by
  simp [atOperand, checkArguments_eq_complain]

@[simp] theorem feed_operand : (b.moveTo (.operand use pending)).feed t =
    b.atOperand use pending t :=
  moveTo_atOperand

@[simp] theorem feed_operator : (b.moveTo (.operator use pending e)).feed t =
    b.atOperator use pending e t :=
  moveTo_atOperator

@[simp] theorem moveTo_atStatement : (b.moveTo p).atStatement t = b.atStatement t := by
  simp [atStatement]

@[simp] theorem moveTo_atDeclaration : (b.moveTo p).atDeclaration t = b.atDeclaration t := by
  simp only [atDeclaration, moveTo_opened, moveTo_moveTo, moveTo_atStatement]
  rfl

@[simp] theorem moveTo_atForCondition {initial : Option Stmt} :
    (b.moveTo p).atForCondition initial t = b.atForCondition initial t := by
  simp [atForCondition]

/-- Behind a statement the constructs around it are those that are given, not those of `b`. -/
theorem afterStatement_congr {b' : Builder} (hs : b.statements = b'.statements)
    (he : b.errors = b'.errors) (s : Stmt) (opened : List Open) :
    b.afterStatement t s opened = b'.afterStatement t s opened := by
  obtain ⟨p, o, ss, es⟩ := b
  obtain ⟨p', o', _, _⟩ := b'
  cases hs
  cases he
  induction opened generalizing s with
  | nil => exact moveTo_atDeclaration (b := ⟨p', [], s :: ss, es⟩)
  | cons construct rest ih =>
    cases construct with
    | block done => exact moveTo_atDeclaration (b := ⟨p', .block (s :: done) :: rest, ss, es⟩)
    | body head done =>
      exact moveTo_atDeclaration (b := ⟨p', .body head (s :: done) :: rest, ss, es⟩)
    | forInitial => exact moveTo_atForCondition (b := ⟨p', rest, ss, es⟩)
    | thenBranch condition => simp only [afterStatement, ih]
    | elseBranch condition yes => exact ih _
    | loopBody condition => exact ih _
    | forBody initial condition increment => exact ih _

/-- Reading `ts` brings `b` to where it treats each next token `t` with `P t` like `next t`. -/
def Reads (b : Builder) (ts : List Token) (P : Token → Prop) (next : Token → Builder) : Prop :=
  ∃ b' : Builder, (∀ rest, b.run (ts ++ rest) = b'.run rest) ∧ ∀ t, P t → b'.feed t = next t

theorem Reads.nil (h : ∀ t, P t → b.feed t = next t) : b.Reads [] P next :=
  ⟨b, fun _ => rfl, h⟩

theorem Reads.cons (ht : t.kind ≠ .eof) (h : (b.feed t).Reads ts P next) :
    b.Reads (t :: ts) P next := by
  obtain ⟨b', hr, hn⟩ := h
  refine ⟨b', fun rest => ?_, hn⟩
  rw [List.cons_append, run, if_neg ht, hr]

/-- Two stretches of tokens are read one after the other. -/
theorem Reads.append (h : b.Reads ts P next)
    (hu : ∀ b' : Builder, (∀ t, P t → b'.feed t = next t) → b'.Reads us Q next') :
    b.Reads (ts ++ us) Q next' := by
  obtain ⟨b₁, hr₁, hn₁⟩ := h
  obtain ⟨b₂, hr₂, hn₂⟩ := hu b₁ hn₁
  refine ⟨b₂, fun rest => ?_, hn₂⟩
  rw [List.append_assoc, hr₁, hr₂]

/-- Goes on with a token that the tokens before it lead up to. -/
theorem Reads.snoc (h : b.Reads ts P next) (hp : P t) (ht : t.kind ≠ .eof)
    (hu : (next t).Reads us Q next') : b.Reads (ts ++ t :: us) Q next' :=
  h.append fun _ hb => .cons ht (hb t hp ▸ hu)

theorem Reads.imp (h : b.Reads ts P next) (hn : ∀ t, Q t → P t ∧ next t = next' t) :
    b.Reads ts Q next' := by
  obtain ⟨b', hr, hb⟩ := h
  exact ⟨b', hr, fun t ht => (hb t (hn t ht).1).trans (hn t ht).2⟩

end Builder

end ClosureLang
