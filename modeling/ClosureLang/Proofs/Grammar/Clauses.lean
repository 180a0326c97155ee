import ClosureLang.Proofs.Grammar.Expressions

namespace ClosureLang

namespace Builder

open Grammar

variable {b : Builder} {t : Token} {s : Stmt}

@[simp] theorem moveTo_afterStatement {p : Position} {opened : List Open} :
    (b.moveTo p).afterStatement t s opened = b.afterStatement t s opened := by
  apply afterStatement_congr <;> rfl

@[simp] theorem feed_completed :
    (b.moveTo (.completed s)).feed t = b.afterStatement t s b.opened :=
  moveTo_afterStatement

theorem need_of_eq {kind : TokenKind} {message : String} {next : Builder} (h : t.kind = kind) :
    b.need kind message t next = next :=
  if_pos h

theorem atParameter_identifier {name : String} {line : Nat} {done : List String}
    (h : t.kind = .identifier) :
    b.atParameter name line done t =
      (b.complain (excess .tooManyParameters done.length t)).moveTo
        (.parameterRest name line (t.lexeme :: done)) := by
  unfold atParameter excess maxItems
  split <;> exact need_of_eq h

end Builder

namespace Grammar

open Builder

variable {fits : Nat → Prop} {ts : List Token} {d : List SyntaxError} {b b₀ : Builder}

theorem Expression.reads_whole {e : Expr} {use : Use} (h : Expression fits ts e d)
    (hb : b.Enters b₀ use []) :
    b.Reads ts (fun t => Closes t.kind) fun t => (b₀.complain d).afterExpression use e t :=
  h.reads hb trivial

/-- A condition in parentheses behind a keyword leads to the statement that `construct` awaits. -/
theorem Expression.reads_condition {e : Expr} {use : Use} {p : Position} {construct : Open}
    {key opening closing : Token} {us : List Token} {P : Token → Prop} {next : Token → Builder}
    (h : Expression fits ts e d) (hk : key.kind ≠ .eof) (ho : opening.kind = .leftParen)
    (hc : closing.kind = .rightParen) (h₁ : b.feed key = b₀.moveTo p)
    (h₂ : (b₀.moveTo p).feed opening = b₀.moveTo (.operand use []))
    (h₃ : ∀ b' : Builder, b'.afterExpression use e closing = b'.enter construct .statement)
    (hu : ((b₀.complain d).enter construct .statement).Reads us P next) :
    b.Reads (key :: opening :: (ts ++ closing :: us)) P next := by
  refine .cons hk (.cons (by simp [ho]) ?_)
  rw [h₁, h₂]
  refine (h.reads_whole enters_operand).snoc (closes_of_eq (.inl hc)) (by simp [hc]) ?_
  rw [h₃]
  exact hu

theorem ExprStmt.reads {s : Stmt} (h : ExprStmt fits ts s d) (hb : b.Enters b₀ .expression []) :
    b.Reads ts (fun _ => True) fun t => (b₀.complain d).afterStatement t s b₀.opened := by
  obtain ⟨he, hs⟩ := h
  refine (he.reads_whole hb).snoc (closes_of_eq (.inr (.inr hs))) (by simp [hs])
    (.nil fun t _ => ?_)
  rw [afterExpression, need_of_eq hs, feed_completed, complain_opened]

/-- A variable declaration is read as its statement. -/
theorem VarDecl.reads {s : Stmt} (h : VarDecl fits ts s d)
    (hb : ∀ t, t.kind = .create → b.feed t = b₀.moveTo .createName) :
    b.Reads ts (fun _ => True) fun t => (b₀.complain d).afterStatement t s b₀.opened := by
  cases h with
  | @bare create name semicolon hk hn hs =>
    have h₁ : (b₀.moveTo .createName).feed name =
        b₀.moveTo (.createRest name.lexeme name.line) := if_pos hn
    have h₂ : (b₀.moveTo (.createRest name.lexeme name.line)).feed semicolon =
        b₀.moveTo (.completed (.create name.lexeme none name.line)) := by
      simp [feed, moveTo, need, hs]
    refine .cons (by simp [hk]) (.cons (by simp [hn]) (.cons (by simp [hs]) (.nil fun t _ => ?_)))
    rw [hb create hk, h₁, h₂, feed_completed, complain_nil]
  | @initialized create name eq semicolon ts e d hk hn hq he hs =>
    have h₁ : (b₀.moveTo .createName).feed name =
        b₀.moveTo (.createRest name.lexeme name.line) := if_pos hn
    have h₂ : (b₀.moveTo (.createRest name.lexeme name.line)).feed eq =
        b₀.moveTo (.operand (.initial name.lexeme name.line) []) := if_pos hq
    refine .cons (by simp [hk]) (.cons (by simp [hn]) (.cons (by simp [hq]) ?_))
    rw [hb create hk, h₁, h₂]
    refine (he.reads_whole enters_operand).snoc (closes_of_eq (.inr (.inr hs))) (by simp [hs])
      (.nil fun t _ => ?_)
    rw [afterExpression, need_of_eq hs, feed_completed, complain_opened]

/-- A token of the kind `k` makes `f b` of a builder `b` and of the expression in front. -/
theorem Optional.reads {value : Option Expr} {use : Use} {k : TokenKind}
    {f : Builder → Option Expr → Builder} (h : Optional fits ts value d)
    (hk : Closes k) (hb : b.Enters b₀ use []) (hn : ∀ t, t.kind = k → b.feed t = f b₀ .none)
    (hs : ∀ t e (b' : Builder), t.kind = k → b'.afterExpression use e t = f b' (.some e)) :
    b.Reads ts (fun t => t.kind = k) fun _ => f (b₀.complain d) value := by
  cases h with
  | none => exact .nil hn
  | some h => exact (h.reads_whole hb).imp fun t ht => ⟨ht ▸ hk, hs t _ _ ht⟩

theorem Initial.reads {initial : Option Stmt} (h : Initial fits ts initial d) :
    (b.moveTo .forStart).Reads ts (fun _ => True) fun t =>
      (b.complain d).atForCondition initial t := by
  cases h with
  | @none semicolon hs =>
    refine .cons (by simp [hs]) (.nil fun t _ => ?_)
    have h₁ : (b.moveTo .forStart).feed semicolon = b.moveTo (.forCondition .none) := by
      simp [feed, moveTo, hs]
    rw [h₁]
    exact moveTo_atForCondition
  | @varDecl ts s d h =>
    have hb : ∀ t, t.kind = .create → (b.moveTo .forStart).feed t =
        ({ b with opened := .forInitial :: b.opened }).moveTo .createName := by
      intro t ht
      simp [feed, moveTo, enter, ht]
    refine (h.reads hb).imp fun t ht => ⟨ht, ?_⟩
    rfl
  | @exprStmt ts s d h =>
    have hb : (b.moveTo .forStart).Enters { b with opened := .forInitial :: b.opened }
        .expression [] := by
      intro t ht
      have hs : t.kind ≠ .semicolon ∧ t.kind ≠ .create := by
        constructor <;> intro h <;> simp [Starts, constants, h] at ht
      simp only [feed, moveTo]
      split
      next h => exact (hs.1 h).elim
      next h => exact (hs.2 h).elim
      next => exact moveTo_atOperand (b := { b with opened := .forInitial :: b.opened })
    refine (h.reads hb).imp fun t ht => ⟨ht, ?_⟩
    rfl

theorem Parameters.reads {ps : List String} {name : String} {line : Nat}
    (h : Parameters ts ps d) :
    (b.moveTo (.firstParameter name line)).Reads ts (fun _ => True) fun t =>
      ((b.complain d).moveTo (.parameterRest name line ps.reverse)).feed t := by
  induction h with
  | @first t ht =>
    refine .cons (by simp [ht]) (.nil fun t' _ => ?_)
    have h₁ : (b.moveTo (.firstParameter name line)).feed t =
        (b.moveTo (.firstParameter name line)).atParameter name line [] t :=
      if_neg (by simp [ht])
    rw [h₁, atParameter_identifier ht]
    rfl
  | @next comma t ts ps d h hc ht ih =>
    refine ih.snoc trivial (by simp [hc]) (.cons (by simp [ht]) (.nil fun t' _ => ?_))
    have h₁ : ((b.complain d).moveTo (.parameterRest name line ps.reverse)).feed comma =
        (b.complain d).moveTo (.parameter name line ps.reverse) := if_pos hc
    have h₂ : ((b.complain d).moveTo (.parameter name line ps.reverse)).feed t =
        ((b.complain d).moveTo (.parameter name line ps.reverse)).atParameter name line
          ps.reverse t := rfl
    rw [h₁, h₂, atParameter_identifier ht]
    simp

theorem Head.reads {head : FunctionHead} (h : Head fits ts head d)
    (hb : ∀ t, t.kind = .func → b.feed t = b₀.moveTo .functionName) :
    b.Reads ts (fun _ => True) fun t =>
      ((b₀.complain d).moveTo (.functionBrace head)).feed t := by
  have h₁ : ∀ name : Token, name.kind = .identifier → (b₀.moveTo .functionName).feed name =
      b₀.moveTo (.functionOpen name.lexeme name.line) := fun _ hn => if_pos hn
  have h₂ : ∀ (name : String) (line : Nat) (opening : Token), opening.kind = .leftParen →
      (b₀.moveTo (.functionOpen name line)).feed opening =
        b₀.moveTo (.firstParameter name line) := fun _ _ _ ho => if_pos ho
  cases h with
  | @parameters func name opening closing ts ps d hf hn ho hp _ hc =>
    refine .cons (by simp [hf]) (.cons (by simp [hn]) (.cons (by simp [ho]) ?_))
    rw [hb func hf, h₁ name hn, h₂ _ _ opening ho]
    refine hp.reads.snoc trivial (by simp [hc]) (.nil fun t _ => ?_)
    have h₃ : ((b₀.complain d).moveTo
        (.parameterRest name.lexeme name.line ps.reverse)).feed closing =
          (b₀.complain d).moveTo (.functionBrace ⟨name.lexeme, name.line, ps⟩) := by
      simp [feed, moveTo, need, hc]
    rw [h₃]
  | @empty func name opening closing hf hn ho _ hc =>
    refine .cons (by simp [hf]) (.cons (by simp [hn]) (.cons (by simp [ho])
      (.cons (by simp [hc]) (.nil fun t _ => ?_))))
    have h₃ : (b₀.moveTo (.firstParameter name.lexeme name.line)).feed closing =
        b₀.moveTo (.functionBrace ⟨name.lexeme, name.line, []⟩) := if_pos hc
    rw [hb func hf, h₁ name hn, h₂ _ _ opening ho, h₃, complain_nil]

end Grammar

end ClosureLang
