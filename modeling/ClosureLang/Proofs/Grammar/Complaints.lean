import ClosureLang.Proofs.Grammar.Feeding

namespace ClosureLang.Builder

open Grammar

variable {b b' : Builder} {t : Token} {use : Use} {pending : List Pending} {e : Expr}

theorem errors_need {kind : TokenKind} {message : String} (h : b.errors <:+ b'.errors) :
    b.errors <:+ (b.need kind message t b').errors := by
  unfold need
  split
  · exact h
  · exact List.suffix_cons _ _

theorem errors_ite {p : Prop} [Decidable p] {b₁ b₂ : Builder} (h₁ : b.errors <:+ b₁.errors)
    (h₂ : b.errors <:+ b₂.errors) : b.errors <:+ (if p then b₁ else b₂).errors := by
  split
  · exact h₁
  · exact h₂

theorem errors_checkArguments (pending : List Pending) (t : Token) :
    b.errors <:+ (b.checkArguments pending t).errors := by
  rw [checkArguments_eq_complain]
  exact List.suffix_append _ _

theorem errors_atOperand : b.errors <:+ (b.atOperand use pending t).errors := by
  refine (errors_checkArguments pending t).trans ?_
  unfold atOperand
  split
  case h_10 => exact List.suffix_cons _ _
  all_goals exact List.suffix_rfl

theorem errors_afterExpression : b.errors <:+ (b.afterExpression use e t).errors := by
  cases use <;> exact errors_need List.suffix_rfl

theorem errors_atEnd : b.errors <:+ (b.atEnd use pending e t).errors := by
  unfold atEnd
  split
  · exact errors_afterExpression
  · exact errors_need List.suffix_rfl
  · split
    · exact List.suffix_rfl
    · exact errors_need List.suffix_rfl
  · exact List.suffix_cons _ _

theorem errors_atOperator : b.errors <:+ (b.atOperator use pending e t).errors := by
  unfold atOperator
  split
  · exact List.suffix_rfl
  · exact List.suffix_rfl
  · split
    · exact List.suffix_rfl
    · exact errors_atEnd

theorem errors_atStatement : b.errors <:+ (b.atStatement t).errors := by
  unfold atStatement
  split
  case h_5 =>
    split
    · exact List.suffix_rfl
    · exact List.suffix_cons _ _
  case h_7 => exact errors_atOperand
  all_goals exact List.suffix_rfl

theorem errors_atDeclaration : b.errors <:+ (b.atDeclaration t).errors := by
  unfold atDeclaration
  split
  case h_6 => exact errors_atStatement
  all_goals exact List.suffix_rfl

theorem errors_atForCondition {initial : Option Stmt} :
    b.errors <:+ (b.atForCondition initial t).errors := by
  unfold atForCondition
  split
  · exact List.suffix_rfl
  · exact errors_atOperand

theorem errors_afterStatement (s : Stmt) (opened : List Open) :
    b.errors <:+ (b.afterStatement t s opened).errors := by
  induction opened generalizing s with
  | nil =>
    exact errors_atDeclaration (b := { b with opened := [], statements := s :: b.statements })
  | cons construct rest ih =>
    cases construct with
    | block done =>
      exact errors_atDeclaration (b := { b with opened := .block (s :: done) :: rest })
    | body head done =>
      exact errors_atDeclaration (b := { b with opened := .body head (s :: done) :: rest })
    | forInitial => exact errors_atForCondition (b := { b with opened := rest })
    | thenBranch condition =>
      unfold afterStatement
      split
      · exact List.suffix_rfl
      · exact ih _
    | elseBranch condition yes => exact ih _
    | loopBody condition => exact ih _
    | forBody initial condition increment => exact ih _

theorem errors_atParameter {name : String} {line : Nat} {done : List String} :
    b.errors <:+ (b.atParameter name line done t).errors := by
  unfold atParameter
  split
  · refine (List.suffix_cons (.tooManyParameters maxItems t.line) b.errors).trans ?_
    exact errors_need (b := b.report _) List.suffix_rfl
  · exact errors_need List.suffix_rfl

/-- Reading a token keeps the complaints recorded so far. -/
theorem errors_feed : b.errors <:+ (b.feed t).errors := by
  obtain ⟨position, opened, ss, es⟩ := b
  cases position with
  | declaration => exact errors_atDeclaration
  | statement => exact errors_atStatement
  | operand use pending => exact errors_atOperand
  | operator use pending e => exact errors_atOperator
  | firstArgument use pending callee => exact errors_ite List.suffix_rfl errors_atOperand
  | completed s => exact errors_afterStatement s opened
  | createRest name line => exact errors_ite List.suffix_rfl (errors_need List.suffix_rfl)
  | firstParameter name line => exact errors_ite List.suffix_rfl errors_atParameter
  | parameter name line done => exact errors_atParameter
  | parameterRest name line done => exact errors_ite List.suffix_rfl (errors_need List.suffix_rfl)
  | forStart =>
    unfold feed
    dsimp only
    split
    · exact List.suffix_rfl
    · exact List.suffix_rfl
    · exact errors_atOperand (b := ⟨.forStart, .forInitial :: opened, ss, es⟩)
  | forCondition initial => exact errors_atForCondition
  | forIncrement initial condition => exact errors_ite List.suffix_rfl errors_atOperand
  | resultStart line => exact errors_ite List.suffix_rfl errors_atOperand
  | discard => exact List.suffix_rfl
  | skip =>
    unfold feed
    dsimp only
    split
    case h_8 => exact List.suffix_rfl
    all_goals exact errors_atDeclaration (b := ⟨.skip, opened, ss, es⟩)
  | _ => exact errors_need List.suffix_rfl

/-- What was complained about comes first in what is reported at the end. -/
theorem errors_run (ts : List Token) : b.errors.reverse <+: (b.run ts).errors := by
  have hf : ∀ (b : Builder) (t : Token), b.errors.reverse <+: (b.finish t).errors := by
    intro b t
    unfold finish
    exact List.reverse_prefix.mpr (errors_feed.trans (List.suffix_append _ _))
  induction ts generalizing b with
  | nil => exact hf b _
  | cons t ts ih =>
    unfold run
    split
    · exact hf b t
    · exact (List.reverse_prefix.mpr errors_feed).trans ih

end ClosureLang.Builder
