import ClosureLang.Proofs.Grammar.Feeding

namespace ClosureLang

/-- What a complaint says was found in place of what it asks for. -/
def SyntaxError.found? : SyntaxError → Option String
  | .expectedToken _ found _ | .expectedExpression found _ => some found
  | _ => none

/-- What can be complained about when `t` is read. -/
inductive Concerns (t : Token) : SyntaxError → Prop where
  | token (message : String) : Concerns t (.expectedToken message t.describe t.line)
  | expression : Concerns t (.expectedExpression t.describe t.line)
  | target (line : Nat) : Concerns t (.invalidAssignmentTarget line)
  | parameters (max : Nat) : Concerns t (.tooManyParameters max t.line)
  | arguments (max : Nat) : Concerns t (.tooManyArguments max t.line)
  | giveBack : Concerns t (.returnOutsideFunction t.line)

theorem Token.describe_ne_end {t : Token} (ht : t.kind ≠ .eof) : t.describe ≠ "end" := by
  intro h
  rw [describe, if_neg ht] at h
  have hl := congrArg String.toList h
  simp at hl

/-- Only an end token is reported as the end. -/
theorem Concerns.found_ne_end {t : Token} {x : SyntaxError} (h : Concerns t x)
    (ht : t.kind ≠ .eof) : x.found? ≠ some "end" := by
  cases h with
  | token | expression => exact fun hx => Token.describe_ne_end ht (Option.some.inj hx)
  | _ => nofun

namespace Builder

/-- The complaints of `b'` are those of `b` and others about `t`. -/
def Adds (b : Builder) (t : Token) (b' : Builder) : Prop :=
  ∃ d, b'.errors = d ++ b.errors ∧ ∀ x ∈ d, Concerns t x

variable {b b' : Builder} {t : Token} {use : Use} {pending : List Pending} {e : Expr}

theorem Adds.of_eq (h : b'.errors = b.errors) : b.Adds t b' :=
  ⟨[], h, nofun⟩

theorem Adds.one {x : SyntaxError} (hx : Concerns t x) (h : b'.errors = x :: b.errors) :
    b.Adds t b' :=
  ⟨[x], h, by simpa using hx⟩

theorem Adds.trans {b₁ b₂ : Builder} (h₁ : b.Adds t b₁) (h₂ : b₁.Adds t b₂) : b.Adds t b₂ := by
  obtain ⟨d₁, he₁, hd₁⟩ := h₁
  obtain ⟨d₂, he₂, hd₂⟩ := h₂
  refine ⟨d₂ ++ d₁, by simp [he₁, he₂], fun x hx => ?_⟩
  obtain hx | hx := List.mem_append.mp hx
  · exact hd₂ x hx
  · exact hd₁ x hx

theorem adds_ite {p : Prop} [Decidable p] {b₁ b₂ : Builder} (h₁ : b.Adds t b₁)
    (h₂ : b.Adds t b₂) : b.Adds t (if p then b₁ else b₂) := by
  split
  · exact h₁
  · exact h₂

theorem adds_need {kind : TokenKind} {message : String} (h : b.Adds t b') :
    b.Adds t (b.need kind message t b') := by
  unfold need
  exact adds_ite h (.one (.token message) rfl)

theorem adds_atOperand : b.Adds t (b.atOperand use pending t) := by
  have hc : b.Adds t (b.checkArguments pending t) := by
    unfold checkArguments
    split
    · exact adds_ite (.one (.arguments maxItems) rfl) (.of_eq rfl)
    · exact .of_eq rfl
  refine hc.trans ?_
  unfold atOperand
  dsimp only
  split
  case h_10 => exact .one .expression rfl
  all_goals exact .of_eq rfl

theorem adds_afterExpression : b.Adds t (b.afterExpression use e t) := by
  cases use <;> exact adds_need (.of_eq rfl)

theorem adds_atEnd : b.Adds t (b.atEnd use pending e t) := by
  unfold atEnd
  split
  next => exact adds_afterExpression
  next => exact adds_need (.of_eq rfl)
  next => exact adds_ite (.of_eq rfl) (adds_need (.of_eq rfl))
  next line _ => exact .one (.target line) rfl

theorem adds_atOperator : b.Adds t (b.atOperator use pending e t) := by
  unfold atOperator
  split
  · exact .of_eq rfl
  · exact .of_eq rfl
  · split
    · exact .of_eq rfl
    · exact adds_atEnd

theorem adds_atStatement : b.Adds t (b.atStatement t) := by
  unfold atStatement
  split
  case h_5 => exact adds_ite (.of_eq rfl) (.one .giveBack rfl)
  case h_7 => exact adds_atOperand
  all_goals exact .of_eq rfl

theorem adds_atDeclaration : b.Adds t (b.atDeclaration t) := by
  unfold atDeclaration
  split
  case h_6 => exact adds_atStatement
  all_goals exact .of_eq rfl

theorem adds_atForCondition {initial : Option Stmt} : b.Adds t (b.atForCondition initial t) :=
  adds_ite (.of_eq rfl) adds_atOperand

/-- Whatever waits for a statement, the token behind it is what is complained about. -/
theorem adds_afterStatement (s : Stmt) (opened : List Open) :
    b.Adds t (b.afterStatement t s opened) := by
  induction opened generalizing s with
  | nil => exact adds_atDeclaration (b := { b with opened := [], statements := s :: b.statements })
  | cons construct rest ih =>
    cases construct with
    | block done => exact adds_atDeclaration (b := { b with opened := .block (s :: done) :: rest })
    | body head done =>
      exact adds_atDeclaration (b := { b with opened := .body head (s :: done) :: rest })
    | forInitial => exact adds_atForCondition (b := { b with opened := rest })
    | thenBranch condition =>
      unfold afterStatement
      exact adds_ite (.of_eq rfl) (ih _)
    | elseBranch | loopBody | forBody => exact ih _

theorem adds_atParameter {name : String} {line : Nat} {done : List String} :
    b.Adds t (b.atParameter name line done t) := by
  unfold atParameter
  split
  · exact (Adds.one (.parameters maxItems) rfl).trans (adds_need (b := b.report _) (.of_eq rfl))
  · exact adds_need (.of_eq rfl)

/-- Reading a token complains about that token only. -/
theorem adds_feed : b.Adds t (b.feed t) := by
  obtain ⟨position, opened, ss, es⟩ := b
  cases position with
  | declaration => exact adds_atDeclaration
  | statement => exact adds_atStatement
  | operand use pending => exact adds_atOperand
  | operator use pending e => exact adds_atOperator
  | firstArgument use pending callee => exact adds_ite (.of_eq rfl) adds_atOperand
  | completed s => exact adds_afterStatement s opened
  | createRest name line => exact adds_ite (.of_eq rfl) (adds_need (.of_eq rfl))
  | firstParameter name line => exact adds_ite (.of_eq rfl) adds_atParameter
  | parameter name line done => exact adds_atParameter
  | parameterRest name line done => exact adds_ite (.of_eq rfl) (adds_need (.of_eq rfl))
  | forStart =>
    unfold feed
    dsimp only
    split
    · exact .of_eq rfl
    · exact .of_eq rfl
    · exact adds_atOperand (b := ⟨.forStart, .forInitial :: opened, ss, es⟩)
  | forCondition initial => exact adds_atForCondition
  | forIncrement initial condition => exact adds_ite (.of_eq rfl) adds_atOperand
  | resultStart line => exact adds_ite (.of_eq rfl) adds_atOperand
  | discard => exact .of_eq rfl
  | skip =>
    unfold feed
    dsimp only
    split
    case h_8 => exact .of_eq rfl
    all_goals exact adds_atDeclaration (b := ⟨.skip, opened, ss, es⟩)
  | _ => exact adds_need (.of_eq rfl)

/-- Every complaint is about one of the tokens read. -/
theorem exists_concerns_foldl {ts : List Token} {x : SyntaxError}
    (hx : x ∈ (ts.foldl feed b).errors) : x ∈ b.errors ∨ ∃ t ∈ ts, Concerns t x := by
  induction ts generalizing b with
  | nil => exact .inl hx
  | cons t ts ih =>
    obtain hx | ⟨u, hu, hc⟩ := ih hx
    · obtain ⟨d, hd, hconcerns⟩ := adds_feed (b := b) (t := t)
      rw [hd] at hx
      obtain hx | hx := List.mem_append.mp hx
      · exact .inr ⟨t, List.mem_cons_self, hconcerns x hx⟩
      · exact .inl hx
    · exact .inr ⟨u, List.mem_cons_of_mem t hu, hc⟩

end Builder

end ClosureLang
