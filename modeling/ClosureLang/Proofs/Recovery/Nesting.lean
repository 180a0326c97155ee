import ClosureLang.Proofs.Grammar.Composition

namespace ClosureLang

namespace Builder

variable {b b' : Builder} {t : Token} {use : Use} {pending : List Pending} {e : Expr}

/-- The builder inside a block that lists the statements recorded so far. -/
def nest (b : Builder) : Builder :=
  ⟨b.position, b.opened ++ [.block b.statements], [], b.errors⟩

@[simp] theorem nest_position : b.nest.position = b.position := rfl

@[simp] theorem nest_opened : b.nest.opened = b.opened ++ [.block b.statements] := rfl

@[simp] theorem nest_moveTo {p : Position} : b.nest.moveTo p = (b.moveTo p).nest := rfl

@[simp] theorem nest_enter {construct : Open} {p : Position} :
    b.nest.enter construct p = (b.enter construct p).nest := rfl

@[simp] theorem nest_report {x : SyntaxError} : b.nest.report x = (b.report x).nest := rfl

/-- A mistake drops the constructs inside the block and not the block. -/
@[simp] theorem nest_abandon {x : SyntaxError} {p : Position} :
    b.nest.abandon x p = (b.abandon x p).nest := by
  have hdrop : (b.opened ++ [Open.block b.statements]).dropWhile (! ·.isBlock) =
      b.opened.dropWhile (! ·.isBlock) ++ [.block b.statements] := by
    rw [List.dropWhile_append]
    split
    next hempty =>
      rw [List.isEmpty_iff.mp hempty]
      rfl
    next => rfl
  simp only [abandon, nest, hdrop]

@[simp] theorem nest_fail {x : SyntaxError} : b.nest.fail x t = (b.fail x t).nest :=
  nest_abandon

@[simp] theorem nest_ite {p : Prop} [Decidable p] :
    (if p then b.nest else b'.nest) = (if p then b else b').nest := by
  split <;> rfl

@[simp] theorem nest_need {kind : TokenKind} {message : String} :
    b.nest.need kind message t b'.nest = (b.need kind message t b').nest := by
  unfold need
  split
  · rfl
  · exact nest_fail

@[simp] theorem nest_checkArguments :
    b.nest.checkArguments pending t = (b.checkArguments pending t).nest := by
  unfold checkArguments
  split
  · split <;> rfl
  · rfl

@[simp] theorem nest_atOperand :
    b.nest.atOperand use pending t = (b.atOperand use pending t).nest := by
  unfold atOperand
  simp only [nest_checkArguments]
  split
  case h_10 => exact nest_fail
  all_goals rfl

@[simp] theorem nest_afterExpression :
    b.nest.afterExpression use e t = (b.afterExpression use e t).nest := by
  cases use <;> simp [afterExpression]

@[simp] theorem nest_atEnd : b.nest.atEnd use pending e t = (b.atEnd use pending e t).nest := by
  unfold atEnd
  split <;> simp

@[simp] theorem nest_atOperator :
    b.nest.atOperator use pending e t = (b.atOperator use pending e t).nest := by
  unfold atOperator
  split
  · rfl
  · rfl
  · split
    · rfl
    · exact nest_atEnd

/-- A block is no function body, so a `return` is as wrong in it as outside. -/
@[simp] theorem nest_atStatement : b.nest.atStatement t = (b.atStatement t).nest := by
  unfold atStatement
  split <;> simp [Open.isBody]

theorem nest_atDeclaration (ht : t.kind ≠ .rightBrace) :
    b.nest.atDeclaration t = (b.atDeclaration t).nest := by
  unfold atDeclaration
  split
  next hk => simp [hk]
  next hk => simp [hk]
  next hk => simp [hk]
  next hk _ => exact absurd hk ht
  next hk _ => exact absurd hk ht
  next heof hcreate hfunc _ _ =>
    split
    next hk => exact absurd hk heof
    next hk => exact absurd hk hcreate
    next hk => exact absurd hk hfunc
    next hk _ => exact absurd hk ht
    next hk _ => exact absurd hk ht
    next => exact nest_atStatement

@[simp] theorem nest_atForCondition {initial : Option Stmt} :
    b.nest.atForCondition initial t = (b.atForCondition initial t).nest := by
  simp [atForCondition]

theorem nest_afterStatement (ht : t.kind ≠ .rightBrace) (s : Stmt) (opened : List Open) :
    b.nest.afterStatement t s (opened ++ [.block b.statements]) =
      (b.afterStatement t s opened).nest := by
  induction opened generalizing s with
  | nil =>
    exact nest_atDeclaration (b := { b with opened := [], statements := s :: b.statements }) ht
  | cons construct rest ih =>
    cases construct with
    | block done =>
      exact nest_atDeclaration (b := { b with opened := .block (s :: done) :: rest }) ht
    | body head done =>
      exact nest_atDeclaration (b := { b with opened := .body head (s :: done) :: rest }) ht
    | forInitial => exact nest_atForCondition (b := { b with opened := rest })
    | thenBranch condition =>
      rw [List.cons_append, afterStatement, afterStatement]
      split
      · rfl
      · exact ih _
    | elseBranch condition yes => exact ih _
    | loopBody condition => exact ih _
    | forBody initial condition increment => exact ih _

@[simp] theorem nest_atParameter {name : String} {line : Nat} {done : List String} :
    b.nest.atParameter name line done t = (b.atParameter name line done t).nest := by
  simp [atParameter]

/-- Every token but a closing brace is read in a block as it is read outside. -/
theorem nest_feed (ht : t.kind ≠ .rightBrace) : b.nest.feed t = (b.feed t).nest := by
  unfold feed
  rw [nest_position]
  cases b.position with
  | declaration => exact nest_atDeclaration ht
  | completed s => exact nest_afterStatement ht s b.opened
  | forStart =>
    dsimp only
    split
    · rfl
    · rfl
    · exact nest_atOperand (b := { b with opened := .forInitial :: b.opened })
  | skip =>
    dsimp only
    split
    case h_8 => rfl
    all_goals exact nest_atDeclaration ht
  | _ => simp

/-- Until a closing brace comes, tokens are read in a block as at the top. -/
theorem nest_foldl {ts : List Token} (hts : ∀ t ∈ ts, t.kind ≠ .rightBrace) :
    ts.foldl feed b.nest = (ts.foldl feed b).nest := by
  induction ts generalizing b with
  | nil => rfl
  | cons t ts ih =>
    obtain ⟨ht, hrest⟩ := List.forall_mem_cons.mp hts
    rw [List.foldl_cons, List.foldl_cons, nest_feed ht]
    exact ih hrest

/-- Without a closing brace nothing is read outside of the block. -/
theorem nest_run_statements {ts : List Token} (hts : ∀ t ∈ ts, t.kind ≠ .rightBrace) :
    (b.nest.run ts).statements = [] := by
  have hend : ∀ {b : Builder} {t : Token}, t.kind ≠ .rightBrace →
      (b.nest.finish t).statements = [] := by
    intro b t ht
    simp only [finish, nest_feed ht]
    rfl
  induction ts generalizing b with
  | nil => exact hend (by decide)
  | cons t ts ih =>
    obtain ⟨ht, hrest⟩ := List.forall_mem_cons.mp hts
    unfold run
    split
    · exact hend ht
    · rw [nest_feed ht]
      exact ih hrest

end Builder

end ClosureLang
