import ClosureLang.Proofs.Grammar.Formation
import ClosureLang.Proofs.Prefixes.Remainders

namespace ClosureLang

open Grammar

/-- Declarations are listed outside of everything and in blocks. -/
theorem Grammar.Surrounds.head_isBlock {inside : Bool} {opened : List Open}
    (h : Surrounds .list inside opened) : ∀ o ∈ opened.head?, o.isBlock = true := by
  cases h <;> simp [Open.isBlock]

namespace Builder

/-- What may follow the tokens read so far. -/
def remainder (b : Builder) : Language TokenKind :=
  b.position.remainder (Open.remainder b.opened)

/-- How reading `t` turns out if `M` may follow behind it and `es` are the complaints so far: it is
read, or the input ends between declarations, or it does not fit and nothing may follow, or
something else is complained about. -/
inductive Answers (M : Language TokenKind) (es : List SyntaxError) (t : Token) (b : Builder) :
    Prop where
  | word (ht : t.kind ≠ .eof) (he : b.errors = es) (hM : b.remainder = M)
  | stop (ht : t.kind = .eof) (he : b.errors = es) (hp : b.position = .declaration)
      (hM : b.remainder.leftQuotient [.eof] = M)
  | mistake (x : SyntaxError) (he : b.errors = x :: es) (hf : x.found? = some t.describe)
      (hl : x.line = t.line) (hM : M = 0)
  | other (d : List SyntaxError) (x : SyntaxError) (he : b.errors = d ++ x :: es)
      (hf : x.found? = none)

variable {M L : Language TokenKind} {b b' : Builder} {t : Token} {use : Use}
  {pending : List Pending} {e : Expr}

theorem Answers.of_kind {kind : TokenKind} (hk : t.kind = kind) (hn : kind ≠ .eof)
    (he : b'.errors = b.errors) (hM : b'.remainder = M) : Answers M b.errors t b' :=
  .word (hk ▸ hn) he hM

@[simp] theorem remainder_moveTo {p : Position} :
    (b.moveTo p).remainder = p.remainder (Open.remainder b.opened) := rfl

@[simp] theorem remainder_enter {construct : Open} {p : Position} :
    (b.enter construct p).remainder = p.remainder (Open.remainder (construct :: b.opened)) := rfl

theorem answers_need {kind : TokenKind} {message : String} (hn : kind ≠ .eof)
    (he : b'.errors = b.errors) (hL : b'.remainder = L) :
    Answers ((letter kind * L).leftQuotient [t.kind]) b.errors t (b.need kind message t b') := by
  rw [leftQuotient_letter_mul]
  by_cases hk : t.kind = kind
  · rw [need, if_pos hk, if_pos hk.symm]
    exact .of_kind hk hn he hL
  · rw [need, if_neg hk, if_neg (Ne.symm hk)]
    exact .mistake _ rfl rfl rfl rfl

/-- A part that may be missing is there unless the token is the one behind it. -/
theorem answers_maybe {kind : TokenKind} {b₁ b₂ : Builder} (hn : kind ≠ .eof)
    (hM : ∀ L, (M * L).leftQuotient [kind] = 0) (he : b₁.errors = b.errors)
    (hL : b₁.remainder = L)
    (h₂ : Answers ((M * (letter kind * L)).leftQuotient [t.kind]) b.errors t b₂) :
    Answers (((1 + M) * (letter kind * L)).leftQuotient [t.kind]) b.errors t
      (if t.kind = kind then b₁ else b₂) := by
  rw [leftQuotient_one_add_mul, leftQuotient_letter_mul]
  by_cases hk : t.kind = kind
  · rw [if_pos hk, if_pos hk.symm]
    refine .of_kind hk hn he ?_
    rw [hk, hM, add_zero, hL]
  · rw [if_neg hk, if_neg (Ne.symm hk), zero_add]
    exact h₂

/-- A part that may be missing is there if the token is its first. -/
theorem answers_more {first kind : TokenKind} {message : String} {b₁ b₂ : Builder}
    (hf : first ≠ .eof) (hn : kind ≠ .eof) (hne : kind ≠ first) (he₁ : b₁.errors = b.errors)
    (he₂ : b₂.errors = b.errors) (h₁ : b₁.remainder = M * (letter kind * L))
    (h₂ : b₂.remainder = L) :
    Answers (((1 + letter first * M) * (letter kind * L)).leftQuotient [t.kind]) b.errors t
      (if t.kind = first then b₁ else b.need kind message t b₂) := by
  rw [leftQuotient_one_add_mul, mul_assoc, leftQuotient_letter_mul (L := M * _)]
  by_cases hk : t.kind = first
  · rw [if_pos hk, if_pos hk.symm, hk, leftQuotient_letter_mul, if_neg hne, zero_add]
    exact .of_kind hk hf he₁ h₁
  · rw [if_neg hk, if_neg (Ne.symm hk), add_zero]
    exact answers_need hn he₂ h₂

theorem overflow_eq (pending : List Pending) (t : Token) :
    overflow pending [t] = [] ∨ overflow pending [t] = [.tooManyArguments 255 t.line] := by
  unfold overflow
  split
  · simp only [List.head?_cons, Option.toList_some, List.flatMap_cons, List.flatMap_nil,
      List.append_nil, excess]
    split <;> simp
  · exact .inl rfl

/-- Whether a token fits where an operand starts is decided by whether anything may follow it. -/
theorem answers_atOperand (b : Builder) (use : Use) (pending : List Pending) :
    Answers ((b.moveTo (.operand use pending)).remainder.leftQuotient [t.kind]) b.errors t
      (b.atOperand use pending t) := by
  rw [remainder_moveTo, Position.remainder, chain_mul_leftQuotient]
  unfold atOperand
  rw [checkArguments_eq_complain]
  dsimp only
  obtain hoverflow | hoverflow := overflow_eq pending t
  · rw [hoverflow, complain_nil]
    split
    case h_10 =>
      refine .mistake _ rfl rfl rfl ?_
      cases hk : t.kind <;> simp_all [afterOperandStart]
    all_goals
      rename_i hk
      refine .of_kind hk (by decide) rfl ?_
      simp [hk, afterOperandStart, Position.remainder, Pending.remainder, mul_assoc]
  · rw [hoverflow]
    split
    case h_10 => exact .other [_] (.tooManyArguments 255 t.line) rfl rfl
    all_goals exact .other [] (.tooManyArguments 255 t.line) rfl rfl

theorem answers_afterExpression : Answers
    ((use.remainder (Open.remainder b.opened)).leftQuotient [t.kind]) b.errors t
      (b.afterExpression use e t) := by
  cases use <;> exact answers_need (by decide) rfl rfl

theorem answers_atEnd : Answers
    ((Pending.remainder (use.remainder (Open.remainder b.opened)) pending).leftQuotient [t.kind])
      b.errors t (b.atEnd use pending e t) := by
  have hcomplete := Pending.remainder_complete (use.remainder (Open.remainder b.opened)) e pending
  unfold atEnd
  cases hc : Pending.complete e pending with
  | whole e' =>
    rw [hc] at hcomplete
    rw [hcomplete]
    exact answers_afterExpression
  | grouped e' rest =>
    rw [hc] at hcomplete
    rw [hcomplete]
    exact answers_need (by decide) rfl rfl
  | argument callee done e' rest =>
    rw [hc] at hcomplete
    rw [hcomplete]
    refine answers_more (by decide) (by decide) (by decide) rfl rfl ?_ rfl
    rw [chainArguments_eq, mul_assoc]
    rfl
  | badTarget line => exact .other [] _ rfl rfl

/-- Whether a token fits behind an operand is decided by whether anything may follow it there. -/
theorem answers_atOperator : Answers
    ((b.moveTo (.operator use pending e)).remainder.leftQuotient [t.kind]) b.errors t
      (b.atOperator use pending e t) := by
  rw [remainder_moveTo, Position.remainder, tail_mul_leftQuotient]
  unfold atOperator
  split
  next hk =>
    refine .of_kind hk (by decide) rfl ?_
    rw [hk, Pending.remainder_leftQuotient (by simp), add_zero]
    simp [Position.remainder, afterConnective, mul_assoc]
  next hk =>
    refine .of_kind hk (by decide) rfl ?_
    rw [hk, Pending.remainder_leftQuotient (by simp), add_zero]
    simp [Position.remainder, Pending.remainder, Pending.remainder_settle, afterConnective]
  next hparen hequal =>
    split
    next op hop =>
      have hk : afterConnective t.kind = chain ∧ t.kind ≠ .eof ∧
          t.kind ≠ .rightParen ∧ t.kind ≠ .comma ∧ t.kind ≠ .semicolon := by
        cases hkind : t.kind <;>
          simp_all [Connective.ofKind?, BinaryOp.ofKind?, afterConnective]
      obtain ⟨hafter, hend, hk⟩ := hk
      refine .word hend rfl ?_
      rw [hafter, Pending.remainder_leftQuotient hk, add_zero]
      simp [Position.remainder, Pending.remainder, Pending.remainder_settle]
    next hop =>
      have hafter : afterConnective t.kind = 0 := by
        cases hkind : t.kind <;>
          simp_all [Connective.ofKind?, BinaryOp.ofKind?, afterConnective]
      rw [hafter, zero_mul, zero_add]
      exact answers_atEnd

theorem answers_atStatement : Answers
    ((b.moveTo .statement).remainder.leftQuotient [t.kind]) b.errors t (b.atStatement t) := by
  rw [remainder_moveTo, Position.remainder, statementWords_mul_leftQuotient]
  unfold atStatement
  split
  case h_5 hk =>
    split
    · refine .of_kind hk (by decide) rfl ?_
      simp [hk, Position.remainder, afterStatementStart, mul_assoc]
    · exact .other [] _ rfl rfl
  case h_7 =>
    have hstart : afterStatementStart t.kind = afterOperandStart t.kind * letter .semicolon := by
      cases hk : t.kind <;> simp_all [afterStatementStart]
    rw [hstart, mul_assoc, ← chain_mul_leftQuotient]
    exact answers_atOperand b .expression []
  all_goals
    rename_i hk
    refine .of_kind hk (by decide) rfl ?_
    simp [hk, Position.remainder, Use.remainder, Pending.remainder, Open.remainder,
      afterStatementStart, mul_assoc]

/-- Where declarations are listed, only a declaration, the end of the block or the end of the input
may follow. -/
theorem answers_atDeclaration (hlist : ∀ o ∈ b.opened.head?, o.isBlock = true) : Answers
    ((Open.remainder b.opened).leftQuotient [t.kind]) b.errors t (b.atDeclaration t) := by
  have hend : ∀ {k : TokenKind}, k ≠ .rightBrace → k ≠ .eof →
      (Open.ending b.opened).leftQuotient [k] = 0 := by
    intro k hbrace heof
    cases b.opened <;> simp [Open.ending, hbrace.symm, heof.symm]
  rw [Open.list_leftQuotient hlist]
  unfold atDeclaration
  split
  case h_1 hk =>
    refine .stop hk rfl rfl ?_
    rw [hk]
    exact Open.list_leftQuotient hlist _
  case h_2 hk | h_3 hk =>
    refine .of_kind hk (by decide) rfl ?_
    simp [hk, hend, Position.remainder, afterDeclarationStart]
  case h_4 hk ho | h_5 hk ho =>
    refine .of_kind hk (by decide) rfl ?_
    simp [hk, ho, remainder, Position.remainder, Open.ending, afterDeclarationStart,
      afterStatementStart, afterOperandStart]
  case h_6 heof hcreate hfunc hblock hbody =>
    have hstart : afterDeclarationStart t.kind = afterStatementStart t.kind := by
      cases hk : t.kind <;> simp_all [afterDeclarationStart]
    have hrest : (Open.ending b.opened).leftQuotient [t.kind] = 0 := by
      by_cases hk : t.kind = .rightBrace
      · cases ho : b.opened with
        | nil => simp [Open.ending, hk]
        | cons construct rest =>
          have hblocks : construct.isBlock = true := hlist construct (by simp [ho])
          cases construct with
          | block done => exact (hblock done rest hk ho).elim
          | body head done => exact (hbody head done rest hk ho).elim
          | _ => cases hblocks
      · exact hend hk heof
    rw [hstart, hrest, add_zero, ← statementWords_mul_leftQuotient]
    exact answers_atStatement

theorem chain_mul_leftQuotient_eq_zero {k : TokenKind} (hk : k = .semicolon ∨ k = .rightParen)
    (L : Language TokenKind) : (chain * L).leftQuotient [k] = 0 := by
  rw [chain_mul_leftQuotient]
  obtain rfl | rfl := hk <;> exact zero_mul L

theorem answers_atForCondition {initial : Option Stmt} : Answers
    ((b.moveTo (.forCondition initial)).remainder.leftQuotient [t.kind]) b.errors t
      (b.atForCondition initial t) :=
  answers_maybe (by decide) (chain_mul_leftQuotient_eq_zero (.inl rfl)) rfl rfl
    (answers_atOperand b (.forCondition initial) [])

/-- Whether a token fits behind a statement is decided by whether anything may follow it, also for
an `else`. -/
theorem answers_afterStatement (s : Stmt) (opened : List Open) : Answers
    ((Open.remainder opened).leftQuotient [t.kind]) b.errors t (b.afterStatement t s opened) := by
  induction opened generalizing s with
  | nil =>
    exact answers_atDeclaration (b := { b with opened := [], statements := s :: b.statements })
      (by simp)
  | cons construct rest ih =>
    cases construct with
    | block done =>
      exact answers_atDeclaration (b := { b with opened := .block (s :: done) :: rest })
        (by simp [Open.isBlock])
    | body head done =>
      exact answers_atDeclaration (b := { b with opened := .body head (s :: done) :: rest })
        (by simp [Open.isBlock])
    | forInitial => exact answers_atForCondition (b := { b with opened := rest })
    | thenBranch condition =>
      rw [Open.remainder, leftQuotient_one_add_mul, mul_assoc, leftQuotient_letter_mul]
      unfold afterStatement
      by_cases hk : t.kind = .else
      · -- The innermost `if` takes it, which leaves everything open that an outer one would.
        rw [if_pos hk, if_pos hk.symm, hk, (Open.remainder_leftQuotient_else rest).add_eq_right]
        exact .of_kind hk (by decide) rfl rfl
      · rw [if_neg hk, if_neg (Ne.symm hk), add_zero]
        exact ih _
    | elseBranch | loopBody | forBody => exact ih _

theorem answers_atParameter {name : String} {line : Nat} {done : List String} : Answers
    ((b.moveTo (.parameter name line done)).remainder.leftQuotient [t.kind]) b.errors t
      (b.atParameter name line done t) := by
  unfold atParameter
  split
  · unfold need
    split
    · exact .other [] (.tooManyParameters maxItems t.line) rfl rfl
    · exact .other [_] (.tooManyParameters maxItems t.line) rfl rfl
  · exact answers_need (by decide) rfl rfl

theorem moreParameters_eq : moreParameters =
    1 + letter .comma * (letter .identifier * moreParameters) := by
  rw [← mul_assoc]
  exact (Language.one_add_self_mul_kstar_eq_kstar _).symm

theorem answers_firstArgument (callee : Expr) : Answers
    ((b.moveTo (.firstArgument use pending callee)).remainder.leftQuotient [t.kind]) b.errors t
      (if t.kind = .rightParen then b.moveTo (.operator use pending (.call callee [] t.line))
        else b.atOperand use (.arguments callee [] :: pending) t) := by
  have hassoc : ∀ L, chainArguments * L =
      chain * ((1 + letter .comma * chainArguments) * L) := by
    intro L
    nth_rewrite 1 [chainArguments_eq]
    exact mul_assoc _ _ _
  refine answers_maybe (by decide) (fun L => ?_) rfl rfl ?_
  · rw [hassoc]
    exact chain_mul_leftQuotient_eq_zero (.inr rfl) _
  · rw [hassoc]
    exact answers_atOperand b use (.arguments callee [] :: pending)

theorem answers_firstParameter (name : String) (line : Nat) : Answers
    ((b.moveTo (.firstParameter name line)).remainder.leftQuotient [t.kind]) b.errors t
      (if t.kind = .rightParen then b.moveTo (.functionBrace ⟨name, line, []⟩)
        else b.atParameter name line [] t) := by
  refine answers_maybe (by decide) (fun L => ?_) rfl rfl ?_
  · rw [mul_assoc, leftQuotient_letter_mul]
    exact if_neg (by decide)
  · rw [mul_assoc]
    exact answers_atParameter

theorem answers_forStart : Answers
    ((b.moveTo .forStart).remainder.leftQuotient [t.kind]) b.errors t
      (match t.kind with
        | .semicolon => b.moveTo (.forCondition none)
        | .create => b.enter .forInitial .createName
        | _ => { b with opened := .forInitial :: b.opened }.atOperand .expression [] t) := by
  have hclauses : (b.moveTo .forStart).remainder =
      letter .create * (variableRest * Open.remainder (.forInitial :: b.opened)) +
        chain * (letter .semicolon * Open.remainder (.forInitial :: b.opened)) +
        letter .semicolon * Open.remainder (.forInitial :: b.opened) := by
    simp only [remainder_moveTo, Position.remainder, initialClause, add_mul, mul_assoc,
      Open.remainder]
  rw [hclauses, leftQuotient_add, leftQuotient_add]
  split
  next hk =>
    refine .of_kind hk (by decide) rfl ?_
    rw [hk, chain_mul_leftQuotient_eq_zero (.inl rfl)]
    simp [Position.remainder, Open.remainder]
  next hk =>
    refine .of_kind hk (by decide) rfl ?_
    rw [hk, chain_mul_leftQuotient]
    simp [Position.remainder, afterOperandStart]
  next hsemicolon hcreate =>
    rw [leftQuotient_letter_mul, leftQuotient_letter_mul, if_neg (Ne.symm hcreate),
      if_neg (Ne.symm hsemicolon), zero_add, add_zero]
    exact answers_atOperand { b with opened := .forInitial :: b.opened } .expression []

/-- Reading a token takes the left quotient of what may follow. -/
theorem answers_feed (hf : b.Formed) (hp : b.position ≠ .skip ∧ b.position ≠ .discard) :
    Answers (b.remainder.leftQuotient [t.kind]) b.errors t (b.feed t) := by
  obtain ⟨place, inside, hframed, hadmits⟩ := hf
  unfold remainder feed
  cases hpos : b.position with
  | declaration =>
    rw [hpos] at hadmits
    cases hadmits
    exact answers_atDeclaration hframed.opened.head_isBlock
  | statement => exact answers_atStatement
  | operand use pending => exact answers_atOperand b use pending
  | operator use pending e => exact answers_atOperator
  | firstArgument use pending callee => exact answers_firstArgument callee
  | completed s => exact answers_afterStatement s b.opened
  | createRest name line => exact answers_more (by decide) (by decide) (by decide) rfl rfl rfl rfl
  | firstParameter name line => exact answers_firstParameter name line
  | parameter name line done => exact answers_atParameter
  | parameterRest name line done =>
    rw [Position.remainder, moreParameters_eq]
    refine answers_more (by decide) (by decide) (by decide) rfl rfl ?_ rfl
    rw [mul_assoc]
    rfl
  | forStart => exact answers_forStart
  | forCondition initial => exact answers_atForCondition
  | forIncrement initial condition =>
    exact answers_maybe (by decide) (chain_mul_leftQuotient_eq_zero (.inr rfl)) rfl rfl
      (answers_atOperand b (.forIncrement initial condition) [])
  | resultStart line =>
    exact answers_maybe (by decide) (chain_mul_leftQuotient_eq_zero (.inl rfl)) rfl rfl
      (answers_atOperand b (.result line) [])
  | skip => exact absurd hpos hp.1
  | discard => exact absurd hpos hp.2
  | createName =>
    rw [Position.remainder, variableRest, mul_assoc, mul_assoc]
    exact answers_need (by decide) rfl rfl
  | functionName =>
    rw [Position.remainder, functionRest]
    simp only [mul_assoc]
    exact answers_need (by decide) rfl rfl
  | functionOpen | functionBrace | ifOpen | loopOpen | forOpen =>
    exact answers_need (by decide) rfl rfl

end Builder

end ClosureLang
