import ClosureLang.Proofs.Prefixes.Openers
import ClosureLang.Proofs.Recovery.Causes

namespace ClosureLang

open Grammar

/-- What may follow behind a whole statement inside constructs. -/
def Open.remainder : List Open → Language TokenKind
  | [] => declarationWords * letter .eof
  | .block _ :: rest | .body _ _ :: rest =>
    declarationWords * (letter .rightBrace * Open.remainder rest)
  | .thenBranch _ :: rest => (1 + letter .else * statementWords) * Open.remainder rest
  | .elseBranch _ _ :: rest | .loopBody _ :: rest | .forBody _ _ _ :: rest => Open.remainder rest
  | .forInitial :: rest =>
    (1 + chain) * (letter .semicolon * ((1 + chain) * (letter .rightParen *
      (statementWords * Open.remainder rest))))

/-- What may follow behind a whole expression, if `L` may follow behind its statement. -/
def Use.remainder (L : Language TokenKind) : Use → Language TokenKind
  | .expression | .output | .initial _ _ | .result _ => letter .semicolon * L
  | .ifCondition =>
    letter .rightParen * (statementWords * ((1 + letter .else * statementWords) * L))
  | .loopCondition | .forIncrement _ _ => letter .rightParen * (statementWords * L)
  | .forCondition _ =>
    letter .semicolon * ((1 + chain) * (letter .rightParen * (statementWords * L)))

/-- What may follow behind an operand and its operators, if `L` may follow behind the expression. -/
def Pending.remainder (L : Language TokenKind) : List Pending → Language TokenKind
  | [] => L
  | .group :: rest => letter .rightParen * (tail * Pending.remainder L rest)
  | .arguments _ _ :: rest =>
    (1 + letter .comma * chainArguments) *
      (letter .rightParen * (tail * Pending.remainder L rest))
  | .unary _ _ :: rest | .joined _ _ _ :: rest | .assign _ _ :: rest => Pending.remainder L rest

/-- What may follow at a position, if `L` may follow behind the statement that is read there. -/
def Position.remainder (L : Language TokenKind) : Position → Language TokenKind
  | .declaration | .completed _ | .discard | .skip => L
  | .statement => statementWords * L
  | .operand use pending => chain * Pending.remainder (use.remainder L) pending
  | .operator use pending _ => tail * Pending.remainder (use.remainder L) pending
  | .firstArgument use pending _ =>
    (1 + chainArguments) * (letter .rightParen *
      (tail * Pending.remainder (use.remainder L) pending))
  | .createName => variableRest * L
  | .createRest _ _ => (1 + letter .equal * chain) * (letter .semicolon * L)
  | .functionName => functionRest * L
  | .functionOpen _ _ =>
    letter .leftParen * ((1 + letter .identifier * moreParameters) * (letter .rightParen *
      (letter .leftBrace * (declarationWords * (letter .rightBrace * L)))))
  | .firstParameter _ _ =>
    (1 + letter .identifier * moreParameters) * (letter .rightParen *
      (letter .leftBrace * (declarationWords * (letter .rightBrace * L))))
  | .parameter _ _ _ =>
    letter .identifier * (moreParameters * (letter .rightParen *
      (letter .leftBrace * (declarationWords * (letter .rightBrace * L)))))
  | .parameterRest _ _ _ =>
    moreParameters * (letter .rightParen *
      (letter .leftBrace * (declarationWords * (letter .rightBrace * L))))
  | .functionBrace _ => letter .leftBrace * (declarationWords * (letter .rightBrace * L))
  | .ifOpen => letter .leftParen * (chain * Use.ifCondition.remainder L)
  | .loopOpen => letter .leftParen * (chain * Use.loopCondition.remainder L)
  | .forOpen =>
    letter .leftParen * (initialClause * ((1 + chain) * (letter .semicolon * ((1 + chain) *
      (letter .rightParen * (statementWords * L))))))
  | .forStart =>
    initialClause * ((1 + chain) * (letter .semicolon * ((1 + chain) *
      (letter .rightParen * (statementWords * L)))))
  | .forCondition _ =>
    (1 + chain) * (letter .semicolon * ((1 + chain) * (letter .rightParen * (statementWords * L))))
  | .forIncrement _ _ => (1 + chain) * (letter .rightParen * (statementWords * L))
  | .resultStart _ => (1 + chain) * (letter .semicolon * L)

section

variable {L : Language TokenKind}

/-- There is always something that may follow a whole statement. -/
theorem Open.hasWord_remainder (opened : List Open) : HasWord (Open.remainder opened) := by
  induction opened with
  | nil => exact hasWord_declarationWords.mul hasWord_letter
  | cons construct rest ih =>
    cases construct with
    | block | body => exact hasWord_declarationWords.mul (hasWord_letter.mul ih)
    | thenBranch => exact hasWord_one_add.mul ih
    | elseBranch | loopBody | forBody => exact ih
    | forInitial =>
      exact hasWord_one_add.mul (hasWord_letter.mul (hasWord_one_add.mul
        (hasWord_letter.mul (hasWord_statementWords.mul ih))))

theorem Use.hasWord_remainder (use : Use) (h : HasWord L) : HasWord (use.remainder L) := by
  cases use with
  | expression | output | initial | result => exact hasWord_letter.mul h
  | ifCondition => exact hasWord_letter.mul (hasWord_statementWords.mul (hasWord_one_add.mul h))
  | loopCondition | forIncrement => exact hasWord_letter.mul (hasWord_statementWords.mul h)
  | forCondition =>
    exact hasWord_letter.mul (hasWord_one_add.mul (hasWord_letter.mul
      (hasWord_statementWords.mul h)))

theorem Pending.hasWord_remainder (pending : List Pending) (h : HasWord L) :
    HasWord (Pending.remainder L pending) := by
  induction pending with
  | nil => exact h
  | cons waiting rest ih =>
    cases waiting with
    | group => exact hasWord_letter.mul (hasWord_tail.mul ih)
    | arguments => exact hasWord_one_add.mul (hasWord_letter.mul (hasWord_tail.mul ih))
    | unary | joined | assign => exact ih

/-- There is always something that may follow, wherever reading is. -/
theorem Position.hasWord_remainder (p : Position) (h : HasWord L) : HasWord (p.remainder L) := by
  have hmore : HasWord moreParameters := ⟨[], Language.nil_mem_kstar _⟩
  have hbody : HasWord (letter .leftBrace * (declarationWords * (letter .rightBrace * L))) :=
    hasWord_letter.mul (hasWord_declarationWords.mul (hasWord_letter.mul h))
  have hclauses : HasWord ((1 + chain) * (letter .semicolon * ((1 + chain) *
      (letter .rightParen * (statementWords * L))))) :=
    hasWord_one_add.mul (hasWord_letter.mul (hasWord_one_add.mul
      (hasWord_letter.mul (hasWord_statementWords.mul h))))
  have hinitial : HasWord initialClause := hasWord_letter.mono fun w hw => .inr hw
  cases p with
  | declaration | completed | discard | skip => exact h
  | statement => exact hasWord_statementWords.mul h
  | operand use pending =>
    exact hasWord_chain.mul (Pending.hasWord_remainder pending (use.hasWord_remainder h))
  | operator use pending =>
    exact hasWord_tail.mul (Pending.hasWord_remainder pending (use.hasWord_remainder h))
  | firstArgument use pending =>
    exact hasWord_one_add.mul (hasWord_letter.mul (hasWord_tail.mul
      (Pending.hasWord_remainder pending (use.hasWord_remainder h))))
  | createName =>
    exact (hasWord_letter.mul (hasWord_one_add.mul hasWord_letter)).mul h
  | createRest => exact hasWord_one_add.mul (hasWord_letter.mul h)
  | functionName =>
    exact (hasWord_letter.mul (hasWord_letter.mul (hasWord_one_add.mul (hasWord_letter.mul
      (hasWord_letter.mul (hasWord_declarationWords.mul hasWord_letter)))))).mul h
  | functionOpen => exact hasWord_letter.mul (hasWord_one_add.mul (hasWord_letter.mul hbody))
  | firstParameter => exact hasWord_one_add.mul (hasWord_letter.mul hbody)
  | parameter => exact hasWord_letter.mul (hmore.mul (hasWord_letter.mul hbody))
  | parameterRest => exact hmore.mul (hasWord_letter.mul hbody)
  | functionBrace => exact hbody
  | ifOpen => exact hasWord_letter.mul (hasWord_chain.mul (Use.hasWord_remainder _ h))
  | loopOpen => exact hasWord_letter.mul (hasWord_chain.mul (Use.hasWord_remainder _ h))
  | forOpen => exact hasWord_letter.mul (hinitial.mul hclauses)
  | forStart => exact hinitial.mul hclauses
  | forCondition => exact hclauses
  | forIncrement => exact hasWord_one_add.mul (hasWord_letter.mul (hasWord_statementWords.mul h))
  | resultStart => exact hasWord_one_add.mul (hasWord_letter.mul h)

/-- What ends a list of declarations. -/
def Open.ending : List Open → Language TokenKind
  | [] => letter .eof
  | _ :: rest => letter .rightBrace * Open.remainder rest

theorem Open.list_leftQuotient {opened : List Open} (h : ∀ o ∈ opened.head?, o.isBlock = true)
    (k : TokenKind) : (Open.remainder opened).leftQuotient [k] =
      afterDeclarationStart k * Open.remainder opened +
        (Open.ending opened).leftQuotient [k] := by
  cases opened with
  | nil => exact declarationWords_mul_leftQuotient _ k
  | cons construct rest =>
    cases construct with
    | block | body => exact declarationWords_mul_leftQuotient _ k
    | _ => cases h _ rfl

/-- An `else` that belongs further out could as well belong here. -/
theorem Open.remainder_leftQuotient_else (opened : List Open) :
    (Open.remainder opened).leftQuotient [.else] ≤ statementWords * Open.remainder opened := by
  induction opened with
  | nil =>
    rw [Open.remainder, declarationWords_mul_leftQuotient]
    simp [afterDeclarationStart, afterStatementStart, afterOperandStart]
  | cons construct rest ih =>
    cases construct with
    | block | body =>
      rw [Open.remainder, declarationWords_mul_leftQuotient]
      simp [afterDeclarationStart, afterStatementStart, afterOperandStart]
    | thenBranch condition =>
      have hle : Open.remainder rest ≤ Open.remainder (.thenBranch condition :: rest) := by
        rw [Open.remainder, add_mul, one_mul]
        exact fun w h => .inl h
      have hquotient : (Open.remainder (.thenBranch condition :: rest)).leftQuotient [.else] =
          (Open.remainder rest).leftQuotient [.else] + statementWords * Open.remainder rest := by
        simp [Open.remainder, mul_assoc]
      rw [hquotient, ih.add_eq_right]
      grw [hle]
    | elseBranch | loopBody | forBody => exact ih
    | forInitial =>
      rw [Open.remainder]
      simp [chain_mul_leftQuotient, afterOperandStart]

/-- At the end of the input no block may be open. -/
theorem Open.remainder_leftQuotient_eof {opened : List Open}
    (h : opened.countP Open.isBlock ≠ 0) : (Open.remainder opened).leftQuotient [.eof] = 0 := by
  induction opened with
  | nil => exact absurd rfl h
  | cons construct rest ih =>
    cases construct with
    | block | body =>
      rw [Open.remainder, declarationWords_mul_leftQuotient]
      simp [afterDeclarationStart, afterStatementStart, afterOperandStart]
    | thenBranch condition =>
      have hrest := ih (by simpa [Open.isBlock] using h)
      simp [Open.remainder, mul_assoc, hrest]
    | elseBranch | loopBody | forBody => exact ih (by simpa [Open.isBlock] using h)
    | forInitial =>
      rw [Open.remainder]
      simp [chain_mul_leftQuotient, afterOperandStart]

/-- An expression ends with a closing bracket, a comma or a semicolon. -/
theorem Pending.remainder_leftQuotient {k : TokenKind}
    (hk : k ≠ .rightParen ∧ k ≠ .comma ∧ k ≠ .semicolon) (use : Use) (pending : List Pending) :
    (Pending.remainder (use.remainder L) pending).leftQuotient [k] = 0 := by
  induction pending with
  | nil => cases use <;> simp [Pending.remainder, Use.remainder, hk.1.symm, hk.2.2.symm]
  | cons waiting rest ih =>
    cases waiting with
    | group => simp [Pending.remainder, hk.1.symm]
    | arguments => simp [Pending.remainder, mul_assoc, hk.1.symm, hk.2.1.symm]
    | unary | joined | assign => exact ih

theorem Pending.remainder_settle (n : Nat) (e : Expr) (pending : List Pending) :
    Pending.remainder L (Pending.settle n e pending).2 = Pending.remainder L pending := by
  induction pending generalizing e with
  | nil => rfl
  | cons waiting rest ih =>
    cases waiting with
    | unary op line => exact ih _
    | joined left op line =>
      unfold Pending.settle
      split
      · exact ih _
      · rfl
    | group | assign | arguments => rfl

/-- What may follow behind an expression at its end. -/
def Pending.Completed.Leaves (L M : Language TokenKind) : Pending.Completed → Prop
  | .whole _ => M = L
  | .grouped _ rest => M = letter .rightParen * (tail * Pending.remainder L rest)
  | .argument _ _ _ rest =>
    M = (1 + letter .comma * chainArguments) *
      (letter .rightParen * (tail * Pending.remainder L rest))
  | .badTarget _ => True

/-- An expression that ends leaves what may follow its statement. -/
theorem Pending.remainder_complete (L : Language TokenKind) (e : Expr) (pending : List Pending) :
    (Pending.complete e pending).Leaves L (Pending.remainder L pending) := by
  induction pending generalizing e with
  | nil => rfl
  | cons waiting rest ih =>
    cases waiting with
    | unary op line => exact ih _
    | joined left op line => exact ih _
    | group | arguments => rfl
    | assign target line =>
      cases target with
      | lookup name line => exact ih _
      | _ => trivial

end

end ClosureLang
