import ClosureLang.Proofs.Prefixes.Chains

namespace ClosureLang.Grammar

section

variable {L M : Language TokenKind} {k : TokenKind}

theorem nil_mem_mul : [] ∈ L * M ↔ [] ∈ L ∧ [] ∈ M := by
  simp [Language.mem_mul]

/-- Whether there is any word. -/
def HasWord (L : Language TokenKind) : Prop := ∃ w, w ∈ L

theorem HasWord.mul (hL : HasWord L) (hM : HasWord M) : HasWord (L * M) := by
  obtain ⟨u, hu⟩ := hL
  obtain ⟨v, hv⟩ := hM
  exact ⟨u ++ v, Language.append_mem_mul hu hv⟩

theorem hasWord_letter : HasWord (letter k) :=
  ⟨[k], rfl⟩

theorem hasWord_one_add : HasWord (1 + L) :=
  ⟨[], .inl rfl⟩

theorem HasWord.mono (hL : HasWord L) (h : L ≤ M) : HasWord M :=
  hL.imp fun _ hw => h hw

theorem leftQuotient_kstar_mul (hL : [] ∉ L) : (KStar.kstar L * M).leftQuotient [k] =
    L.leftQuotient [k] * (KStar.kstar L * M) + M.leftQuotient [k] := by
  nth_rewrite 1 [← Language.one_add_self_mul_kstar_eq_kstar L]
  rw [leftQuotient_one_add_mul, mul_assoc, leftQuotient_mul_of_notMem hL, add_comm]

end

/-- What may follow a token of a kind at the start of a chain. -/
def afterOperandStart : TokenKind → Language TokenKind
  | .number | .string | .true | .false | .nil | .identifier => tail
  | .leftParen => chain * (letter .rightParen * tail)
  | .bang | .minus => chain
  | _ => 0

/-- What may follow the first token of an expression is decided by its kind. -/
theorem chain_leftQuotient (k : TokenKind) : chain.leftQuotient [k] = afterOperandStart k := by
  rw [chain_eq]
  simp only [atoms, add_mul, mul_assoc, leftQuotient_add, leftQuotient_letter_mul]
  cases k <;> simp [afterOperandStart]

theorem nil_notMem_chain : [] ∉ chain := by
  rw [chain_eq]
  simp [Language.mem_add, nil_mem_mul, atoms, nil_notMem_letter]

theorem hasWord_tail : HasWord tail :=
  ⟨[], one_le_tail rfl⟩

theorem hasWord_chain : HasWord chain :=
  HasWord.mono (HasWord.mul ⟨[.nil], by simp [atoms, Language.mem_add]⟩ hasWord_tail)
    atoms_mul_tail_le

/-- What may follow a token of a kind behind an operand. -/
def afterConnective : TokenKind → Language TokenKind
  | .equal | .or | .and | .bangEqual | .equalEqual | .greater | .greaterEqual | .less | .lessEqual
  | .plus | .minus | .star | .slash => chain
  | .leftParen => (1 + chainArguments) * (letter .rightParen * tail)
  | _ => 0

theorem tail_leftQuotient (k : TokenKind) : tail.leftQuotient [k] = afterConnective k := by
  rw [tail_eq]
  simp only [connectives, add_mul, mul_assoc, leftQuotient_add, leftQuotient_one,
    leftQuotient_letter_mul]
  cases k <;> simp [afterConnective, add_mul]

theorem tail_mul_leftQuotient (L : Language TokenKind) (k : TokenKind) :
    (tail * L).leftQuotient [k] = afterConnective k * L + L.leftQuotient [k] := by
  rw [leftQuotient_mul_of_mem (one_le_tail rfl), tail_leftQuotient]

theorem chain_mul_leftQuotient (L : Language TokenKind) (k : TokenKind) :
    (chain * L).leftQuotient [k] = afterOperandStart k * L := by
  rw [leftQuotient_mul_of_notMem nil_notMem_chain, chain_leftQuotient]

def statementWords : Language TokenKind := words productions .statement

def declarationWords : Language TokenKind := KStar.kstar (words productions .declaration)

/-- A variable declaration from its name on. -/
def variableRest : Language TokenKind :=
  letter .identifier * ((1 + letter .equal * chain) * letter .semicolon)

theorem words_varDecl : words productions .varDecl = letter .create * variableRest := by
  rw [words_eq]
  simp only [productions, Rule.under_append, Rule.under_token, Rule.under_maybe,
    Rule.under_category, words_expression, mul_assoc]
  rfl

def moreParameters : Language TokenKind := KStar.kstar (letter .comma * letter .identifier)

/-- A function declaration from its name on. -/
def functionRest : Language TokenKind :=
  letter .identifier * (letter .leftParen * ((1 + letter .identifier * moreParameters) *
    (letter .rightParen * (letter .leftBrace * (declarationWords * letter .rightBrace)))))

theorem words_block :
    words productions .block = letter .leftBrace * (declarationWords * letter .rightBrace) := by
  rw [words_eq]
  simp only [productions, Rule.under_append, Rule.under_token, Rule.under_many,
    Rule.under_category, mul_assoc]
  rfl

theorem words_funcDecl : words productions .funcDecl = letter .func * functionRest := by
  rw [words_eq]
  simp only [productions, Rule.under_append, Rule.under_token, Rule.under_maybe,
    Rule.under_category, words_block, mul_assoc]
  rw [words_eq productions .parameters]
  rfl

theorem words_exprStmt : words productions .exprStmt = chain * letter .semicolon := by
  rw [words_eq]
  simp only [productions, Rule.under_append, Rule.under_token, Rule.under_category,
    words_expression]

def initialClause : Language TokenKind :=
  letter .create * variableRest + chain * letter .semicolon + letter .semicolon

/-- What may follow a token of a kind at the start of a statement. -/
def afterStatementStart : TokenKind → Language TokenKind
  | .for => letter .leftParen * (initialClause * ((1 + chain) * (letter .semicolon *
      ((1 + chain) * (letter .rightParen * statementWords)))))
  | .if => letter .leftParen * (chain * (letter .rightParen * (statementWords *
      (1 + letter .else * statementWords))))
  | .while => letter .leftParen * (chain * (letter .rightParen * statementWords))
  | .output => chain * letter .semicolon
  | .return => (1 + chain) * letter .semicolon
  | .leftBrace => declarationWords * letter .rightBrace
  | k => afterOperandStart k * letter .semicolon

/-- The first token of a statement decides which statement it is. -/
theorem statementWords_eq : statementWords =
    letter .for * afterStatementStart .for + letter .if * afterStatementStart .if +
      letter .while * afterStatementStart .while + letter .output * afterStatementStart .output +
      letter .return * afterStatementStart .return +
      letter .leftBrace * afterStatementStart .leftBrace + chain * letter .semicolon := by
  have hfor : words productions .forStmt = letter .for * afterStatementStart .for := by
    rw [words_eq]
    simp only [productions, Rule.under_append, Rule.under_or, Rule.under_token, Rule.under_maybe,
      Rule.under_category, words_expression, words_varDecl, words_exprStmt, mul_assoc]
    rfl
  have hif : words productions .ifStmt = letter .if * afterStatementStart .if := by
    rw [words_eq]
    simp only [productions, Rule.under_append, Rule.under_token, Rule.under_maybe,
      Rule.under_category, words_expression, mul_assoc]
    rfl
  have hwhile : words productions .whileStmt = letter .while * afterStatementStart .while := by
    rw [words_eq]
    simp only [productions, Rule.under_append, Rule.under_token, Rule.under_category,
      words_expression, mul_assoc]
    rfl
  have houtput : words productions .outputStmt = letter .output * afterStatementStart .output := by
    rw [words_eq]
    simp only [productions, Rule.under_append, Rule.under_token, Rule.under_category,
      words_expression, mul_assoc]
    rfl
  have hreturn : words productions .returnStmt = letter .return * afterStatementStart .return := by
    rw [words_eq]
    simp only [productions, Rule.under_append, Rule.under_token, Rule.under_maybe,
      Rule.under_category, words_expression, mul_assoc]
    rfl
  rw [statementWords, words_eq]
  simp only [productions, Rule.under_or, Rule.under_category, hfor, hif, hwhile, houtput, hreturn,
    words_block, words_exprStmt]
  rfl

theorem statementWords_leftQuotient (k : TokenKind) :
    statementWords.leftQuotient [k] = afterStatementStart k := by
  rw [statementWords_eq]
  simp only [leftQuotient_add, leftQuotient_letter_mul, chain_mul_leftQuotient]
  cases k <;> simp [afterStatementStart, afterOperandStart]

theorem nil_notMem_statementWords : [] ∉ statementWords := by
  rw [statementWords_eq]
  simp [Language.mem_add, nil_mem_mul, nil_notMem_letter]

theorem statementWords_mul_leftQuotient (L : Language TokenKind) (k : TokenKind) :
    (statementWords * L).leftQuotient [k] = afterStatementStart k * L := by
  rw [leftQuotient_mul_of_notMem nil_notMem_statementWords, statementWords_leftQuotient]

theorem hasWord_statementWords : HasWord statementWords := by
  refine (hasWord_chain.mul (hasWord_letter (k := .semicolon))).mono ?_
  rw [statementWords_eq]
  exact fun w h => .inr h

theorem hasWord_declarationWords : HasWord declarationWords :=
  ⟨[], Language.nil_mem_kstar _⟩

/-- What may follow a token of a kind at the start of a declaration. -/
def afterDeclarationStart : TokenKind → Language TokenKind
  | .create => variableRest
  | .func => functionRest
  | k => afterStatementStart k

/-- A declaration starts with `create` or `func`, or it is a statement. -/
theorem words_declaration : words productions .declaration =
    letter .create * variableRest + letter .func * functionRest + statementWords := by
  rw [words_eq]
  simp only [productions, Rule.under_or, Rule.under_category, words_varDecl, words_funcDecl]
  rfl

/-- A token behind declarations starts another one or is what follows them. -/
theorem declarationWords_mul_leftQuotient (L : Language TokenKind) (k : TokenKind) :
    (declarationWords * L).leftQuotient [k] =
      afterDeclarationStart k * (declarationWords * L) + L.leftQuotient [k] := by
  have hnil : [] ∉ words productions .declaration := by
    rw [words_declaration]
    simp [Language.mem_add, nil_mem_mul, nil_notMem_letter, nil_notMem_statementWords]
  have hstart : (words productions .declaration).leftQuotient [k] = afterDeclarationStart k := by
    rw [words_declaration]
    simp only [leftQuotient_add, leftQuotient_letter_mul, statementWords_leftQuotient]
    cases k <;> simp [afterDeclarationStart, afterStatementStart, afterOperandStart]
  rw [declarationWords, leftQuotient_kstar_mul hnil, hstart]

end ClosureLang.Grammar
