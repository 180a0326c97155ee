import ClosureLang.Proofs.Prefixes.Productions

namespace ClosureLang.Grammar

section

open Rule

/-- The parts of a chain of operands: from an operand, from behind one, and from an argument. -/
inductive Link where
  | operand | tail | arguments

/-- The tokens that are operands by themselves. -/
def atom : Rule Link :=
  token .number ||| token .string ||| token .true ||| token .false ||| token .nil |||
    token .identifier

/-- The tokens that stand between operands. -/
def connective : Rule Link :=
  token .equal ||| token .or ||| token .and ||| token .bangEqual ||| token .equalEqual |||
    token .greater ||| token .greaterEqual ||| token .less ||| token .lessEqual ||| token .plus |||
    token .minus ||| token .star ||| token .slash

def links : Link → Rule Link
  | .operand =>
    atom ++ category .tail |||
      token .leftParen ++ category .operand ++ token .rightParen ++ category .tail |||
      (token .bang ||| token .minus) ++ category .operand
  | .tail =>
    maybe (connective ++ category .operand |||
      token .leftParen ++ maybe (category .arguments) ++ token .rightParen ++ category .tail)
  | .arguments => category .operand ++ maybe (token .comma ++ category .arguments)

end

/-- The words that make words of `M` in front of every word of `L`. -/
def inFront (M L : Language TokenKind) : Language TokenKind :=
  {u | ∀ v ∈ L, u ++ v ∈ M}

/-- The words that make words of `M` behind every word of `L`. -/
def behind (L M : Language TokenKind) : Language TokenKind :=
  {v | ∀ u ∈ L, u ++ v ∈ M}

section

variable {K L M : Language TokenKind}

theorem le_inFront_iff : K ≤ inFront M L ↔ K * L ≤ M := by
  constructor
  · intro h w hw
    obtain ⟨u, hu, v, hv, rfl⟩ := Language.mem_mul.mp hw
    exact h hu v hv
  · intro h u hu v hv
    exact h (Language.append_mem_mul hu hv)

theorem le_behind_iff : K ≤ behind L M ↔ L * K ≤ M := by
  constructor
  · intro h w hw
    obtain ⟨u, hu, v, hv, rfl⟩ := Language.mem_mul.mp hw
    exact h hv u hu
  · intro h v hv u hu
    exact h (Language.append_mem_mul hu hv)

theorem inFront_mul_le : inFront M L * L ≤ M :=
  le_inFront_iff.mp le_rfl

theorem mul_behind_le : L * behind L M ≤ M :=
  le_behind_iff.mp le_rfl

end

/-- Chains of operands, as words. -/
def chain : Language TokenKind := words links .operand

/-- What may follow an operand in a chain. -/
def tail : Language TokenKind := words links .tail

def chainArguments : Language TokenKind := words links .arguments

def atoms : Language TokenKind :=
  letter .number + letter .string + letter .true + letter .false + letter .nil +
    letter .identifier

def connectives : Language TokenKind :=
  letter .equal + letter .or + letter .and + letter .bangEqual + letter .equalEqual +
    letter .greater + letter .greaterEqual + letter .less + letter .lessEqual + letter .plus +
    letter .minus + letter .star + letter .slash

/-- A chain is an operand of one token, a group or a chain behind an operator in front. -/
theorem chain_eq : chain =
    atoms * tail + letter .leftParen * chain * letter .rightParen * tail +
      (letter .bang + letter .minus) * chain :=
  words_eq links .operand

theorem tail_eq : tail =
    1 + (connectives * chain +
      letter .leftParen * (1 + chainArguments) * letter .rightParen * tail) :=
  words_eq links .tail

theorem chainArguments_eq :
    chainArguments = chain * (1 + letter .comma * chainArguments) :=
  words_eq links .arguments

theorem one_le_tail : 1 ≤ tail := by
  rw [tail_eq]
  exact fun w h => .inl h

theorem connectives_mul_chain_le : connectives * chain ≤ tail := by
  rw [tail_eq]
  exact fun w h => .inr (.inl h)

theorem call_mul_tail_le :
    letter .leftParen * (1 + chainArguments) * letter .rightParen * tail ≤ tail := by
  nth_rewrite 2 [tail_eq]
  exact fun w h => .inr (.inr h)

theorem atoms_mul_tail_le : atoms * tail ≤ chain := by
  rw [chain_eq]
  exact fun w h => .inl (.inl h)

theorem group_mul_tail_le : letter .leftParen * chain * letter .rightParen * tail ≤ chain := by
  nth_rewrite 2 [chain_eq]
  exact fun w h => .inl (.inr h)

theorem sign_mul_chain_le : (letter .bang + letter .minus) * chain ≤ chain := by
  nth_rewrite 2 [chain_eq]
  exact fun w h => .inr h

/-- A chain goes on behind a chain. -/
theorem chain_mul_tail_le : chain * tail ≤ chain := by
  rw [← le_inFront_iff]
  have hA : inFront tail tail * tail ≤ tail := inFront_mul_le
  have hB : inFront chain tail * tail ≤ chain := inFront_mul_le
  have hB' : inFront chain tail ≤ chain := by
    grw [← hB, ← one_le_tail, mul_one]
  -- Chains and tails that can be continued solve the productions of chains and tails.
  refine words_le (f := fun
    | .operand => inFront chain tail
    | .tail => inFront tail tail
    | .arguments => chainArguments) ?_ Link.operand
  intro c
  cases c with
  | operand =>
    change atoms * inFront tail tail +
      letter .leftParen * inFront chain tail * letter .rightParen * inFront tail tail +
      (letter .bang + letter .minus) * inFront chain tail ≤ inFront chain tail
    rw [le_inFront_iff, add_mul, add_mul]
    refine add_le (add_le ?_ ?_) ?_
    · grw [mul_assoc, hA, atoms_mul_tail_le]
    · grw [mul_assoc _ _ tail, hA, hB', group_mul_tail_le]
    · grw [mul_assoc, hB, sign_mul_chain_le]
  | tail =>
    change 1 + (connectives * inFront chain tail +
      letter .leftParen * (1 + chainArguments) * letter .rightParen * inFront tail tail) ≤
      inFront tail tail
    rw [le_inFront_iff, add_mul, add_mul]
    refine add_le ?_ (add_le ?_ ?_)
    · rw [one_mul]
    · grw [mul_assoc, hB, connectives_mul_chain_le]
    · grw [mul_assoc _ _ tail, hA, call_mul_tail_le]
  | arguments =>
    change inFront chain tail * (1 + letter .comma * chainArguments) ≤ chainArguments
    grw [hB', ← chainArguments_eq]

theorem le_tail_of_mul_tail_le {L : Language TokenKind} (h : L * tail ≤ tail) : L ≤ tail := by
  grw [← h, ← one_le_tail, mul_one]

theorem chain_mul_kstar_le {L : Language TokenKind} (h : L ≤ connectives) :
    chain * KStar.kstar (L * chain) ≤ chain := by
  refine mul_kstar_le_self ?_
  grw [h, connectives_mul_chain_le, chain_mul_tail_le]

/-- Every expression is a chain of operands. -/
theorem words_expression_le : words productions .expression ≤ chain := by
  refine words_le (f := fun
    | .expression | .assignment | .logicOr | .logicAnd | .equality | .comparison | .term
    | .factor | .unary | .call | .primary => chain
    | .arguments => chainArguments
    | _ => ⊤) ?_ Category.expression
  intro c
  cases c with
  | expression => exact le_rfl
  | assignment =>
    change chain * (1 + letter .equal * chain) ≤ chain
    have hequal : letter .equal ≤ connectives := by
      simp [letter_le_iff, connectives, Language.mem_add]
    grw [hequal, connectives_mul_chain_le, add_le one_le_tail le_rfl, chain_mul_tail_le]
  | logicOr | logicAnd =>
    exact chain_mul_kstar_le (by simp [letter_le_iff, connectives, Language.mem_add])
  | equality | comparison | term | factor =>
    refine chain_mul_kstar_le ?_
    simp [add_le_iff, letter_le_iff, connectives, Language.mem_add]
  | unary => exact add_le sign_mul_chain_le le_rfl
  | call =>
    change chain * KStar.kstar (letter .leftParen * (1 + chainArguments) * letter .rightParen) ≤
      chain
    refine mul_kstar_le_self ?_
    grw [le_tail_of_mul_tail_le call_mul_tail_le, chain_mul_tail_le]
  | primary =>
    change atoms + letter .leftParen * chain * letter .rightParen ≤ chain
    refine add_le ?_ ?_
    · grw [← atoms_mul_tail_le, ← one_le_tail, mul_one]
    · nth_grw 2 [← group_mul_tail_le]
      grw [← one_le_tail, mul_one]
  | arguments =>
    change chain * KStar.kstar (letter .comma * chain) ≤ chainArguments
    rw [chainArguments_eq]
    have hmore : KStar.kstar (letter .comma * chain) ≤ 1 + letter .comma * chainArguments := by
      refine kstar_le_of_mul_le_right (fun w h => .inl h) fun w h => .inr ?_
      rwa [chainArguments_eq, ← mul_assoc]
    grw [hmore]
  | _ => exact le_top

/-- The categories of operands, from the loosest to the tightest. -/
def level : Nat → Category
  | 1 => .logicOr
  | 2 => .logicAnd
  | 3 => .equality
  | 4 => .comparison
  | 5 => .term
  | 6 => .factor
  | 7 => .unary
  | _ => .call

def joining : Nat → Language TokenKind
  | 1 => letter .or
  | 2 => letter .and
  | 3 => letter .bangEqual + letter .equalEqual
  | 4 => letter .greater + letter .greaterEqual + letter .less + letter .lessEqual
  | 5 => letter .plus + letter .minus
  | 6 => letter .star + letter .slash
  | _ => 0

theorem connectives_eq : connectives = letter .equal + joining 1 + joining 2 + joining 3 +
    joining 4 + joining 5 + joining 6 := by
  simp [connectives, joining, add_assoc]

/-- An operand of a level is a sequence of tighter operands with the operators of the level between
them. -/
theorem words_level {n : Nat} (h₁ : 1 ≤ n) (h₆ : n ≤ 6) : words productions (level n) =
    words productions (level (n + 1)) *
      KStar.kstar (joining n * words productions (level (n + 1))) := by
  interval_cases n <;> exact words_eq productions _

theorem words_level_succ_le {n : Nat} (h₁ : 1 ≤ n) (h₇ : n ≤ 7) :
    words productions (level (n + 1)) ≤ words productions (level n) := by
  obtain h | rfl : n ≤ 6 ∨ n = 7 := by omega
  · rw [words_level h₁ h]
    nth_grw 1 [← mul_one (words productions (level (n + 1)))]
    grw [← one_le_kstar]
  · rw [words_eq productions (level 7)]
    exact fun w h => .inr h

theorem words_call_le {n : Nat} (h₁ : 1 ≤ n) (h₈ : n ≤ 8) :
    words productions .call ≤ words productions (level n) := by
  induction h₈ using Nat.decreasingInduction with
  | self => exact le_rfl
  | of_succ n hn ih => exact (ih (by omega)).trans (words_level_succ_le h₁ (by omega))

/-- What can stand in front of an operand can stand in front of a looser one. -/
theorem mul_words_level_le {L : Language TokenKind} {m n : Nat} (h₁ : 1 ≤ n) (h₇ : m ≤ 7)
    (hnm : n ≤ m) (h : L * words productions (level m) ≤ words productions (level m)) :
    L * words productions (level n) ≤ words productions (level n) := by
  induction hnm using Nat.decreasingInduction with
  | self => exact h
  | of_succ n hn ih =>
    have h₆ : n ≤ 6 := by omega
    rw [words_level h₁ h₆, ← mul_assoc]
    grw [ih (by omega)]

/-- An expression is an operand of the loosest level, with an assignment behind it or not. -/
theorem words_expression_eq : words productions .expression =
    words productions .logicOr * (1 + letter .equal * words productions .expression) := by
  have h : words productions .expression = words productions .assignment :=
    words_eq productions .expression
  rw [h]
  exact words_eq productions .assignment

theorem mul_words_expression_le {L : Language TokenKind} {m : Nat} (h₁ : 1 ≤ m) (h₇ : m ≤ 7)
    (h : L * words productions (level m) ≤ words productions (level m)) :
    L * words productions .expression ≤ words productions .expression := by
  have hor : L * words productions .logicOr ≤ words productions .logicOr :=
    mul_words_level_le le_rfl h₇ h₁ h
  rw [words_expression_eq, ← mul_assoc]
  grw [hor]

theorem sign_mul_words_le : (letter .bang + letter .minus) * words productions .expression ≤
    words productions .expression := by
  refine mul_words_expression_le (m := 7) (by omega) le_rfl ?_
  have hunary : words productions .unary =
      (letter .bang + letter .minus) * words productions .unary + words productions .call :=
    words_eq productions .unary
  change (letter .bang + letter .minus) * words productions .unary ≤ words productions .unary
  nth_rewrite 2 [hunary]
  exact fun w h => .inl h

theorem joining_mul_words_le {j : Nat} (h₁ : 1 ≤ j) (h₆ : j ≤ 6) :
    words productions .call * joining j * words productions .expression ≤
      words productions .expression := by
  refine mul_words_expression_le h₁ (by omega) ?_
  rw [words_level h₁ h₆, ← mul_assoc]
  have hcall : words productions .call ≤ words productions (level (j + 1)) :=
    words_call_le (by omega) (by omega)
  grw [hcall]
  rw [mul_assoc _ (joining j), mul_assoc]
  grw [mul_kstar_le_kstar]

theorem words_call_mul_connectives_le :
    words productions .call * (connectives * words productions .expression) ≤
      words productions .expression := by
  have hequal : words productions .call * letter .equal * words productions .expression ≤
      words productions .expression := by
    have hcall : words productions .call ≤ words productions .logicOr :=
      words_call_le (n := 1) le_rfl (by omega)
    nth_rewrite 2 [words_expression_eq]
    grw [hcall]
    rw [mul_assoc, mul_add]
    exact fun w h => .inr h
  rw [← mul_assoc, connectives_eq]
  simp only [mul_add, add_mul]
  refine add_le (add_le (add_le (add_le (add_le (add_le hequal ?_) ?_) ?_) ?_) ?_) ?_ <;>
    exact joining_mul_words_le (by omega) (by omega)

theorem words_call_le_expression :
    words productions .call ≤ words productions .expression := by
  rw [words_expression_eq]
  grw [words_call_le (n := 1) le_rfl (by omega)]
  rw [mul_add, mul_one]
  exact fun w h => .inl h

theorem words_call_eq : words productions .call = words productions .primary *
    KStar.kstar (letter .leftParen * (1 + words productions .arguments) * letter .rightParen) :=
  words_eq productions .call

theorem words_call_mul_call_le : words productions .call *
    (letter .leftParen * (1 + words productions .arguments) * letter .rightParen) ≤
      words productions .call := by
  rw [words_call_eq, mul_assoc]
  grw [kstar_mul_le_kstar]

theorem words_primary_le : words productions .primary ≤ words productions .call := by
  rw [words_call_eq]
  nth_grw 1 [← mul_one (words productions .primary)]
  grw [← one_le_kstar]

theorem words_primary_eq : words productions .primary =
    atoms + letter .leftParen * words productions .expression * letter .rightParen :=
  words_eq productions .primary

/-- The expressions of the grammar are the chains of operands. -/
theorem words_expression : words productions .expression = chain := by
  refine le_antisymm words_expression_le ?_
  have hbehind : words productions .call *
      behind (words productions .call) (words productions .expression) ≤
        words productions .expression := mul_behind_le
  have hprimary := words_primary_le
  rw [words_primary_eq] at hprimary
  obtain ⟨hatoms, hgroup⟩ := add_le_iff.mp hprimary
  -- What may follow an operand in a chain is read back as what may follow a call in an expression:
  -- a call is an operand on every level, so it can be the left operand of every operator.
  refine words_le (f := fun
    | .operand => words productions .expression
    | .tail => behind (words productions .call) (words productions .expression)
    | .arguments => words productions .arguments) ?_ Link.operand
  intro c
  cases c with
  | operand =>
    change atoms * behind (words productions .call) (words productions .expression) +
      letter .leftParen * words productions .expression * letter .rightParen *
        behind (words productions .call) (words productions .expression) +
      (letter .bang + letter .minus) * words productions .expression ≤
        words productions .expression
    refine add_le (add_le ?_ ?_) sign_mul_words_le
    · grw [hatoms, hbehind]
    · grw [hgroup, hbehind]
  | tail =>
    change 1 + (connectives * words productions .expression +
      letter .leftParen * (1 + words productions .arguments) * letter .rightParen *
        behind (words productions .call) (words productions .expression)) ≤
      behind (words productions .call) (words productions .expression)
    rw [le_behind_iff, mul_add, mul_add]
    refine add_le ?_ (add_le words_call_mul_connectives_le ?_)
    · rw [mul_one]
      exact words_call_le_expression
    · grw [← mul_assoc, words_call_mul_call_le, hbehind]
  | arguments =>
    have harguments : words productions .arguments = words productions .expression *
        KStar.kstar (letter .comma * words productions .expression) :=
      words_eq productions .arguments
    change words productions .expression * (1 + letter .comma * words productions .arguments) ≤
      words productions .arguments
    rw [harguments, ← mul_assoc]
    grw [one_add_mul_kstar]

end ClosureLang.Grammar
