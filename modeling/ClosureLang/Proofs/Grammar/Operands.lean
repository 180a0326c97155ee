import ClosureLang.Proofs.Grammar.Feeding

namespace ClosureLang

namespace Grammar

/-- Whether an operand can start with a kind of token. -/
def Starts (k : TokenKind) : Prop :=
  k ∈ constants ∨ k ∈ [.identifier, .leftParen, .bang, .minus]

theorem level_lt (c : Connective) : c.level < 7 := by
  unfold Connective.level
  split <;> decide

theorem level_pos (c : Connective) : 0 < c.level := by
  unfold Connective.level
  split <;> decide

/-- Whether a kind of token finds an operand of level `n` in front of it whole. -/
def Follows (n : Nat) (k : TokenKind) : Prop :=
  8 ≤ n ∨ k ≠ .leftParen ∧ ∀ c, Connective.ofKind? k = some c → c.level ≤ n

/-- Whether no expression goes on with a kind of token. -/
def Closes (k : TokenKind) : Prop :=
  k ≠ .leftParen ∧ k ≠ .equal ∧ Connective.ofKind? k = none

theorem closes_of_eq {k : TokenKind} (h : k = .rightParen ∨ k = .comma ∨ k = .semicolon) :
    Closes k := by
  obtain rfl | rfl | rfl := h <;> exact ⟨nofun, nofun, rfl⟩

/-- Whether no waiting operator takes an operand that an operator of level `n` follows. -/
def Free (n : Nat) : List Pending → Prop
  | .unary .. :: _ => False
  | .joined _ c _ :: _ => c.level < n
  | _ => True

theorem Follows.tighter {n : Nat} {k : TokenKind} (h : Follows n k) : Follows (n + 1) k := by
  obtain h | ⟨hk, h⟩ := h
  · exact .inl (by omega)
  · exact .inr ⟨hk, fun c hc => Nat.le_succ_of_le (h c hc)⟩

theorem Follows.of_connective {n : Nat} {k : TokenKind} {c : Connective}
    (h : Connective.ofKind? k = some c) (hn : c.level ≤ n) : Follows n k := by
  refine .inr ⟨?_, fun c' hc => ?_⟩
  · rintro rfl
    simp [Connective.ofKind?, BinaryOp.ofKind?] at h
  · cases h.symm.trans hc
    exact hn

theorem Closes.follows {n : Nat} {k : TokenKind} (h : Closes k) : Follows n k :=
  .inr ⟨h.1, fun c hc => by simp [h.2.2] at hc⟩

theorem Free.tighter {n : Nat} {pending : List Pending} (h : Free n pending) :
    Free (n + 1) pending := by
  unfold Free at h ⊢
  split at h
  · exact h.elim
  · exact Nat.lt_succ_of_lt h
  · exact trivial

theorem Free.settle {n : Nat} {pending : List Pending} (h : Free n pending) (e : Expr) :
    Pending.settle n e pending = (e, pending) := by
  unfold Free at h
  split at h
  next => exact h.elim
  next => simp [Pending.settle, Nat.not_le.mpr h]
  next hu hj => rw [Pending.settle] <;> simp_all

theorem Operand.ne_nil {fits : Nat → Prop} {n : Nat} {ts : List Token} {e : Expr}
    {d : List SyntaxError} (h : Operand fits n ts e d) : ts ≠ [] :=
  match h with
  | .tighter h => h.ne_nil
  | .binary .. | .logical .. | .call .. | .callEmpty .. => by simp
  | .not .. | .negate .. | .literal .. | .lookup .. | .grouping .. => List.cons_ne_nil _ _
termination_by structural h

theorem Expression.ne_nil {fits : Nat → Prop} {ts : List Token} {e : Expr} {d : List SyntaxError}
    (h : Expression fits ts e d) : ts ≠ [] := by
  cases h with
  | assignment => exact List.cons_ne_nil _ _
  | logicOr h => exact h.ne_nil

end Grammar

namespace Builder

open Grammar

variable {b : Builder} {t : Token} {use : Use} {pending : List Pending} {e : Expr}

theorem atOperand_constant (h : t.kind ∈ constants) :
    b.atOperand use pending t =
      (b.complain (overflow pending [t])).moveTo
        (.operator use pending (.literal (t.literal.getD .nil))) := by
  simp only [constants, List.mem_cons, List.not_mem_nil, or_false] at h
  obtain h | h | h | h | h := h <;> simp [atOperand, h, checkArguments_eq_complain]

theorem atOperand_identifier (h : t.kind = .identifier) :
    b.atOperand use pending t =
      (b.complain (overflow pending [t])).moveTo
        (.operator use pending (.lookup t.lexeme t.line)) := by
  simp [atOperand, h, checkArguments_eq_complain]

theorem atOperand_leftParen (h : t.kind = .leftParen) :
    b.atOperand use pending t =
      (b.complain (overflow pending [t])).moveTo (.operand use (.group :: pending)) := by
  simp [atOperand, h, checkArguments_eq_complain]

theorem atOperand_bang (h : t.kind = .bang) :
    b.atOperand use pending t =
      (b.complain (overflow pending [t])).moveTo
        (.operand use (.unary .not t.line :: pending)) := by
  simp [atOperand, h, checkArguments_eq_complain]

theorem atOperand_minus (h : t.kind = .minus) :
    b.atOperand use pending t =
      (b.complain (overflow pending [t])).moveTo
        (.operand use (.unary .negate t.line :: pending)) := by
  simp [atOperand, h, checkArguments_eq_complain]

theorem atOperator_leftParen (h : t.kind = .leftParen) :
    b.atOperator use pending e t = b.moveTo (.firstArgument use pending e) := by
  simp [atOperator, h]

theorem atOperator_equal (h : t.kind = .equal) (hp : Free 0 pending) :
    b.atOperator use pending e t = b.moveTo (.operand use (.assign e t.line :: pending)) := by
  simp [atOperator, h, hp.settle]

/-- An operator behind an operand takes it if no operator waits for it that binds as tight. -/
theorem atOperator_connective {n : Nat} {c : Connective} (h : (t.kind, c) ∈ operators n)
    (hp : Free n pending) :
    b.atOperator use pending e t = b.moveTo (.operand use (.joined e c t.line :: pending)) := by
  obtain ⟨hk, rfl⟩ := ofKind?_of_operators h
  unfold atOperator
  split
  next h => simp [h, Connective.ofKind?, BinaryOp.ofKind?] at hk
  next h => simp [h, Connective.ofKind?, BinaryOp.ofKind?] at hk
  next => simp [hk, hp.settle]

theorem atOperator_of_closes (h : Closes t.kind) :
    b.atOperator use pending e t = b.atEnd use pending e t := by
  obtain ⟨hl, he, hc⟩ := h
  unfold atOperator
  split
  · contradiction
  · contradiction
  · rw [hc]

theorem atOperator_joined {n : Nat} {left : Expr} {c : Connective} {line : Nat}
    (hc : c.level = n) (hn : n < 8) (h : Follows n t.kind) :
    b.atOperator use (.joined left c line :: pending) e t =
      b.atOperator use pending (c.join left e line) t := by
  obtain h | ⟨hl, h⟩ := h
  · omega
  unfold atOperator
  split
  · contradiction
  · simp [Pending.settle]
  · split
    next c' hc' => simp [Pending.settle, hc, h c' hc']
    next => rfl

theorem atOperator_unary {op : UnaryOp} {line : Nat} (h : Follows 7 t.kind) :
    b.atOperator use (.unary op line :: pending) e t =
      b.atOperator use pending (.unary op e line) t := by
  obtain h | ⟨hl, h⟩ := h
  · omega
  unfold atOperator
  split
  · contradiction
  · rfl
  · split <;> rfl

theorem feed_firstArgument (h : t.kind = .rightParen) :
    (b.moveTo (.firstArgument use pending e)).feed t =
      b.moveTo (.operator use pending (.call e [] t.line)) :=
  if_pos h

theorem atEnd_assign {name : String} {line line' : Nat} :
    b.atEnd use (.assign (.lookup name line) line' :: pending) e t =
      b.atEnd use pending (.assign name e line) t := rfl

theorem atEnd_group (h : t.kind = .rightParen) :
    b.atEnd use (.group :: pending) e t = b.moveTo (.operator use pending (.grouping e)) := by
  simp [atEnd, Pending.complete, need, h]

/-- Reads the first token of an operand like `b₀` behind `pending`. -/
def Enters (b b₀ : Builder) (use : Use) (pending : List Pending) : Prop :=
  ∀ t, Starts t.kind → b.feed t = b₀.atOperand use pending t

theorem enters_operand : (b.moveTo (.operand use pending)).Enters b use pending :=
  fun _ _ => feed_operand

theorem Enters.of_ite {b₀ : Builder} {k : TokenKind} {other : Token → Builder} (hk : ¬ Starts k)
    (h : ∀ t, b.feed t = if t.kind = k then other t else b₀.atOperand use pending t) :
    b.Enters b₀ use pending := by
  intro t ht
  rw [h t, if_neg]
  rintro rfl
  exact hk ht

theorem enters_firstArgument :
    (b.moveTo (.firstArgument use pending e)).Enters b use (.arguments e [] :: pending) :=
  .of_ite (k := .rightParen) (by simp [Starts, constants]) fun t => by
    rw [← moveTo_atOperand]
    rfl

/-- Reads `t` behind the arguments `args` of a call. -/
def afterArgument (b : Builder) (use : Use) (pending : List Pending) (callee : Expr)
    (args : List Expr) (t : Token) : Builder :=
  if t.kind = .comma then b.moveTo (.operand use (.arguments callee args.reverse :: pending))
  else
    b.need .rightParen "Expect ')' after arguments." t
      (b.moveTo (.operator use pending (.call callee args t.line)))

theorem afterArgument_comma {callee : Expr} {args : List Expr} (h : t.kind = .comma) :
    b.afterArgument use pending callee args t =
      b.moveTo (.operand use (.arguments callee args.reverse :: pending)) := by
  simp [afterArgument, h]

theorem afterArgument_rightParen {callee : Expr} {args : List Expr} (h : t.kind = .rightParen) :
    b.afterArgument use pending callee args t =
      b.moveTo (.operator use pending (.call callee args t.line)) := by
  simp [afterArgument, need, h]

theorem atEnd_arguments {callee : Expr} {done : List Expr} :
    b.atEnd use (.arguments callee done :: pending) e t =
      b.afterArgument use pending callee (done.reverse ++ [e]) t := by
  simp [atEnd, afterArgument, Pending.complete]

/-- Two operands are read with the operator of a level between them. -/
theorem Reads.joined {b₀ : Builder} {n : Nat} {c : Connective} {op : Token} {ts us : List Token}
    {left right : Expr} {d d' : List SyntaxError}
    (h : b.Reads ts (fun t => Follows n t.kind) fun t =>
      (b₀.complain (overflow pending ts ++ d)).atOperator use pending left t)
    (ho : (op.kind, c) ∈ operators n) (hn : ts ≠ []) (hp : n < 7 → Free n pending)
    (hr : ∀ b' : Builder, (n + 1 < 7 → Free (n + 1) (.joined left c op.line :: pending)) →
      (b'.moveTo (.operand use (.joined left c op.line :: pending))).Reads us
        (fun t => Follows (n + 1) t.kind) fun t =>
          (b'.complain d').atOperator use (.joined left c op.line :: pending) right t) :
    b.Reads (ts ++ op :: us) (fun t => Follows n t.kind) fun t =>
      (b₀.complain (overflow pending (ts ++ op :: us) ++ (d ++ d'))).atOperator use pending
        (c.join left right op.line) t := by
  obtain ⟨hk, hc⟩ := ofKind?_of_operators ho
  have hl : n < 7 := hc ▸ level_lt c
  have hf : Free (n + 1) (.joined left c op.line :: pending) := hc ▸ Nat.lt_succ_self _
  refine h.snoc (.of_connective hk hc.le) ?_ ?_
  · intro h
    simp [h, Connective.ofKind?, BinaryOp.ofKind?] at hk
  rw [atOperator_connective ho (hp hl)]
  refine (hr _ fun _ => hf).imp fun t ht => ⟨ht.tighter, ?_⟩
  rw [atOperator_joined hc (by omega) ht, overflow_append hn]
  simp

end Builder

end ClosureLang
