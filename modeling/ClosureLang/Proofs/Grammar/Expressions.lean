import ClosureLang.Proofs.Grammar.Operands

namespace ClosureLang

namespace Grammar

mutual

/-- An expression is read, and the builder stands behind it with the value of the expression. -/
theorem Expression.reads {fits : Nat → Prop} {ts : List Token} {e : Expr} {d : List SyntaxError}
    {b b₀ : Builder} {use : Use} {pending : List Pending} (h : Expression fits ts e d)
    (hb : b.Enters b₀ use pending) (hp : Free 0 pending) :
    b.Reads ts (fun t => Closes t.kind) fun t =>
      (b₀.complain (overflow pending ts ++ d)).atEnd use pending e t := by
  match h with
  | @Expression.assignment _ name eq ts value d hn he hv =>
    refine .cons (by simp [hn]) (.cons (by simp [he]) ?_)
    rw [hb name (.inr (by simp [hn])), Builder.atOperand_identifier hn]
    rw [Builder.feed_operator, Builder.atOperator_equal he hp]
    refine (hv.reads Builder.enters_operand (by trivial)).imp fun t ht => ⟨ht, ?_⟩
    rw [Builder.atEnd_assign, overflow_cons name (eq :: ts)]
    simp
  | .logicOr h =>
    refine (h.reads hb fun _ => hp.tighter).imp fun t ht => ⟨ht.follows, ?_⟩
    exact Builder.atOperator_of_closes ht
termination_by structural h

/-- An operand of a level is read whatever waits in front of it, as long as nothing there binds
tighter. -/
theorem Operand.reads {fits : Nat → Prop} {n : Nat} {ts : List Token} {e : Expr}
    {d : List SyntaxError} {b b₀ : Builder} {use : Use} {pending : List Pending}
    (h : Operand fits n ts e d) (hb : b.Enters b₀ use pending) (hp : n < 7 → Free n pending) :
    b.Reads ts (fun t => Follows n t.kind) fun t =>
      (b₀.complain (overflow pending ts ++ d)).atOperator use pending e t := by
  match h with
  | .tighter h =>
    exact (h.reads hb fun hn => (hp (by omega)).tighter).imp fun t ht => ⟨ht.tighter, rfl⟩
  | .binary ho hl hr =>
    exact (hl.reads hb hp).joined ho hl.ne_nil hp fun _ hf => hr.reads Builder.enters_operand hf
  | .logical ho hl hr =>
    exact (hl.reads hb hp).joined ho hl.ne_nil hp fun _ hf => hr.reads Builder.enters_operand hf
  | @Operand.not _ op ts e d ho h =>
    refine .cons (by simp [ho]) ?_
    rw [hb op (.inr (by simp [ho])), Builder.atOperand_bang ho]
    refine (h.reads Builder.enters_operand (by omega)).imp fun t ht => ⟨ht, ?_⟩
    rw [Builder.atOperator_unary ht, overflow_cons op ts]
    simp
  | @Operand.negate _ op ts e d ho h =>
    refine .cons (by simp [ho]) ?_
    rw [hb op (.inr (by simp [ho])), Builder.atOperand_minus ho]
    refine (h.reads Builder.enters_operand (by omega)).imp fun t ht => ⟨ht, ?_⟩
    rw [Builder.atOperator_unary ht, overflow_cons op ts]
    simp
  | @Operand.call _ opening closing ts us callee args d d' h ho ha _ hc =>
    refine (h.reads hb (by omega)).snoc (.inl (by omega)) (by simp [ho]) ?_
    rw [Builder.atOperator_leftParen ho]
    refine (ha.reads Builder.enters_firstArgument).snoc (closes_of_eq (.inl hc)) (by simp [hc])
      (.nil fun t _ => ?_)
    rw [Builder.afterArgument_rightParen hc, Builder.feed_operator, overflow_append h.ne_nil]
    simp
  | @Operand.callEmpty _ opening closing ts callee d h ho _ hc =>
    refine (h.reads hb (by omega)).snoc (.inl (by omega)) (by simp [ho]) ?_
    rw [Builder.atOperator_leftParen ho]
    refine .cons (by simp [hc]) (.nil fun t _ => ?_)
    rw [Builder.feed_firstArgument hc, Builder.feed_operator, overflow_append h.ne_nil]
  | @Operand.literal _ t ht =>
    refine .cons ?_ (.nil fun t' _ => ?_)
    · intro h
      simp [h, constants] at ht
    · rw [hb t (.inl ht), Builder.atOperand_constant ht]
      simp
  | @Operand.lookup _ t ht =>
    refine .cons (by simp [ht]) (.nil fun t' _ => ?_)
    rw [hb t (.inr (by simp [ht])), Builder.atOperand_identifier ht]
    simp
  | @Operand.grouping _ opening closing ts e d ho h hc =>
    refine .cons (by simp [ho]) ?_
    rw [hb opening (.inr (by simp [ho])), Builder.atOperand_leftParen ho]
    refine (h.reads Builder.enters_operand (by trivial)).snoc (closes_of_eq (.inl hc))
      (by simp [hc]) (.nil fun t _ => ?_)
    rw [Builder.atEnd_group hc, Builder.feed_operator, overflow_cons opening (ts ++ [closing])]
    simp
termination_by structural h

theorem Arguments.reads {fits : Nat → Prop} {callee : Expr} {ts : List Token} {args : List Expr}
    {d : List SyntaxError} {b b₀ : Builder} {use : Use} {pending : List Pending}
    (h : Arguments fits ts args d) (hb : b.Enters b₀ use (.arguments callee [] :: pending)) :
    b.Reads ts (fun t => Closes t.kind) fun t =>
      (b₀.complain d).afterArgument use pending callee args t := by
  match h with
  | .first h =>
    refine (h.reads hb trivial).imp fun t ht => ⟨ht, ?_⟩
    rw [Builder.atEnd_arguments]
    simp
  | @Arguments.next _ comma t ts us es e d d' h hc he =>
    refine (h.reads hb).snoc (closes_of_eq (.inr (.inl hc))) (by simp [hc]) ?_
    rw [Builder.afterArgument_comma hc]
    refine (he.reads Builder.enters_operand (by trivial)).imp fun t' ht => ⟨ht, ?_⟩
    rw [Builder.atEnd_arguments]
    simp [overflow]
termination_by structural h

end

end Grammar

end ClosureLang
