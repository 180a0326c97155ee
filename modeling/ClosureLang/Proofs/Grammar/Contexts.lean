import ClosureLang.Proofs.Grammar.Operands

namespace ClosureLang.Grammar

/-- An expression for a place of level `n`; any expression fills a place of level 0. -/
def Fills : Nat → List Token → Expr → Prop
  | 0, ts, e => Expression (· ≤ 255) ts e []
  | n + 1, ts, e => Operand (· ≤ 255) (n + 1) ts e []

/-- The tokens of what waits in front of a place of level `n`. -/
inductive Context : Nat → List Pending → List Token → Prop where
  | nil : Context 0 [] []
  | group {n : Nat} {pending : List Pending} {ts : List Token} {opening : Token}
      (h : Context n pending ts) (ho : opening.kind = .leftParen) :
      Context 0 (.group :: pending) (ts ++ [opening])
  | firstArgument {n : Nat} {pending : List Pending} {ts us : List Token} {callee : Expr}
      {opening : Token} (h : Context n pending ts) (hc : Operand (· ≤ 255) 8 us callee [])
      (ho : opening.kind = .leftParen) :
      Context 0 (.arguments callee [] :: pending) (ts ++ us ++ [opening])
  | nextArgument {n : Nat} {pending : List Pending} {ts us vs : List Token} {callee : Expr}
      {done : List Expr} {opening comma : Token} (h : Context n pending ts)
      (hc : Operand (· ≤ 255) 8 us callee []) (ho : opening.kind = .leftParen)
      (ha : Arguments (· ≤ 255) vs done.reverse []) (hl : done.length < 255)
      (hk : comma.kind = .comma) :
      Context 0 (.arguments callee done :: pending) (ts ++ us ++ opening :: (vs ++ [comma]))
  | not {n : Nat} {pending : List Pending} {ts : List Token} {op : Token}
      (h : Context n pending ts) (ho : op.kind = .bang) :
      Context 7 (.unary .not op.line :: pending) (ts ++ [op])
  | negate {n : Nat} {pending : List Pending} {ts : List Token} {op : Token}
      (h : Context n pending ts) (ho : op.kind = .minus) :
      Context 7 (.unary .negate op.line :: pending) (ts ++ [op])
  | joined {n m : Nat} {pending : List Pending} {ts us : List Token} {left : Expr}
      {c : Connective} {op : Token} (h : Context n pending ts) (hn : n ≤ m)
      (hl : Operand (· ≤ 255) m us left []) (ho : (op.kind, c) ∈ operators m) :
      Context (m + 1) (.joined left c op.line :: pending) (ts ++ us ++ [op])
  | assign {pending : List Pending} {ts us : List Token} {target : Expr} {eq : Token}
      (h : Context 0 pending ts) (ht : Operand (· ≤ 255) 1 us target [])
      (he : eq.kind = .equal) :
      Context 0 (.assign target eq.line :: pending) (ts ++ us ++ [eq])

theorem Operand.fills {m n : Nat} {ts : List Token} {e : Expr}
    (h : Operand (· ≤ 255) m ts e []) (hm : 0 < m) (hn : n ≤ m) : Fills n ts e := by
  cases n with
  | zero => exact .logicOr (h.loosen hm)
  | succ n => exact h.loosen hn

theorem Operand.of_zero {fits : Nat → Prop} {ts : List Token} {e : Expr} {d : List SyntaxError}
    (h : Operand fits 0 ts e d) : Operand fits 1 ts e d := by
  cases h with
  | tighter h => exact h
  | binary ho | logical ho => cases ho

theorem Context.level_le {n : Nat} {pending : List Pending} {ts : List Token}
    (h : Context n pending ts) : n ≤ 7 := by
  cases h with
  | joined _ _ _ ho => exact (ofKind?_of_operators ho).2 ▸ level_lt _
  | _ => omega

theorem Operand.eq_of_lookup {fits : Nat → Prop} {n : Nat} {ts : List Token} {e : Expr}
    {d : List SyntaxError} {name : String} {line : Nat} (h : Operand fits n ts e d)
    (he : e = .lookup name line) :
    ∃ t, t.kind = .identifier ∧ ts = [t] ∧ name = t.lexeme ∧ line = t.line := by
  match h with
  | .tighter h => exact h.eq_of_lookup he
  | .lookup ht =>
    cases he
    exact ⟨_, ht, rfl, rfl, rfl⟩
  | .binary .. | .logical .. | .not .. | .negate .. | .call .. | .callEmpty .. | .literal _
  | .grouping .. => cases he
termination_by structural h

/-- Applying the waiting operators that bind tighter keeps the tokens together. -/
theorem Context.settle {n k m : Nat} {pending : List Pending} {ts us : List Token} {e : Expr}
    (h : Context n pending ts) (he : Operand (· ≤ 255) m us e []) (hn : n ≤ m) (hm : k ≤ m)
    (hk : k ≤ 7) :
    ∃ n' ts' us', Context n' (Pending.settle k e pending).2 ts' ∧ n' ≤ k ∧
      Operand (· ≤ 255) k us' (Pending.settle k e pending).1 [] ∧ ts ++ us = ts' ++ us' := by
  induction h generalizing m us e with
  | not h ho ih =>
    obtain ⟨n', ts', us', hc, hn', he', hs⟩ :=
      ih (.not ho (he.loosen hn)) h.level_le hk
    exact ⟨n', ts', us', hc, hn', he', by simpa using hs⟩
  | negate h ho ih =>
    obtain ⟨n', ts', us', hc, hn', he', hs⟩ :=
      ih (.negate ho (he.loosen hn)) h.level_le hk
    exact ⟨n', ts', us', hc, hn', he', by simpa using hs⟩
  | @joined n m' pending ts vs left c op h hn' hl ho ih =>
    have hc : c.level = m' := (ofKind?_of_operators ho).2
    unfold Pending.settle
    split
    next hle =>
      obtain ⟨n', ts', us', hc, hn', he', hs⟩ :=
        ih (.joined ho hl (he.loosen hn)) hn' (hc ▸ hle)
      exact ⟨n', ts', us', hc, hn', he', by simpa using hs⟩
    next hlt => exact ⟨_, _, _, .joined h hn' hl ho, by omega, he.loosen hm, rfl⟩
  | nil => exact ⟨_, _, _, .nil, by omega, he.loosen hm, rfl⟩
  | group h ho => exact ⟨_, _, _, .group h ho, by omega, he.loosen hm, rfl⟩
  | firstArgument h hc ho => exact ⟨_, _, _, .firstArgument h hc ho, by omega, he.loosen hm, rfl⟩
  | nextArgument h hc ho ha hl hk =>
    exact ⟨_, _, _, .nextArgument h hc ho ha hl hk, by omega, he.loosen hm, rfl⟩
  | assign h ht hq => exact ⟨_, _, _, .assign h ht hq, by omega, he.loosen hm, rfl⟩

/-- What an expression at its end makes of the tokens up to there. -/
def Completes : Pending.Completed → List Token → Prop
  | .whole e, ts => Expression (· ≤ 255) ts e []
  | .grouped e rest, ts =>
    ∃ n us opening vs, Context n rest us ∧ opening.kind = .leftParen ∧
      Expression (· ≤ 255) vs e [] ∧ ts = us ++ opening :: vs
  | .argument callee done e rest, ts =>
    ∃ n us vs opening ws, Context n rest us ∧ Operand (· ≤ 255) 8 vs callee [] ∧
      opening.kind = .leftParen ∧ Arguments (· ≤ 255) ws (e :: done).reverse [] ∧
      done.length < 255 ∧ ts = us ++ vs ++ opening :: ws
  | .badTarget _, _ => True

/-- An expression that ends takes all operators that wait for it, and its tokens with theirs are an
expression. -/
theorem Context.complete {n : Nat} {pending : List Pending} {ts us : List Token} {e : Expr}
    (h : Context n pending ts) (he : Fills n us e) :
    Completes (Pending.complete e pending) (ts ++ us) := by
  induction h generalizing us e with
  | nil => exact he
  | group h ho => exact ⟨_, _, _, _, h, ho, he, by simp⟩
  | firstArgument h hc ho =>
    exact ⟨_, _, _, _, _, h, hc, ho, .first he, by simp, by simp⟩
  | @nextArgument n pending ts vs ws callee done opening comma h hc ho ha hl hk =>
    obtain ⟨t, us, rfl⟩ := List.exists_cons_of_ne_nil (Expression.ne_nil he)
    have ha' := ha.next hk he
    rw [List.length_reverse, excess_of_lt hl] at ha'
    refine ⟨n, ts, vs, opening, ws ++ comma :: t :: us, h, hc, ho, ?_, hl, by simp⟩
    simpa using ha'
  | @not n pending ts op h ho ih =>
    have hu : Operand (· ≤ 255) 7 (op :: us) (.unary .not e op.line) [] := .not ho he
    simpa [Pending.complete] using ih (hu.fills (by omega) h.level_le)
  | @negate n pending ts op h ho ih =>
    have hu : Operand (· ≤ 255) 7 (op :: us) (.unary .negate e op.line) [] := .negate ho he
    simpa [Pending.complete] using ih (hu.fills (by omega) h.level_le)
  | @joined n m pending ts vs left c op h hn hl ho ih =>
    have hm : 0 < m := (ofKind?_of_operators ho).2 ▸ level_pos c
    have hj : Operand (· ≤ 255) m (vs ++ op :: us) (c.join left e op.line) [] := .joined ho hl he
    simpa [Pending.complete] using ih (hj.fills hm hn)
  | @assign pending ts vs target eq h ht hq ih =>
    cases target with
    | lookup name line =>
      obtain ⟨t, hk, rfl, rfl, rfl⟩ := ht.eq_of_lookup rfl
      have ha : Expression (· ≤ 255) (t :: eq :: us) (.assign t.lexeme e t.line) [] :=
        .assignment hk hq he
      simpa [Pending.complete] using ih ha
    | _ => exact trivial

end ClosureLang.Grammar
