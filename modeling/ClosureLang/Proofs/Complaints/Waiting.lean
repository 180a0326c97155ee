import ClosureLang.Proofs.Grammar.Contexts

namespace ClosureLang.Grammar

/-- Lists of any length are read. -/
abbrev AnyLength (_ : Nat) : Prop := True

/-- Every complaint is about too many arguments, at one of the tokens. -/
def Excesses (ts : List Token) (d : List SyntaxError) : Prop :=
  ∀ x ∈ d, ∃ t ∈ ts, x = .tooManyArguments 255 t.line

namespace Excesses

variable {ts us : List Token} {d d' : List SyntaxError}

theorem nil : Excesses ts [] :=
  fun _ hx => absurd hx List.not_mem_nil

theorem mono (h : Excesses ts d) (hs : ts ⊆ us) : Excesses us d := by
  intro x hx
  obtain ⟨t, ht, rfl⟩ := h x hx
  exact ⟨t, hs ht, rfl⟩

theorem append (h : Excesses ts d) (h' : Excesses ts d') : Excesses ts (d ++ d') :=
  List.forall_mem_append.mpr ⟨h, h'⟩

theorem of_excess {n : Nat} {t : Token} (ht : t ∈ ts) :
    Excesses ts (excess .tooManyArguments n t) := by
  unfold excess
  split
  · exact fun x hx => ⟨t, ht, List.mem_singleton.mp hx⟩
  · exact .nil

theorem of_overflow {pending : List Pending} : Excesses ts (overflow pending ts) := by
  unfold overflow
  split
  next callee done rest =>
    cases ts with
    | nil => exact .nil
    | cons t ts => simpa using of_excess (n := done.length) (List.mem_cons_self (a := t) (l := ts))
  next => exact .nil

end Excesses

mutual

theorem Expression.excesses {ts : List Token} {e : Expr} {d : List SyntaxError}
    (h : Expression AnyLength ts e d) : Excesses ts d := by
  match h with
  | .assignment _ _ hv => exact hv.excesses.mono (by simp)
  | .logicOr h => exact h.excesses
termination_by structural h

theorem Operand.excesses {n : Nat} {ts : List Token} {e : Expr} {d : List SyntaxError}
    (h : Operand AnyLength n ts e d) : Excesses ts d := by
  match h with
  | .tighter h => exact h.excesses
  | .not _ h | .negate _ h | .callEmpty h _ _ _ | .grouping _ h _ =>
    exact h.excesses.mono fun _ ht => by simp [ht]
  | .binary _ hl hr | .logical _ hl hr =>
    exact (hl.excesses.mono (by simp)).append (hr.excesses.mono (by simp))
  | .call h _ ha _ _ =>
    exact (h.excesses.mono (by simp)).append (ha.excesses.mono fun _ ht => by simp [ht])
  | .literal _ | .lookup _ => exact .nil
termination_by structural h

theorem Arguments.excesses {ts : List Token} {args : List Expr} {d : List SyntaxError}
    (h : Arguments AnyLength ts args d) : Excesses ts d := by
  match h with
  | .first h => exact h.excesses
  | .next h _ he =>
    exact ((h.excesses.mono (by simp)).append (.of_excess (by simp))).append
      (he.excesses.mono (by simp))
termination_by structural h

end

/-- The kinds of token that are operators in front of an operand. -/
def prefixes : List (TokenKind × UnaryOp) :=
  [(.bang, .not), (.minus, .negate)]

theorem Operand.unary {fits : Nat → Prop} {op : Token} {o : UnaryOp} {ts : List Token} {e : Expr}
    {d : List SyntaxError} (ho : (op.kind, o) ∈ prefixes) (h : Operand fits 7 ts e d) :
    Operand fits 7 (op :: ts) (.unary o e op.line) d := by
  simp only [prefixes, List.mem_cons, Prod.mk.injEq, List.not_mem_nil, or_false] at ho
  obtain ⟨hk, rfl⟩ | ⟨hk, rfl⟩ := ho
  · exact .not hk h
  · exact .negate hk h

/-- The tokens of what waits in front of a place of level `n`, and the complaints about them. -/
inductive Waits : Nat → List Pending → List Token → List SyntaxError → Prop where
  | nil : Waits 0 [] [] []
  | group {n : Nat} {pending : List Pending} {ts : List Token} {d : List SyntaxError}
      {opening : Token} (h : Waits n pending ts d) (ho : opening.kind = .leftParen) :
      Waits 0 (.group :: pending) (ts ++ [opening]) (d ++ overflow pending [opening])
  | firstArgument {n : Nat} {pending : List Pending} {ts us : List Token}
      {d d' : List SyntaxError} {callee : Expr} {opening : Token} (h : Waits n pending ts d)
      (hc : Operand AnyLength 8 us callee d') (ho : opening.kind = .leftParen) :
      Waits 0 (.arguments callee [] :: pending) (ts ++ us ++ [opening])
        (d ++ overflow pending us ++ d')
  | nextArgument {n : Nat} {pending : List Pending} {ts us vs : List Token}
      {d d' d'' : List SyntaxError} {callee : Expr} {done : List Expr} {opening comma : Token}
      (h : Waits n pending ts d) (hc : Operand AnyLength 8 us callee d')
      (ho : opening.kind = .leftParen) (ha : Arguments AnyLength vs done.reverse d'')
      (hk : comma.kind = .comma) :
      Waits 0 (.arguments callee done :: pending) (ts ++ us ++ opening :: (vs ++ [comma]))
        (d ++ overflow pending us ++ d' ++ d'')
  | unary {n : Nat} {pending : List Pending} {ts : List Token} {d : List SyntaxError}
      {op : Token} {o : UnaryOp} (h : Waits n pending ts d) (ho : (op.kind, o) ∈ prefixes) :
      Waits 7 (.unary o op.line :: pending) (ts ++ [op]) (d ++ overflow pending [op])
  | joined {n m : Nat} {pending : List Pending} {ts us : List Token} {d d' : List SyntaxError}
      {left : Expr} {c : Connective} {op : Token} (h : Waits n pending ts d) (hn : n ≤ m)
      (hl : Operand AnyLength m us left d') (ho : (op.kind, c) ∈ operators m) :
      Waits (m + 1) (.joined left c op.line :: pending) (ts ++ us ++ [op])
        (d ++ overflow pending us ++ d')
  | assign {pending : List Pending} {ts us : List Token} {d d' : List SyntaxError}
      {target : Expr} {eq : Token} (h : Waits 0 pending ts d)
      (ht : Operand AnyLength 1 us target d') (he : eq.kind = .equal) :
      Waits 0 (.assign target eq.line :: pending) (ts ++ us ++ [eq])
        (d ++ overflow pending us ++ d')

namespace Waits

variable {n : Nat} {pending : List Pending} {ts us : List Token} {d d' : List SyntaxError}
  {e : Expr}

theorem excesses (h : Waits n pending ts d) : Excesses ts d := by
  induction h with
  | nil => exact .nil
  | group _ _ ih | unary _ _ ih =>
    exact (ih.mono (by simp)).append (Excesses.of_overflow.mono (by simp))
  | firstArgument _ ho _ ih | joined _ _ ho _ ih | assign _ ho _ ih =>
    exact ((ih.mono (by simp)).append (Excesses.of_overflow.mono (by simp))).append
      (ho.excesses.mono (by simp))
  | nextArgument _ hc _ ha _ ih =>
    exact (((ih.mono (by simp)).append (Excesses.of_overflow.mono (by simp))).append
      (hc.excesses.mono (by simp))).append (ha.excesses.mono fun _ ht => by simp [ht])

theorem level_le (h : Waits n pending ts d) : n ≤ 7 := by
  cases h with
  | joined _ _ _ ho => exact (ofKind?_of_operators ho).2 ▸ level_lt _
  | _ => omega

/-- Applying the waiting operators that bind at least as tightly as `k` keeps the tokens and the
complaints together. -/
theorem settle {k m : Nat} (h : Waits n pending ts d) (he : Operand AnyLength m us e d')
    (hn : n ≤ m) (hm : k ≤ m) (hk : k ≤ 7) :
    ∃ n' ts' us' d₁ d₂, Waits n' (Pending.settle k e pending).2 ts' d₁ ∧ n' ≤ k ∧
      Operand AnyLength k us' (Pending.settle k e pending).1 d₂ ∧ ts ++ us = ts' ++ us' ∧
      d ++ overflow pending us ++ d' =
        d₁ ++ overflow (Pending.settle k e pending).2 us' ++ d₂ := by
  induction h generalizing m us e d' with
  | @unary n pending ts d op o h ho ih =>
    obtain ⟨n', ts', us', d₁, d₂, hw, hn', he', hs, hd⟩ :=
      ih (Operand.unary ho (he.loosen hn)) h.level_le hk
    exact ⟨n', ts', us', d₁, d₂, hw, hn', he', by simpa using hs, by
      rw [overflow_cons] at hd
      simpa [Pending.settle] using hd⟩
  | @joined n m' pending ts vs d d₀ left c op h hn' hl ho ih =>
    have hc : c.level = m' := (ofKind?_of_operators ho).2
    unfold Pending.settle
    split
    next hle =>
      obtain ⟨n', ts', us', d₁, d₂, hw, hn', he', hs, hd⟩ :=
        ih (.joined ho hl (he.loosen hn)) hn' (hc ▸ hle)
      exact ⟨n', ts', us', d₁, d₂, hw, hn', he', by simpa using hs, by
        rw [overflow_append hl.ne_nil] at hd
        simpa using hd⟩
    next hlt => exact ⟨_, _, _, _, _, .joined h hn' hl ho, by omega, he.loosen hm, rfl, rfl⟩
  | nil => exact ⟨_, _, _, _, _, .nil, by omega, he.loosen hm, rfl, rfl⟩
  | group h ho => exact ⟨_, _, _, _, _, .group h ho, by omega, he.loosen hm, rfl, rfl⟩
  | firstArgument h hc ho =>
    exact ⟨_, _, _, _, _, .firstArgument h hc ho, by omega, he.loosen hm, rfl, rfl⟩
  | nextArgument h hc ho ha hk' =>
    exact ⟨_, _, _, _, _, .nextArgument h hc ho ha hk', by omega, he.loosen hm, rfl, rfl⟩
  | assign h ht hq => exact ⟨_, _, _, _, _, .assign h ht hq, by omega, he.loosen hm, rfl, rfl⟩

end Waits

/-- The tokens hold an assignment to what is no name, its equals sign on `line`. The value goes up
to a token with which no expression goes on, and `own` are the complaints that it deserves. -/
inductive Misassigned : List Token → Nat → List SyntaxError → Prop where
  | mk {front target value rest : List Token} {eq closing : Token} {e v : Expr}
      {d own : List SyntaxError} (ht : Operand AnyLength 1 target e d)
      (hn : ∀ name line, e ≠ .lookup name line) (he : eq.kind = .equal)
      (hv : Expression AnyLength value v own) (hc : Closes closing.kind) :
      Misassigned (front ++ target ++ eq :: (value ++ closing :: rest)) eq.line own

theorem Misassigned.append {ts : List Token} {line : Nat} {own : List SyntaxError}
    (h : Misassigned ts line own) (us : List Token) : Misassigned (ts ++ us) line own := by
  obtain ⟨ht, hn, he, hv, hc⟩ := h
  simpa using Misassigned.mk ht hn he hv hc

/-- An expression for a place of level `n`; any expression fills a place of level 0. -/
def Filled : Nat → List Token → Expr → List SyntaxError → Prop
  | 0, ts, e, d => Expression AnyLength ts e d
  | n + 1, ts, e, d => Operand AnyLength (n + 1) ts e d

theorem Operand.filled {m n : Nat} {ts : List Token} {e : Expr} {d : List SyntaxError}
    (h : Operand AnyLength m ts e d) (hm : 0 < m) (hn : n ≤ m) : Filled n ts e d := by
  cases n with
  | zero => exact .logicOr (h.loosen hm)
  | succ n => exact h.loosen hn

theorem Operand.quiet_of_lookup {fits : Nat → Prop} {n : Nat} {ts : List Token} {e : Expr}
    {d : List SyntaxError} {name : String} {line : Nat} (h : Operand fits n ts e d)
    (he : e = .lookup name line) : d = [] := by
  match h with
  | .tighter h => exact h.quiet_of_lookup he
  | .lookup ht => rfl
  | .binary .. | .logical .. | .not .. | .negate .. | .call .. | .callEmpty .. | .literal _
  | .grouping .. => cases he
termination_by structural h

/-- What an expression at its end makes of the tokens up to there, and of the complaints. -/
def Ended : Pending.Completed → List Token → List SyntaxError → Prop
  | .whole _, _, _ => True
  | .grouped e rest, ts, d =>
    ∃ n us opening vs d₁ d₂, Waits n rest us d₁ ∧ opening.kind = .leftParen ∧
      Expression AnyLength vs e d₂ ∧ ts = us ++ opening :: vs ∧
      d = d₁ ++ overflow rest [opening] ++ d₂
  | .argument callee done e rest, ts, d =>
    ∃ n us vs opening ws d₁ d₂ d₃, Waits n rest us d₁ ∧ Operand AnyLength 8 vs callee d₂ ∧
      opening.kind = .leftParen ∧ Arguments AnyLength ws (e :: done).reverse d₃ ∧
      ts = us ++ vs ++ opening :: ws ∧ d = d₁ ++ overflow rest vs ++ d₂ ++ d₃
  | .badTarget line, ts, d =>
    ∃ us target eq value e v d₁ d₂ own, Excesses (us ++ target) d₁ ∧
      Operand AnyLength 1 target e d₂ ∧ (∀ name line, e ≠ .lookup name line) ∧
      eq.kind = .equal ∧ eq.line = line ∧ Expression AnyLength value v own ∧
      ts = us ++ target ++ eq :: value ∧ d = d₁ ++ own

/-- An expression that ends is given with the tokens and complaints of all that waited in front of
it, divided at the equals sign if it assigns to what is no name. -/
theorem Waits.complete {n : Nat} {pending : List Pending} {ts us : List Token} {e : Expr}
    {d d' : List SyntaxError} (h : Waits n pending ts d) (he : Filled n us e d') :
    Ended (Pending.complete e pending) (ts ++ us) (d ++ overflow pending us ++ d') := by
  induction h generalizing us e d' with
  | nil => trivial
  | group h ho => exact ⟨_, _, _, _, _, _, h, ho, he, by simp, by simp⟩
  | firstArgument h hc ho =>
    exact ⟨_, _, _, _, _, _, _, _, h, hc, ho, .first he, by simp, by simp⟩
  | @nextArgument n pending ts vs ws d d₁ d₂ callee done opening comma h hc ho ha hk =>
    obtain ⟨t, us, rfl⟩ := List.exists_cons_of_ne_nil (Expression.ne_nil he)
    have ha' := ha.next hk he
    rw [← List.reverse_cons] at ha'
    refine ⟨n, ts, vs, opening, ws ++ comma :: t :: us, _, _, _, h, hc, ho, ha', by simp, ?_⟩
    simp [overflow]
  | @unary n pending ts d op o h ho ih =>
    have hu : Operand AnyLength 7 (op :: us) (.unary o e op.line) d' := .unary ho he
    have hi := ih (hu.filled (by omega) h.level_le)
    rw [overflow_cons] at hi
    simpa [Pending.complete] using hi
  | @joined n m pending ts vs d d₀ left c op h hn hl ho ih =>
    have hm : 0 < m := (ofKind?_of_operators ho).2 ▸ level_pos c
    have hj : Operand AnyLength m (vs ++ op :: us) (c.join left e op.line) (d₀ ++ d') :=
      .joined ho hl he
    have hi := ih (hj.filled hm hn)
    rw [overflow_append hl.ne_nil] at hi
    simpa [Pending.complete] using hi
  | @assign pending ts vs d d₀ target eq h ht hq ih =>
    have hbad (hn : ∀ name line, target ≠ .lookup name line) :
        Ended (.badTarget eq.line) (ts ++ vs ++ [eq] ++ us)
          (d ++ overflow pending vs ++ d₀ ++ d') := by
      have hx : Excesses (ts ++ vs) (d ++ overflow pending vs ++ d₀) :=
        ((h.excesses.mono (by simp)).append (Excesses.of_overflow.mono (by simp))).append
          (ht.excesses.mono (by simp))
      exact ⟨ts, vs, eq, us, target, e, _, _, _, hx, ht, hn, hq, rfl, he, by simp, rfl⟩
    cases target with
    | lookup name line =>
      have hquiet := ht.quiet_of_lookup rfl
      obtain ⟨t, hk, rfl, rfl, rfl⟩ := ht.eq_of_lookup rfl
      have ha : Expression AnyLength (t :: eq :: us) (.assign t.lexeme e t.line) d' :=
        .assignment hk hq he
      have hi := ih ha
      rw [overflow_cons] at hi
      simpa [Pending.complete, hquiet] using hi
    | _ => simpa [Pending.complete] using hbad (by simp)

end ClosureLang.Grammar
