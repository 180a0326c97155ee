import ClosureLang.Proofs.Grammar.Openings

namespace ClosureLang.Builder

open Grammar

variable {b : Builder} {t : Token} {ts us vs : List Token} {place : Place} {inside : Bool}
  {use : Use} {pending : List Pending} {e : Expr}

/-- The tokens `ts` bring a builder to where `b` stands. -/
def Spells (b : Builder) (ts : List Token) : Prop :=
  ∃ place inside us vs, Opened place inside b.statements b.opened us ∧
    Reached place inside b.position vs ∧ ts = us ++ vs

/-- What `b` is once `t` is read behind `ts`, with an end token only between declarations. -/
inductive Takes (b : Builder) (ts : List Token) (t : Token) : Prop where
  | word (hk : t.kind ≠ .eof) (h : b.Spells (ts ++ [t]))
  | stop (hk : t.kind = .eof) (hp : b.position = .declaration) (h : b.Spells ts)

theorem Takes.of_kind {kind : TokenKind} (hk : t.kind = kind) (hn : kind ≠ .eof)
    (h : b.Spells (ts ++ [t])) : b.Takes ts t :=
  .word (hk ▸ hn) h

theorem Takes.of_need {kind : TokenKind} {message : String} {next : Builder}
    (h : (b.need kind message t next).errors = []) (hn : kind ≠ .eof)
    (hs : t.kind = kind → next.Spells (ts ++ [t])) : (b.need kind message t next).Takes ts t := by
  unfold need at h ⊢
  split at h
  next hk =>
    rw [if_pos hk]
    exact .of_kind hk hn (hs hk)
  next => cases h

theorem Takes.of_ite {p : Prop} [Decidable p] {b' : Builder} (h : (if p then b else b').errors = [])
    (hp : p → b.Takes ts t) (hn : ¬ p → b'.errors = [] → b'.Takes ts t) :
    (if p then b else b').Takes ts t := by
  split at h
  next h' =>
    rw [if_pos h']
    exact hp h'
  next h' =>
    rw [if_neg h']
    exact hn h' h

theorem afterExpression_takes (ho : Opened place inside b.statements b.opened ts)
    (hu : Introduces place inside use us) (he : Expression (· ≤ 255) vs e [])
    (h : (b.afterExpression use e t).errors = []) :
    (b.afterExpression use e t).Takes (ts ++ us ++ vs) t := by
  cases hu with
  | expression =>
    refine .of_need h nofun fun hk => ?_
    exact ⟨_, _, _, _, ho, .completed (ExprStmt.fits (.mk he hk)), by simp⟩
  | output hp hkey =>
    refine .of_need h nofun fun hk => ?_
    exact ⟨_, _, _, _, ho, .completed (Statement.fits (.output hkey he hk) hp), by simp⟩
  | initial hp hkey hname hq =>
    refine .of_need h nofun fun hk => ?_
    have hv := VarDecl.initialized hkey hname hq he hk
    exact ⟨_, _, _, _, ho, .completed (hv.fits hp), by simp⟩
  | ifCondition hp hkey hopen =>
    refine .of_need h nofun fun hk => ?_
    exact ⟨_, _, _, _, .thenBranch ho hp hkey hopen he hk, .statement, by simp⟩
  | loopCondition hp hkey hopen =>
    refine .of_need h nofun fun hk => ?_
    exact ⟨_, _, _, _, .loopBody ho hp hkey hopen he hk, .statement, by simp⟩
  | result hp hkey =>
    refine .of_need h nofun fun hk => ?_
    have hs := Statement.giveBack hkey (.some he) hk
    exact ⟨_, _, _, _, ho, .completed (hs.fits hp), by simp⟩
  | forCondition hp hkey hopen hi =>
    refine .of_need h nofun fun hk => ?_
    exact ⟨_, _, _, _, ho, .forIncrement (.forIncrement hp hkey hopen hi (.some he) hk), by simp⟩
  | forIncrement hp hkey hopen hi hc hs =>
    refine .of_need h nofun fun hk => ?_
    have ho' := ho.forBody hp hkey hopen hi hc hs (.some he) hk
    exact ⟨_, _, _, _, ho', .statement, by simp⟩

theorem atEnd_takes {ws : List Token} (ho : Opened place inside b.statements b.opened ts)
    (hu : Introduces place inside use us) (hc : Completes (Pending.complete e pending) ws)
    (h : (b.atEnd use pending e t).errors = []) :
    (b.atEnd use pending e t).Takes (ts ++ us ++ ws) t := by
  unfold atEnd at h ⊢
  split at h
  next e hw =>
    rw [hw] at hc
    exact afterExpression_takes ho hu hc h
  next e rest hw =>
    rw [hw] at hc
    obtain ⟨n, vs, opening, xs, hc, hopen, he, rfl⟩ := hc
    refine .of_need h nofun fun hk => ?_
    exact ⟨_, _, _, _, ho, .operator hu hc (.grouping hopen he hk), by simp⟩
  next callee done e rest hw =>
    rw [hw] at hc
    obtain ⟨n, vs, ys, opening, xs, hc, hf, hopen, ha, hl, rfl⟩ := hc
    split at h
    next hk =>
      have hr : Room (.arguments callee (e :: done) :: rest) →
          ∃ n, Context n (.arguments callee (e :: done) :: rest)
            (vs ++ ys ++ opening :: (xs ++ [t])) := by
        intro hr
        have hl' : (e :: done).length < 255 := Nat.lt_of_le_of_ne hl hr
        exact ⟨0, .nextArgument hc hf hopen ha hl' hk⟩
      rw [if_pos hk]
      exact .of_kind hk nofun ⟨_, _, _, _, ho, .operand hu hr, by simp⟩
    next hk =>
      rw [if_neg hk]
      refine .of_need h nofun fun hk => ?_
      have hl' : (e :: done).reverse.length ≤ 255 := by simpa using hl
      exact ⟨_, _, _, _, ho, .operator hu hc (.call hf hopen ha hl' hk), by simp⟩
  next => cases h

/-- A token that is read without complaint behind an operand keeps the tokens spelt, whether it goes
on with the expression or ends it. -/
theorem atOperator_takes {n : Nat} {ws : List Token}
    (ho : Opened place inside b.statements b.opened ts) (hu : Introduces place inside use us)
    (hc : Context n pending vs) (he : Operand (· ≤ 255) 8 ws e [])
    (h : (b.atOperator use pending e t).errors = []) :
    (b.atOperator use pending e t).Takes (ts ++ us ++ vs ++ ws) t := by
  have hn : n ≤ 8 := Nat.le_succ_of_le hc.level_le
  unfold atOperator at h ⊢
  split at h
  next hk =>
    exact .of_kind hk nofun ⟨_, _, _, _, ho, .firstArgument hu hc he hk, by simp⟩
  next hk =>
    obtain ⟨n', vs', ws', hc', hn', he', hs⟩ := hc.settle (k := 0) he hn (by omega) (by omega)
    obtain rfl : n' = 0 := by omega
    have hq := hc'.assign he'.of_zero hk
    refine .of_kind hk nofun ⟨_, _, _, _, ho, .operand hu fun _ => ⟨_, hq⟩, ?_⟩
    rw [List.append_assoc (ts ++ us), hs]
    simp
  next =>
    split at h
    next c hk =>
      have hl : c.level < 7 := level_lt c
      obtain ⟨n', vs', ws', hc', hn', he', hs⟩ :=
        hc.settle (k := c.level) he hn (by omega) (by omega)
      have hj := hc'.joined hn' he' (operators_of_ofKind? hk)
      refine .word ?_ ⟨_, _, _, _, ho, .operand hu fun _ => ⟨_, hj⟩, ?_⟩
      · intro he
        simp [he, Connective.ofKind?, BinaryOp.ofKind?] at hk
      · rw [List.append_assoc (ts ++ us), hs]
        simp
    next hk =>
      rw [List.append_assoc (ts ++ us)]
      exact atEnd_takes ho hu (hc.complete (he.fills (by omega) hn)) h

theorem room_of_quiet (h : overflow pending [t] = []) : Room pending := by
  unfold overflow at h
  split at h
  next callee done rest =>
    intro hl
    simp [excess, hl] at h
  next p _ hp =>
    unfold Room
    split
    next => exact (hp _ _ _ rfl).elim
    next => trivial

theorem checkArguments_quiet (h : (b.atOperand use pending t).errors = []) :
    b.checkArguments pending t = b ∧ Room pending := by
  have hc : (b.checkArguments pending t).errors = [] := by
    unfold atOperand at h
    split at h
    case h_10 => cases h
    all_goals exact h
  rw [checkArguments_eq_complain] at hc ⊢
  have ho : overflow pending [t] = [] := by
    simpa using (List.append_eq_nil_iff.mp hc).1
  rw [ho]
  exact ⟨rfl, room_of_quiet ho⟩

theorem atOperand_takes (ho : Opened place inside b.statements b.opened ts)
    (hu : Introduces place inside use us) (hc : Room pending → ∃ n, Context n pending vs)
    (h : (b.atOperand use pending t).errors = []) :
    (b.atOperand use pending t).Takes (ts ++ us ++ vs) t := by
  obtain ⟨hq, hr⟩ := checkArguments_quiet h
  obtain ⟨n, hc⟩ := hc hr
  unfold atOperand at h ⊢
  rw [hq] at h ⊢
  split at h
  iterate 5
    next hk =>
      have he : Operand (· ≤ 255) 8 [t] (.literal (t.literal.getD .nil)) [] :=
        .literal (by simp [constants, hk])
      exact .of_kind hk nofun ⟨_, _, _, _, ho, .operator hu hc he, by simp⟩
  next hk => exact .of_kind hk nofun ⟨_, _, _, _, ho, .operator hu hc (.lookup hk), by simp⟩
  next hk =>
    exact .of_kind hk nofun ⟨_, _, _, _, ho, .operand hu fun _ => ⟨_, hc.group hk⟩, by simp⟩
  next hk =>
    exact .of_kind hk nofun ⟨_, _, _, _, ho, .operand hu fun _ => ⟨_, hc.not hk⟩, by simp⟩
  next hk =>
    exact .of_kind hk nofun ⟨_, _, _, _, ho, .operand hu fun _ => ⟨_, hc.negate hk⟩, by simp⟩
  next => cases h

end ClosureLang.Builder
