import ClosureLang.Proofs.Grammar.ExpressionSpelling

namespace ClosureLang.Builder

open Grammar

variable {b : Builder} {t : Token} {ts us : List Token} {place : Place} {inside : Bool} {s : Stmt}

theorem atStatement_takes (ho : Opened place inside b.statements b.opened ts)
    (hp : place ≠ .initial) (h : (b.atStatement t).errors = []) :
    (b.atStatement t).Takes ts t := by
  have hc : Room [] → ∃ n, Context n [] [] := fun _ => ⟨0, .nil⟩
  unfold atStatement at h ⊢
  split at h
  next hk => exact .of_kind hk (by decide) ⟨_, _, _, _, ho, .forOpen hp hk, rfl⟩
  next hk => exact .of_kind hk (by decide) ⟨_, _, _, _, ho, .ifOpen hp hk, rfl⟩
  next hk => exact .of_kind hk (by decide) ⟨_, _, _, _, ho, .loopOpen hp hk, rfl⟩
  next hk => exact .of_kind hk (by decide) ⟨_, _, _, _, ho, .operand (.output hp hk) hc, rfl⟩
  next hk =>
    split at h
    next hb =>
      obtain rfl : inside = true := ho.inside_eq.trans hb
      rw [if_pos hb]
      exact .of_kind hk (by decide) ⟨_, _, _, _, ho, .resultStart (.result hp hk), rfl⟩
    next => cases h
  next hk => exact .of_kind hk (by decide) ⟨_, _, _, _, ho.block hp hk .nil, .declaration, by simp⟩
  next => simpa using atOperand_takes ho .expression hc h

/-- A token that is read without complaint where a declaration starts keeps the tokens spelt,
whether it starts one or ends the block. -/
theorem atDeclaration_takes (ho : Opened .list inside b.statements b.opened ts)
    (h : (b.atDeclaration t).errors = []) : (b.atDeclaration t).Takes ts t := by
  unfold atDeclaration at h ⊢
  split at h
  next hk => exact .stop hk rfl ⟨_, _, _, _, ho, .declaration, by simp⟩
  next hk => exact .of_kind hk nofun ⟨_, _, _, _, ho, .createName nofun hk, rfl⟩
  next hk => exact .of_kind hk nofun ⟨_, _, _, _, ho, .functionName hk, rfl⟩
  next done rest hk hb =>
    rw [hb] at ho
    cases ho with
    | block ho hp hopen hd =>
      have hs := Statement.block hopen hd hk
      exact .of_kind hk nofun ⟨_, _, _, _, ho, .completed (hs.fits hp), by simp⟩
  next head done rest hk hb =>
    rw [hb] at ho
    cases ho with
    | body ho hh hopen hd =>
      exact .of_kind hk nofun
        ⟨_, _, _, _, ho, .completed (Declaration.funcDecl hh hopen hd hk), by simp⟩
  next => exact atStatement_takes ho nofun h

theorem atForCondition_takes {initial : Option Stmt}
    (ho : Opened place inside b.statements b.opened ts)
    (hu : Introduces place inside (.forCondition initial) us)
    (h : (b.atForCondition initial t).errors = []) :
    (b.atForCondition initial t).Takes (ts ++ us) t := by
  unfold atForCondition at h ⊢
  split at h
  next hk =>
    rw [if_pos hk]
    cases hu with
    | forCondition hp hkey hopen hi =>
      have hu : Introduces place inside (.forIncrement initial none) _ :=
        .forIncrement hp hkey hopen hi .none hk
      exact .of_kind hk nofun ⟨_, _, _, _, ho, .forIncrement hu, by simp⟩
  next hk =>
    rw [if_neg hk]
    simpa using atOperand_takes ho hu (fun _ => ⟨0, .nil⟩) h

/-- The token behind a statement completes all constructs that waited for it, and keeps the tokens
spelt. -/
theorem afterStatement_takes {opened : List Open} {dangling : Bool}
    (ho : Opened place inside b.statements opened ts) (hf : Fits place inside dangling us s)
    (hd : t.kind = .else → dangling = false) (h : (b.afterStatement t s opened).errors = []) :
    (b.afterStatement t s opened).Takes (ts ++ us) t := by
  generalize hss : b.statements = ss at ho
  -- The statement grows from construct to construct. It dangles only behind an `if` that let the
  -- token pass, so no `else` meets a dangling statement.
  induction ho generalizing s us dangling with
  | @nil ss ts hs =>
    have ho : Opened .list false (s :: b.statements) [] (ts ++ us) :=
      .nil (by simpa [hss] using hs.snoc hf)
    exact atDeclaration_takes (b := { b with opened := [], statements := s :: b.statements }) ho h
  | @block place inside ss done opened ts vs opening ho hp hopen hs =>
    have hs' : Declarations (· ≤ 255) inside (vs ++ us) (s :: done).reverse [] := by
      simpa using hs.snoc hf
    have ho' := hss ▸ ho.block hp hopen hs'
    simpa [afterStatement] using
      atDeclaration_takes (b := { b with opened := .block (s :: done) :: opened }) ho' h
  | @body inside ss done opened ts vs ws head opening ho hh hopen hs =>
    have hs' : Declarations (· ≤ 255) true (ws ++ us) (s :: done).reverse [] := by
      simpa using hs.snoc hf
    have ho' := hss ▸ ho.body hh hopen hs'
    have ht :=
      atDeclaration_takes (b := { b with opened := .body head (s :: done) :: opened }) ho' h
    simpa [afterStatement] using ht
  | @thenBranch place inside ss opened ts vs condition key opening closing ho hp hk hopen he hc
      ih =>
    unfold afterStatement at h ⊢
    split at h
    next hx =>
      obtain rfl := hd hx
      rw [if_pos hx]
      have ho' := ho.elseBranch hp hk hopen he hc hf hx
      exact .of_kind hx (by decide) ⟨_, _, _, _, hss ▸ ho', .statement, by simp⟩
    next hx =>
      rw [if_neg hx]
      have hs := Statement.ifThen hk hopen he hc hf
      simpa using ih (hs.fits hp) (fun hx' => (hx hx').elim) h hss
  | elseBranch ho hp hk hopen he hc hy hx ih =>
    have hs := Statement.ifElse hk hopen he hc hy hx hf
    simpa [afterStatement] using ih (hs.fits hp) hd h hss
  | loopBody ho hp hk hopen he hc ih =>
    have hs := Statement.loop hk hopen he hc hf
    simpa [afterStatement] using ih (hs.fits hp) hd h hss
  | @forInitial place inside ss opened ts key opening ho hp hk hopen =>
    have hi : Initial (· ≤ 255) us (some s) [] := hf.elim .varDecl .exprStmt
    have ht := atForCondition_takes (b := { b with opened }) (hss ▸ ho)
      (.forCondition hp hk hopen hi) h
    simpa [afterStatement] using ht
  | forBody ho hp hk hopen hi he hs hn hc ih =>
    have hs := Statement.forLoop hk hopen hi he hs hn hc hf
    rw [← forLoop_eq_lowered] at hs
    simpa [afterStatement] using ih (hs.fits hp) hd h hss

theorem atParameter_takes {func name opening : Token} {done : List String}
    (ho : Opened .list inside b.statements b.opened ts) (hf : func.kind = .func)
    (hn : name.kind = .identifier) (hopen : opening.kind = .leftParen) (hl : done.length ≤ 255)
    (hp : done.length < 255 → t.kind = .identifier →
      Parameters (us ++ [t]) (t.lexeme :: done).reverse [])
    (h : (b.atParameter name.lexeme name.line done t).errors = []) :
    (b.atParameter name.lexeme name.line done t).Takes (ts ++ func :: name :: opening :: us) t := by
  unfold atParameter maxItems at h ⊢
  by_cases hm : done.length = 255
  · rw [if_pos hm] at h
    unfold need at h
    split at h <;> cases h
  · rw [if_neg hm] at h ⊢
    refine .of_need h nofun fun hk => ?_
    have hl' : done.length < 255 := by omega
    exact ⟨_, _, _, _, ho, .parameterRest hf hn hopen (hp hl' hk) hl', by simp⟩

end ClosureLang.Builder
