import ClosureLang.Proofs.Grammar.Composition
import ClosureLang.Proofs.Grammar.Formation

namespace ClosureLang

/-- Whether the construct is complete with the next statement. -/
def Open.isPart : Open → Bool
  | .thenBranch _ | .elseBranch _ _ | .loopBody _ | .forBody _ _ _ => true
  | .block _ | .body _ _ | .forInitial => false

/-- Whether a semicolon can stand in front of a position. -/
def Position.behindSemicolon : Position → Bool
  | .declaration | .completed _ | .forCondition _ | .forIncrement _ _ => true
  | _ => false

/-- Neither a brace nor the end of the input. -/
def Token.Inner (t : Token) : Prop :=
  t.kind ≠ .leftBrace ∧ t.kind ≠ .rightBrace ∧ t.kind ≠ .eof

namespace Grammar

theorem Surrounds.parts {place : Place} {inside : Bool} {opened : List Open}
    (h : Surrounds place inside opened) (hp : place ≠ .initial)
    (hb : opened.countP Open.isBlock = 0) : ∀ o ∈ opened, o.isPart = true := by
  induction h with
  | nil => simp
  | block => simp [Open.isBlock] at hb
  | body => simp [Open.isBlock] at hb
  | forInitial => contradiction
  | thenBranch _ hp' ih | elseBranch _ hp' _ ih | loopBody _ hp' ih | forBody _ hp' _ ih =>
    have hrest := ih hp' (by simpa [Open.isBlock] using hb)
    exact List.forall_mem_cons.mpr ⟨rfl, hrest⟩

theorem Surrounds.eq_nil {inside : Bool} {opened : List Open} (h : Surrounds .list inside opened)
    (hb : opened.countP Open.isBlock = 0) : opened = [] := by
  cases h with
  | nil => rfl
  | block => simp [Open.isBlock] at hb
  | body => simp [Open.isBlock] at hb

end Grammar

namespace Builder

open Grammar

variable {b : Builder} {t : Token} {use : Use} {pending : List Pending} {e : Expr}

/-- Tokens without an end token are read one by one. -/
theorem run_append {ts us : List Token} (h : ∀ t ∈ ts, t.kind ≠ .eof) :
    b.run (ts ++ us) = (ts.foldl feed b).run us := by
  induction ts generalizing b with
  | nil => rfl
  | cons t ts ih =>
    obtain ⟨ht, hts⟩ := List.forall_mem_cons.mp h
    rw [List.cons_append, run, if_neg ht]
    exact ih hts

/-- The end of a list of tokens is read like an end token. -/
theorem run_foldl {ts : List Token} (h : ∀ t ∈ ts, t.kind ≠ .eof) :
    b.run ts = (ts.foldl feed b).finish (.endOfInput 0) := by
  have hrun : b.run (ts ++ []) = (ts.foldl feed b).run [] := run_append h
  rw [List.append_nil] at hrun
  exact hrun

/-- Tokens that are read one by one without complaint are spelt by where they lead. -/
theorem spells_foldl {ts : List Token} (h : ∀ t ∈ ts, t.kind ≠ .eof)
    (he : (ts.foldl feed start).errors = []) : (ts.foldl feed start).Spells ts := by
  induction ts using List.reverseRecOn with
  | nil => exact spells_start
  | append_singleton ts t ih =>
    obtain ⟨hts, ht⟩ := List.forall_mem_append.mp h
    rw [List.foldl_append] at he ⊢
    have hquiet : (ts.foldl feed start).errors = [] :=
      List.suffix_nil.mp (he ▸ errors_feed (b := ts.foldl feed start) (t := t))
    cases feed_takes (ih hts hquiet) he with
    | word _ hspells => exact hspells
    | stop hk => exact absurd hk (ht t List.mem_cons_self)

theorem Spells.not_recovering {ts : List Token} (h : b.Spells ts) :
    b.position ≠ .skip ∧ b.position ≠ .discard := by
  obtain ⟨place, inside, us, vs, ho, hr, rfl⟩ := h
  constructor
  · intro hp
    rw [hp] at hr
    cases hr
  · intro hp
    rw [hp] at hr
    cases hr

/-- Constructs that wait for a statement are complete with it, unless an `else` follows. -/
theorem afterStatement_parts {parts : List Open} (h : ∀ o ∈ parts, o.isPart = true) (s : Stmt) :
    ∃ s', ∀ (b : Builder) (t : Token) (opened : List Open), t.kind ≠ .else →
      b.afterStatement t s (parts ++ opened) = b.afterStatement t s' opened := by
  induction parts generalizing s with
  | nil => exact ⟨s, fun _ _ _ _ => rfl⟩
  | cons o parts ih =>
    obtain ⟨ho, hparts⟩ := List.forall_mem_cons.mp h
    cases o with
    | block => cases ho
    | body => cases ho
    | forInitial => cases ho
    | thenBranch condition =>
      obtain ⟨s', hs⟩ := ih hparts (.ifThen condition s)
      refine ⟨s', fun b t opened ht => ?_⟩
      rw [List.cons_append, afterStatement, if_neg ht]
      exact hs b t opened ht
    | elseBranch condition yes => exact ih hparts (.ifElse condition yes s)
    | loopBody condition => exact ih hparts (.loop condition s)
    | forBody initial condition increment =>
      exact ih hparts (.forLoop initial condition increment s)

/-- The builder stands where a semicolon can stand in front of it exactly if `t` is one. -/
def Shows (t : Token) (b : Builder) : Prop :=
  b.position.behindSemicolon = decide (t.kind = .semicolon)

theorem shows_afterDropping (h : b.position = afterDropping t) : b.Shows t := by
  rw [Shows, h, afterDropping]
  split <;> simp_all [Position.behindSemicolon]

/-- A mistake at a semicolon ends there, and no other token ends one. -/
theorem shows_fail {x : SyntaxError} : (b.fail x t).Shows t :=
  shows_afterDropping rfl

theorem shows_need {kind : TokenKind} {message : String} {next : Builder}
    (h : t.kind = kind → next.Shows t) : (b.need kind message t next).Shows t := by
  unfold need
  split
  next hk => exact h hk
  next => exact shows_fail

theorem shows_of_ne (h : b.position.behindSemicolon = false) (ht : t.kind ≠ .semicolon) :
    b.Shows t := by
  rw [Shows, h, decide_eq_false ht]

theorem shows_of_eq (h : b.position.behindSemicolon = true) (ht : t.kind = .semicolon) :
    b.Shows t := by
  rw [Shows, h, decide_eq_true ht]

theorem shows_atOperand : (b.atOperand use pending t).Shows t := by
  unfold atOperand
  dsimp only
  split
  case h_10 => exact shows_fail
  all_goals exact shows_of_ne rfl (by simp_all)

theorem shows_afterExpression : (b.afterExpression use e t).Shows t := by
  cases use with
  | ifCondition | loopCondition | forIncrement =>
    exact shows_need fun hk => shows_of_ne rfl (by simp [hk])
  | _ => exact shows_need (shows_of_eq rfl)

theorem shows_atEnd : (b.atEnd use pending e t).Shows t := by
  unfold atEnd
  split
  · exact shows_afterExpression
  · exact shows_need fun hk => shows_of_ne rfl (by simp [hk])
  · split
    next hk => exact shows_of_ne rfl (by simp [hk])
    next => exact shows_need fun hk => shows_of_ne rfl (by simp [hk])
  · exact shows_fail

theorem shows_atOperator : (b.atOperator use pending e t).Shows t := by
  unfold atOperator
  split
  next hk => exact shows_of_ne rfl (by simp [hk])
  next hk => exact shows_of_ne rfl (by simp [hk])
  next =>
    split
    next op hop =>
      refine shows_of_ne rfl fun hk => ?_
      rw [hk] at hop
      cases hop
    next => exact shows_atEnd

theorem shows_atStatement (ht : t.Inner) : (b.atStatement t).Shows t := by
  unfold atStatement
  split
  case h_5 hk =>
    split
    · exact shows_of_ne rfl (by simp [hk])
    · exact shows_of_ne rfl (by simp [hk])
  case h_6 hk => exact absurd hk ht.1
  case h_7 => exact shows_atOperand
  all_goals exact shows_of_ne rfl (by simp_all)

theorem shows_atDeclaration (ht : t.Inner) : (b.atDeclaration t).Shows t := by
  unfold atDeclaration
  split
  next hk => exact absurd hk ht.2.2
  next hk => exact shows_of_ne rfl (by simp [hk])
  next hk => exact shows_of_ne rfl (by simp [hk])
  next hk _ => exact absurd hk ht.2.1
  next hk _ => exact absurd hk ht.2.1
  next => exact shows_atStatement ht

theorem shows_atForCondition {initial : Option Stmt} : (b.atForCondition initial t).Shows t := by
  unfold atForCondition
  split
  next hk => exact shows_of_eq rfl hk
  next => exact shows_atOperand

theorem shows_afterStatement (ht : t.Inner) (s : Stmt) (opened : List Open) :
    (b.afterStatement t s opened).Shows t := by
  induction opened generalizing s with
  | nil => exact shows_atDeclaration ht
  | cons o opened ih =>
    cases o with
    | block | body => exact shows_atDeclaration ht
    | forInitial => exact shows_atForCondition
    | thenBranch condition =>
      unfold afterStatement
      split
      next hk => exact shows_of_ne rfl (by simp [hk])
      next => exact ih _
    | elseBranch | loopBody | forBody => exact ih _

theorem shows_atParameter {name : String} {line : Nat} {done : List String} :
    (b.atParameter name line done t).Shows t := by
  unfold atParameter
  exact shows_need fun hk => shows_of_ne rfl (by simp [hk])

/-- Behind a token that is no brace, a declaration can be over exactly if it is a semicolon. -/
theorem shows_feed (ht : t.Inner) : (b.feed t).Shows t := by
  unfold feed
  cases b.position with
  | declaration => exact shows_atDeclaration ht
  | statement => exact shows_atStatement ht
  | operand use pending => exact shows_atOperand
  | operator use pending e => exact shows_atOperator
  | completed s => exact shows_afterStatement ht s b.opened
  | firstArgument use pending callee =>
    dsimp only
    split
    next hk => exact shows_of_ne rfl (by simp [hk])
    next => exact shows_atOperand
  | createRest name line =>
    dsimp only
    split
    next hk => exact shows_of_ne rfl (by simp [hk])
    next => exact shows_need (shows_of_eq rfl)
  | firstParameter name line =>
    dsimp only
    split
    next hk => exact shows_of_ne rfl (by simp [hk])
    next => exact shows_atParameter
  | parameter name line done => exact shows_atParameter
  | parameterRest name line done =>
    dsimp only
    split
    next hk => exact shows_of_ne rfl (by simp [hk])
    next => exact shows_need fun hk => shows_of_ne rfl (by simp [hk])
  | functionBrace head => exact shows_need fun hk => absurd hk ht.1
  | createName | functionName | functionOpen | ifOpen | loopOpen | forOpen =>
    exact shows_need fun hk => shows_of_ne rfl (by simp [hk])
  | forStart =>
    dsimp only
    split
    next hk => exact shows_of_eq rfl hk
    next hk => exact shows_of_ne rfl (by simp [hk])
    next => exact shows_atOperand
  | forCondition initial => exact shows_atForCondition
  | forIncrement initial condition =>
    dsimp only
    split
    next hk => exact shows_of_ne rfl (by simp [hk])
    next => exact shows_atOperand
  | resultStart line =>
    dsimp only
    split
    next hk => exact shows_of_eq rfl hk
    next => exact shows_atOperand
  | discard => exact shows_afterDropping rfl
  | skip =>
    dsimp only
    split
    case h_8 => exact shows_afterDropping rfl
    all_goals exact shows_atDeclaration ht

end Builder

end ClosureLang
