import ClosureLang.Proofs.Descent.Expressions

namespace ClosureLang

theorem Cursor.reads_whole {ts : List Token} {c : Cursor} {b : Builder} {use : Use} :
    c.reads ts (b.moveTo (.operand use [])) =
      c.after ts ((b.upTo c).atOperand use [] (c.peek ts)) := by
  rw [reads_eq_after]
  exact congrArg (c.after ts) (Builder.feed_operand (b := b.upTo c))

namespace Descent

variable {ι α : Type} {ts : List Token} {c : Cursor} {start : ι → Parsed} {base : ι → Builder}
  {done : ι → α → Cursor → Parsed} {post : α → Cursor → Prop}

/-- A whole expression is read up to a token with which no expression goes on. -/
theorem Tracks.expression {k : Expr → Descent α} (b : ι → Builder) (use : ι → Use)
    (hc : c.InText ts) (hb : ∀ i, (b i).recovering = (base i).recovering)
    (hs : ∀ i, start i = c.after ts (((b i).upTo c).atOperand (use i) [] (c.peek ts)))
    (hk : ∀ e c', c.current < c'.current → c'.InText ts →
      Tracks ts (k e) c'
        (fun i => c'.after ts (((b i).upTo c').afterExpression (use i) e (c'.peek ts)))
        base done post) :
    Tracks ts (expression ts >>= k) c start base done post := by
  refine (expressionsTrack hc).expression.bind (fun i => ⟨b i, use i, [], fun _ => trivial⟩) hb hs
    fun e c' hlt hc' hclose => ?_
  exact (hk e c' hlt hc').restart fun i => Cursor.reads_filled_of_closes hclose

/-- An expression that may be missing, in front of a token that has to follow. -/
theorem optional_tracks {kind : TokenKind} {message : String} (b : ι → Builder) (use : ι → Use)
    (next : ι → Option Expr → Builder) (hc : c.InText ts)
    (he : ∀ i e (c' : Cursor), ((b i).upTo c').afterExpression (use i) e (c'.peek ts) =
      ((b i).upTo c').need kind message (c'.peek ts) ((next i (some e)).upTo c')) :
    Tracks ts (optional ts kind) c
      (fun i => c.after ts (if (c.peek ts).kind = kind then (next i none).upTo c
        else ((b i).upTo c).atOperand (use i) [] (c.peek ts))) b
      (fun i v c' => c'.needs ts (b i) kind message (next i v)) fun _ _ => True := by
  refine .look ?_
  split
  next hk =>
    refine .result hc trivial fun i => ?_
    rw [Cursor.needs, Builder.need_of_eq hk]
  next hk =>
    refine .expression b use hc (fun _ => rfl) (fun _ => rfl) fun e c' _ hc' => ?_
    exact .result hc' trivial fun i => congrArg (c'.after ts) (he i e c')

/-- The procedure reads a statement for the builders `b`. -/
def TracksStatement (ts : List Token) (p : Descent Stmt) (c : Cursor) (start : ι → Parsed)
    (b : ι → Builder) : Prop :=
  Tracks ts p c start b (fun i s c' => c'.reads ts ((b i).moveTo (.completed s)))
    fun _ c' => c.current < c'.current

theorem expressionStatement_tracks (b : ι → Builder) (hc : c.InText ts) :
    TracksStatement ts (expressionStatement ts) c
      (fun i => c.after ts (((b i).upTo c).atOperand .expression [] (c.peek ts))) b := by
  refine .expression b (fun _ => .expression) hc (fun _ => rfl) (fun _ => rfl)
    fun e c₁ hlt hc₁ => ?_
  refine .consume (fun i _ => (b i).moveTo (.completed (.expression e))) hc₁ (by decide)
    (fun _ => rfl) fun _ c₂ hlt₂ hc₂ => ?_
  exact .result hc₂ (hlt.trans hlt₂) fun _ => rfl

theorem outputStatement_tracks (b : ι → Builder) (hc : c.InText ts) :
    TracksStatement ts (outputStatement ts) c
      (fun i => c.reads ts ((b i).moveTo (.operand .output []))) b := by
  refine .expression b (fun _ => .output) hc (fun _ => rfl) (fun _ => Cursor.reads_whole)
    fun e c₁ hlt hc₁ => ?_
  refine .consume (fun i _ => (b i).moveTo (.completed (.output e))) hc₁ (by decide)
    (fun _ => rfl) fun _ c₂ hlt₂ hc₂ => ?_
  exact .result hc₂ (hlt.trans hlt₂) fun _ => rfl

theorem varDeclaration_tracks (b : ι → Builder) (hc : c.InText ts) :
    TracksStatement ts (varDeclaration ts) c
      (fun i => c.reads ts ((b i).moveTo .createName)) b := by
  refine .consume (fun i t => (b i).moveTo (.createRest t.lexeme t.line)) hc (by decide)
    (fun _ => Cursor.reads_eq_after) fun name c₁ hlt hc₁ => .look ?_
  split
  next hk =>
    have hne : (c₁.peek ts).kind ≠ .eof := by simp [hk]
    refine .advance (.expression b (fun _ => .initial name.lexeme name.line) hc₁.next
      (fun _ => rfl) (fun i => ?_) fun e c₂ hlt₂ hc₂ => ?_)
    · rw [← Cursor.reads_whole]
      exact Cursor.reads_eq_next hne (if_pos hk)
    · refine .consume
        (fun i _ => (b i).moveTo (.completed (.create name.lexeme (some e) name.line))) hc₂
        (by decide) (fun _ => rfl) fun _ c₃ hlt₃ hc₃ => ?_
      have hnext := Cursor.lt_next hne
      exact .result hc₃ (by omega) fun _ => rfl
  next hk =>
    refine .consume (fun i _ => (b i).moveTo (.completed (.create name.lexeme none name.line)))
      hc₁ (by decide) (fun i => ?_) fun _ c₂ hlt₂ hc₂ => .result hc₂ (hlt.trans hlt₂) fun _ => rfl
    rw [Cursor.reads_eq_after]
    exact congrArg (c₁.after ts) (if_neg hk)

theorem returnStatement_tracks (b : ι → Builder) (line : Nat) (hc : c.InText ts) :
    TracksStatement ts (returnStatement ts true line) c
      (fun i => c.reads ts ((b i).moveTo (.resultStart line))) b := by
  refine (optional_tracks b (fun _ => .result line)
    (fun i v => (b i).moveTo (.completed (.giveBack v line))) hc fun _ _ _ => rfl).seq
    (fun i => ?_) (fun _ => rfl) fun v c₁ hle hc₁ _ => ?_
  · rw [Cursor.reads_eq_after, ← Builder.moveTo_atOperand]
    rfl
  · refine .consume (fun i _ => (b i).moveTo (.completed (.giveBack v line))) hc₁ (by decide)
      (fun _ => rfl) fun _ c₂ hlt hc₂ => ?_
    exact .result hc₂ (Nat.lt_of_le_of_lt hle hlt) fun _ => rfl

/-- A condition in parentheses, for builders that need them at `p`. -/
theorem condition_tracks {opening closing : String} {p : Position} {use : Use}
    {construct : Expr → Open} (b : ι → Builder) (hc : c.InText ts)
    (ho : ∀ i (c' : Cursor), (((b i).moveTo p).upTo c').feed (c'.peek ts) =
      ((b i).upTo c').need .leftParen opening (c'.peek ts)
        (((b i).moveTo (.operand use [])).upTo c'))
    (he : ∀ i e (c' : Cursor), ((b i).upTo c').afterExpression use e (c'.peek ts) =
      ((b i).upTo c').need .rightParen closing (c'.peek ts)
        (((b i).enter (construct e) .statement).upTo c')) :
    Tracks ts (condition ts opening closing) c (fun i => c.reads ts ((b i).moveTo p)) b
      (fun i e c' => c'.reads ts ((b i).enter (construct e) .statement))
      fun _ c' => c.current < c'.current := by
  refine .consume (fun i _ => (b i).moveTo (.operand use [])) hc (by decide) (fun i => ?_)
    fun _ c₁ hlt hc₁ => ?_
  · rw [Cursor.reads_eq_after]
    exact congrArg (c.after ts) (ho i c)
  refine .expression b (fun _ => use) hc₁ (fun _ => rfl) (fun _ => Cursor.reads_whole)
    fun e c₂ hlt₂ hc₂ => ?_
  refine .consume (fun i _ => (b i).enter (construct e) .statement) hc₂ (by decide) (fun i => ?_)
    fun _ c₃ hlt₃ hc₃ => .result hc₃ (by omega) fun _ => rfl
  exact congrArg (c₂.after ts) (he i e c₂)

theorem reads_forInitial {b : Builder} {p : Position} {s : Stmt} :
    c.reads ts ((b.enter .forInitial p).moveTo (.completed s)) =
      c.after ts ((b.upTo c).atForCondition (some s) (c.peek ts)) := by
  rw [Cursor.reads_eq_after, ← Builder.moveTo_atForCondition]
  rfl

/-- The first clause of a `for` loop, up to where its condition starts. -/
theorem forInitial_tracks (b : ι → Builder) (hc : c.InText ts) :
    Tracks ts (forInitial ts) c (fun i => c.reads ts ((b i).moveTo .forStart)) b
      (fun i v c' => c'.after ts (((b i).upTo c').atForCondition v (c'.peek ts)))
      fun _ c' => c.current < c'.current := by
  refine .look ?_
  split
  next hk =>
    have hne : (c.peek ts).kind ≠ .eof := by simp [hk]
    refine .advance (.result hc.next (Cursor.lt_next hne) fun i => ?_)
    have hfeed : (((b i).moveTo .forStart).upTo c).feed (c.peek ts) =
        ((b i).moveTo (.forCondition none)).upTo c := by
      simp [Builder.feed, Builder.upTo, Builder.moveTo, hk]
    rw [Cursor.reads_eq_next hne hfeed, Cursor.reads_eq_after, ← Builder.moveTo_atForCondition]
    rfl
  next hk =>
    have hne : (c.peek ts).kind ≠ .eof := by simp [hk]
    -- The clause is a statement of its own, in a construct that recovery leaves again.
    refine .advance ((varDeclaration_tracks (fun i => (b i).enter .forInitial .createName)
      hc.next).seq (fun i => ?_) (fun _ => rfl) fun s c₁ _ hc₁ hlt => ?_)
    · refine Cursor.reads_eq_next hne ?_
      simp [Builder.feed, Builder.upTo, Builder.moveTo, Builder.enter, hk]
    · exact .result hc₁ ((Cursor.lt_next hne).trans hlt) fun i => reads_forInitial
  next hs hk =>
    refine (expressionStatement_tracks (fun i => (b i).enter .forInitial .forStart)
      hc).seq (fun i => ?_) (fun _ => rfl) fun s c₁ _ hc₁ hlt => ?_
    · rw [Cursor.reads_eq_after]
      simp only [Builder.feed, Builder.upTo, Builder.moveTo, Builder.enter]
    · exact .result hc₁ hlt fun i => reads_forInitial

/-- The procedure reads the parameters of a function up to where the closing parenthesis stands. -/
def TracksParameters (ts : List Token) (p : Descent (List String)) (name : String) (line : Nat)
    (c : Cursor) (b : ι → Builder) (position : Position) : Prop :=
  Tracks ts p c (fun i => c.reads ts ((b i).moveTo position)) b
    (fun i params c' => c'.needs ts (b i) .rightParen "Expect ')' after parameters."
      ((b i).moveTo (.functionBrace ⟨name, line, params⟩)))
    fun _ _ => True

theorem parametersAfter_tracks {name : String} {line : Nat} (b : ι → Builder) (hc : c.InText ts)
    (done : List String) :
    TracksParameters ts (parametersAfter ts done) name line c b (.parameter name line done) := by
  induction c, hc using Cursor.InText.induction generalizing done with
  | step c hc ih =>
    rw [parametersAfter.eq_1]
    refine Tracks.checkItems fun c₁ heq hb => ?_
    have hc₁ : c₁.InText ts := heq.trans_le hc
    refine .consume (fun i t => (b i).moveTo (.parameterRest name line (t.lexeme :: done))) hc₁
      (by decide) (fun i => ?_) fun t c₂ hlt hc₂ => .look ?_
    · rw [Cursor.reads_eq_after, Cursor.needs, Cursor.after_congr heq, Cursor.peek_congr heq]
      change c.after ts (Builder.atParameter (((b i).moveTo _).upTo c) name line done _) = _
      unfold Builder.atParameter
      simp only [hb]
      rfl
    split
    next hk =>
      have hne : (c₂.peek ts).kind ≠ .eof := by simp [hk]
      have hnext := Cursor.lt_next hne
      have hrest := ih (c₂.next ts) hc₂.next (by omega) (t.lexeme :: done)
      exact .advance (hrest.restart fun i => Cursor.reads_eq_next hne (if_pos hk))
    next hk =>
      refine .result hc₂ trivial fun i => ?_
      rw [Cursor.reads_eq_after]
      exact congrArg (c₂.after ts) (if_neg hk)

/-- The parameters of a function are read up to the closing parenthesis, with a complaint where they
get too many. -/
theorem parameters_tracks {name : String} {line : Nat} (b : ι → Builder) (hc : c.InText ts) :
    TracksParameters ts (parameters ts) name line c b (.firstParameter name line) := by
  refine Tracks.look ?_
  split
  next hk =>
    refine .result hc trivial fun i => ?_
    rw [Cursor.reads_eq_after, Cursor.needs, Builder.need_of_eq hk]
    exact congrArg (c.after ts) (if_pos hk)
  next hk =>
    refine (parametersAfter_tracks b hc []).restart fun i => ?_
    rw [Cursor.reads_eq_after, Cursor.reads_eq_after]
    exact congrArg (c.after ts) (if_neg hk)

end Descent

end ClosureLang
