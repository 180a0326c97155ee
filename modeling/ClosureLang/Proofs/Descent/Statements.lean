import ClosureLang.Proofs.Descent.Clauses

namespace ClosureLang

/-- A block in `builder` that is open, or a function body if it has a head. -/
structure OpenBlock where
  builder : Builder
  head : Option FunctionHead

namespace OpenBlock

/-- The construct with the statements `done`, last first. -/
def construct (o : OpenBlock) (done : List Stmt) : Open :=
  match o.head with
  | none => .block done
  | some head => .body head done

/-- The builder in the block, behind the statements `done`. -/
def entered (o : OpenBlock) (done : List Stmt) : Builder :=
  o.builder.enter (o.construct done) .declaration

/-- The statement that the block is once it is closed. -/
def statement (o : OpenBlock) (body : List Stmt) : Stmt :=
  match o.head with
  | none => .block body
  | some head => .function head.name head.params body head.line

/-- Whether a `return` can stand in the block. -/
def inBody (o : OpenBlock) : Bool :=
  o.head.isSome || o.builder.opened.any Open.isBody

variable {o : OpenBlock} {done : List Stmt}

theorem construct_isBlock : (o.construct done).isBlock = true := by
  unfold construct
  split <;> rfl

theorem entered_inBody : (o.entered done).opened.any Open.isBody = o.inBody := by
  obtain ⟨b, head⟩ := o
  cases head <;> rfl

theorem entered_list {s : Stmt} : (o.entered done).list [s] = o.entered (s :: done) := by
  obtain ⟨b, head⟩ := o
  cases head <;> rfl

theorem entered_atDeclaration {t : Token} (h : t.kind = .rightBrace) :
    (o.entered done).atDeclaration t =
      o.builder.moveTo (.completed (o.statement done.reverse)) := by
  obtain ⟨b, head⟩ := o
  cases head <;> simp [entered, construct, statement, Builder.enter, Builder.atDeclaration,
    Builder.moveTo, h]

end OpenBlock

namespace Cursor

variable {ts : List Token} {c : Cursor} {b : Builder}

theorem after_atStatement {p : Position} (hk : (c.peek ts).kind ≠ .eof)
    (h : ∀ b : Builder, b.atStatement (c.peek ts) = b.moveTo p) :
    c.after ts ((b.upTo c).atStatement (c.peek ts)) = (c.next ts).reads ts (b.moveTo p) := by
  rw [h]
  exact after_eq_reads (b := b.moveTo p) hk

theorem reads_completed {construct : Open} {p : Position} {s s' : Stmt}
    (h : ∀ (b : Builder) opened, b.afterStatement (c.peek ts) s (construct :: opened) =
      b.afterStatement (c.peek ts) s' opened) :
    c.reads ts ((b.enter construct p).moveTo (.completed s)) =
      c.reads ts (b.moveTo (.completed s')) := by
  rw [reads_eq_after, reads_eq_after]
  change c.after ts ((((b.upTo c).enter construct p).moveTo (.completed s)).feed _) =
    c.after ts (((b.upTo c).moveTo (.completed s')).feed _)
  rw [Builder.feed_completed, Builder.feed_completed, Builder.enter_afterStatement,
    Builder.enter_opened, h]

end Cursor

namespace Descent

variable {ι : Type} {ts : List Token} {c : Cursor}

/-- The procedure reads the rest of a block, its closing brace included. -/
def TracksBlock (ts : List Token) (p : Descent (List Stmt)) (c : Cursor) (done : List Stmt)
    (o : ι → OpenBlock) : Prop :=
  Tracks ts p c (fun i => c.reads ts ((o i).entered done)) (fun i => (o i).builder)
    (fun i body c' => c'.reads ts ((o i).builder.moveTo (.completed ((o i).statement body))))
    fun _ c' => c.current < c'.current

/-- Statements and blocks track builders from the cursor on. -/
structure StatementsTrack (ts : List Token) (c : Cursor) : Prop where
  statement : ∀ {ι : Type} (inside : Bool) (b : ι → Builder),
    (∀ i, (b i).opened.any Open.isBody = inside) →
    TracksStatement ts (statement ts inside) c
      (fun i => c.after ts (((b i).upTo c).atStatement (c.peek ts))) b
  block : ∀ {ι : Type} (inside : Bool) (done : List Stmt) (o : ι → OpenBlock),
    (∀ i, (o i).inBody = inside) → TracksBlock ts (block ts inside done) c done o

/-- They do from every later cursor. -/
def LaterStatements (ts : List Token) (c : Cursor) : Prop :=
  ∀ c' : Cursor, c'.InText ts → c.current < c'.current → StatementsTrack ts c'

theorem LaterStatements.mono {c' : Cursor} (h : LaterStatements ts c)
    (hle : c.current ≤ c'.current) : LaterStatements ts c' :=
  fun c₁ hc₁ hlt => h c₁ hc₁ (Nat.lt_of_le_of_lt hle hlt)

section

variable (inside : Bool) (b : ι → Builder)

/-- A statement for the construct around it that waits for one. -/
theorem StatementsTrack.inner (h : StatementsTrack ts c) (construct : Open)
    (hn : construct.isBlock = false) (hi : ∀ i, (b i).opened.any Open.isBody = inside) :
    Tracks ts (Descent.statement ts inside) c
      (fun i => c.reads ts ((b i).enter construct .statement)) b
      (fun i s c' => c'.reads ts (((b i).enter construct .statement).moveTo (.completed s)))
      fun _ c' => c.current < c'.current := by
  have hbody : construct.isBody = false := by
    cases construct <;> first | rfl | cases hn
  refine (h.statement inside (fun i => (b i).enter construct .statement) fun i => ?_).reindex id
    (fun _ => Cursor.reads_eq_after) fun i => ?_
  · rw [Builder.enter_opened, List.any_cons, hbody, hi, Bool.false_or]
  · simp [Builder.recovering, Builder.enter, hn]

theorem whileStatement_tracks (hc : c.InText ts) (h : LaterStatements ts c)
    (hi : ∀ i, (b i).opened.any Open.isBody = inside) :
    TracksStatement ts (whileStatement ts inside) c
      (fun i => c.reads ts ((b i).moveTo .loopOpen)) b := by
  rw [whileStatement.eq_1]
  refine (condition_tracks b hc (fun _ _ => rfl) fun _ _ _ => rfl).seq (fun _ => rfl)
    (fun _ => rfl) fun e c₁ _ hc₁ hlt => ?_
  refine ((h c₁ hc₁ hlt).inner inside b (.loopBody e) rfl hi).bind fun s c₂ _ hc₂ hlt₂ => ?_
  exact .result hc₂ (hlt.trans hlt₂) fun _ => Cursor.reads_completed fun _ _ => rfl

theorem ifStatement_tracks (hc : c.InText ts) (h : LaterStatements ts c)
    (hi : ∀ i, (b i).opened.any Open.isBody = inside) :
    TracksStatement ts (ifStatement ts inside) c
      (fun i => c.reads ts ((b i).moveTo .ifOpen)) b := by
  rw [ifStatement.eq_1]
  refine (condition_tracks b hc (fun _ _ => rfl) fun _ _ _ => rfl).seq (fun _ => rfl)
    (fun _ => rfl) fun e c₁ _ hc₁ hlt => ?_
  refine ((h c₁ hc₁ hlt).inner inside b (.thenBranch e) rfl hi).bind
    fun yes c₂ _ hc₂ hlt₂ => .look ?_
  split
  next hk =>
    have hne : (c₂.peek ts).kind ≠ .eof := by simp [hk]
    have hlt₃ := Cursor.lt_next hne
    refine .advance (((h _ hc₂.next (by omega)).inner inside b (.elseBranch e yes) rfl hi).seq
      (fun i => Cursor.reads_eq_next hne ?_) (fun _ => rfl) fun no c₃ _ hc₃ hlt₄ => ?_)
    · exact if_pos hk
    · exact .result hc₃ (by omega) fun _ => Cursor.reads_completed fun _ _ => rfl
  next hk =>
    -- Without an `else` the branch completes the statement around it.
    exact .result hc₂ (hlt.trans hlt₂) fun _ => Cursor.reads_completed fun _ _ => if_neg hk

/-- A `for` loop is read as the tree that it stands for. -/
theorem forStatement_tracks (hc : c.InText ts) (h : LaterStatements ts c)
    (hi : ∀ i, (b i).opened.any Open.isBody = inside) :
    TracksStatement ts (forStatement ts inside) c
      (fun i => c.reads ts ((b i).moveTo .forOpen)) b := by
  rw [forStatement.eq_1]
  refine .consume (fun i _ => (b i).moveTo .forStart) hc (by decide)
    (fun _ => Cursor.reads_eq_after) fun _ c₁ hlt₁ hc₁ => ?_
  refine (forInitial_tracks b hc₁).seq (fun _ => rfl) (fun _ => rfl)
    fun initial c₂ _ hc₂ hlt₂ => ?_
  refine (optional_tracks b (fun _ => .forCondition initial)
    (fun i v => (b i).moveTo (.forIncrement initial v)) hc₂ fun _ _ _ => rfl).seq
    (fun _ => rfl) (fun _ => rfl) fun condition c₃ hle₃ hc₃ _ => ?_
  refine .consume (fun i _ => (b i).moveTo (.forIncrement initial condition)) hc₃ (by decide)
    (fun _ => rfl) fun _ c₄ hlt₄ hc₄ => ?_
  refine (optional_tracks b (fun _ => .forIncrement initial condition)
    (fun i v => (b i).enter (.forBody initial condition v) .statement) hc₄
    fun _ _ _ => rfl).seq (fun i => ?_) (fun _ => rfl) fun increment c₅ hle₅ hc₅ _ => ?_
  · rw [Cursor.reads_eq_after, ← Builder.moveTo_atOperand]
    rfl
  refine .consume (fun i _ => (b i).enter (.forBody initial condition increment) .statement) hc₅
    (by decide) (fun _ => rfl) fun _ c₆ hlt₆ hc₆ => ?_
  refine ((h c₆ hc₆ (by omega)).inner inside b (.forBody initial condition increment) rfl hi).bind
    fun s c₇ _ hc₇ hlt₇ => ?_
  exact .result hc₇ (by omega) fun _ => Cursor.reads_completed fun _ _ => rfl

/-- A function is read with its parameters and a body in which returns may stand. -/
theorem functionDeclaration_tracks (hc : c.InText ts) (h : LaterStatements ts c) :
    TracksStatement ts (functionDeclaration ts) c
      (fun i => c.reads ts ((b i).moveTo .functionName)) b := by
  rw [functionDeclaration.eq_1]
  refine .consume (fun i t => (b i).moveTo (.functionOpen t.lexeme t.line)) hc (by decide)
    (fun _ => Cursor.reads_eq_after) fun name c₁ hlt₁ hc₁ => ?_
  refine .consume (fun i _ => (b i).moveTo (.firstParameter name.lexeme name.line)) hc₁ (by decide)
    (fun _ => Cursor.reads_eq_after) fun _ c₂ hlt₂ hc₂ => ?_
  refine (parameters_tracks b hc₂).seq (fun _ => rfl) (fun _ => rfl) fun params c₃ hle₃ hc₃ _ => ?_
  refine .consume (fun i _ => (b i).moveTo (.functionBrace ⟨name.lexeme, name.line, params⟩)) hc₃
    (by decide) (fun _ => rfl) fun _ c₄ hlt₄ hc₄ => ?_
  let o : ι → OpenBlock := fun i => ⟨b i, some ⟨name.lexeme, name.line, params⟩⟩
  refine .consume (fun i _ => (o i).entered []) hc₄ (by decide)
    (fun _ => Cursor.reads_eq_after) fun _ c₅ hlt₅ hc₅ => ?_
  refine ((h c₅ hc₅ (by omega)).block true [] o fun _ => rfl).seq (fun _ => rfl) (fun _ => rfl)
    fun body c₆ _ hc₆ hlt₆ => ?_
  exact .result hc₆ (by omega) fun _ => rfl

theorem TracksStatement.advance {p : Descent Stmt} {start start' : ι → Parsed} {b : ι → Builder}
    (hk : (c.peek ts).kind ≠ .eof) (h : TracksStatement ts p (c.next ts) start' b)
    (hs : ∀ i, start i = start' i) : TracksStatement ts (do advance ts; p) c start b :=
  Tracks.advance ((h.restart hs).weaken fun _ _ _ => (Cursor.lt_next hk).trans)

/-- A statement is read by the procedure that its first token calls for. -/
theorem statement_tracks (hc : c.InText ts) (h : LaterStatements ts c)
    (hi : ∀ i, (b i).opened.any Open.isBody = inside) :
    TracksStatement ts (statement ts inside) c
      (fun i => c.after ts (((b i).upTo c).atStatement (c.peek ts))) b := by
  have hlater : LaterStatements ts (c.next ts) := h.mono (Cursor.le_next c)
  rw [statement.eq_1]
  refine Tracks.look ?_
  split
  case h_1 hk =>
    have hne : (c.peek ts).kind ≠ .eof := by simp [hk]
    exact (forStatement_tracks inside b hc.next hlater hi).advance hne fun _ =>
      Cursor.after_atStatement hne fun b => by simp [Builder.atStatement, hk]
  case h_2 hk =>
    have hne : (c.peek ts).kind ≠ .eof := by simp [hk]
    exact (ifStatement_tracks inside b hc.next hlater hi).advance hne fun _ =>
      Cursor.after_atStatement hne fun b => by simp [Builder.atStatement, hk]
  case h_3 hk =>
    have hne : (c.peek ts).kind ≠ .eof := by simp [hk]
    exact (whileStatement_tracks inside b hc.next hlater hi).advance hne fun _ =>
      Cursor.after_atStatement hne fun b => by simp [Builder.atStatement, hk]
  case h_4 hk =>
    have hne : (c.peek ts).kind ≠ .eof := by simp [hk]
    exact (outputStatement_tracks b hc.next).advance hne fun _ =>
      Cursor.after_atStatement hne fun b => by simp [Builder.atStatement, hk]
  case h_5 hk =>
    have hne : (c.peek ts).kind ≠ .eof := by simp [hk]
    cases inside with
    | true =>
      refine (returnStatement_tracks b (c.peek ts).line hc.next).advance hne fun i => ?_
      have hstart : ((b i).upTo c).atStatement (c.peek ts) =
          ((b i).moveTo (.resultStart (c.peek ts).line)).upTo c := by
        simp only [Builder.atStatement, hk]
        exact if_pos (hi i)
      rw [hstart]
      exact Cursor.after_eq_reads hne
    | false =>
      -- The keyword is taken before the mistake is seen, so the token dropped is the one behind it.
      refine Tracks.advance (.mistake hc.next fun i => ?_)
      have hstart : ((b i).upTo c).atStatement (c.peek ts) =
          ((b i).upTo c).abandon (.returnOutsideFunction (c.peek ts).line) .discard := by
        simp only [Builder.atStatement, hk]
        exact if_neg (Bool.not_eq_true _ ▸ hi i)
      rw [hstart, Cursor.after, if_neg hne, Cursor.next_of_peek hne]
      rfl
  case h_6 hk =>
    have hne : (c.peek ts).kind ≠ .eof := by simp [hk]
    have hlt := Cursor.lt_next hne
    have hblock := (h _ hc.next hlt).block inside [] (fun i => ⟨b i, none⟩) hi
    refine Tracks.advance (hblock.seq (fun i => ?_) (fun _ => rfl) fun body c₁ _ hc₁ hlt₁ => ?_)
    · have hstart : ((b i).upTo c).atStatement (c.peek ts) =
          (OpenBlock.entered ⟨b i, none⟩ []).upTo c := by
        simp only [Builder.atStatement, hk]
        rfl
      rw [hstart]
      exact Cursor.after_eq_reads hne
    · exact .result hc₁ (hlt.trans hlt₁) fun _ => rfl
  case h_7 =>
    refine (expressionStatement_tracks b hc).restart fun i => ?_
    congr 1
    unfold Builder.atStatement
    split <;> simp_all

/-- A declaration for builders at a list that neither ends here nor at this token. -/
theorem declaration_tracks (hc : c.InText ts) (h : LaterStatements ts c)
    (hi : ∀ i, (b i).opened.any Open.isBody = inside) (he : ι → (c.peek ts).kind ≠ .eof)
    (hr : ∀ i, (c.peek ts).kind = .rightBrace → (b i).opened = []) :
    TracksStatement ts (declaration ts inside) c
      (fun i => c.reads ts ((b i).moveTo .declaration)) b := by
  rw [declaration.eq_1]
  refine Tracks.look ?_
  split
  case h_1 hk =>
    have hne : (c.peek ts).kind ≠ .eof := by simp [hk]
    refine (varDeclaration_tracks b hc.next).advance hne fun i => Cursor.reads_eq_next hne ?_
    simp [Builder.feed, Builder.upTo, Builder.moveTo, Builder.atDeclaration, hk]
  case h_2 hk =>
    have hne : (c.peek ts).kind ≠ .eof := by simp [hk]
    refine (functionDeclaration_tracks b hc.next (h.mono (Cursor.le_next c))).advance hne fun i =>
      Cursor.reads_eq_next hne ?_
    simp [Builder.feed, Builder.upTo, Builder.moveTo, Builder.atDeclaration, hk]
  case h_3 hcreate hfunc =>
    refine (statement_tracks inside b hc h hi).restart fun i => ?_
    rw [Cursor.reads_eq_after]
    have hne := he i
    have hopened := hr i
    change c.after ts ((((b i).upTo c).moveTo .declaration).atDeclaration _) = _
    rw [Builder.moveTo_atDeclaration]
    congr 1
    unfold Builder.atDeclaration
    split <;> simp_all [Builder.upTo]

end

end Descent

end ClosureLang
