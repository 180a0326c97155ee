import ClosureLang.Proofs.Descent.Cursors

namespace ClosureLang

open Grammar

/-- Reads `t` as the start of an operand, whatever stands before it. -/
def Builder.startOperand (b : Builder) (use : Use) (pending : List Pending) (t : Token) : Builder :=
  match t.kind with
  | .number | .string | .true | .false | .nil =>
    b.moveTo (.operator use pending (.literal (t.literal.getD .nil)))
  | .identifier => b.moveTo (.operator use pending (.lookup t.lexeme t.line))
  | .leftParen => b.moveTo (.operand use (.group :: pending))
  | .bang => b.moveTo (.operand use (.unary .not t.line :: pending))
  | .minus => b.moveTo (.operand use (.unary .negate t.line :: pending))
  | _ => b.fail (.expectedExpression t.describe t.line) t

theorem Builder.atOperand_eq_startOperand (b : Builder) (use : Use) (pending : List Pending)
    (t : Token) :
    b.atOperand use pending t = (b.checkArguments pending t).startOperand use pending t := rfl

/-- A place where a builder waits for an operand of level `n`. -/
structure Seat (n : Nat) where
  builder : Builder
  use : Use
  pending : List Pending
  free : n < 7 → Free n pending

namespace Seat

variable {n : Nat} (s : Seat n)

/-- The builder with the operand in its place. -/
def filled (e : Expr) : Builder :=
  s.builder.moveTo (.operator s.use s.pending e)

def tighter : Seat (n + 1) :=
  { s with free := fun h => (s.free (Nat.lt_of_succ_lt h)).tighter }

def group : Seat 0 :=
  ⟨s.builder, s.use, .group :: s.pending, fun _ => trivial⟩

def argument (callee : Expr) (done : List Expr) : Seat 0 :=
  ⟨s.builder, s.use, .arguments callee done :: s.pending, fun _ => trivial⟩

def assign (target : Expr) (line : Nat) : Seat 0 :=
  ⟨s.builder, s.use, .assign target line :: s.pending, fun _ => trivial⟩

def unary (op : UnaryOp) (line : Nat) : Seat 7 :=
  ⟨s.builder, s.use, .unary op line :: s.pending, fun h => absurd h (Nat.lt_irrefl 7)⟩

def joined (left : Expr) (op : Connective) (line : Nat) (h : op.level = n) : Seat (n + 1) :=
  ⟨s.builder, s.use, .joined left op line :: s.pending, fun _ => h ▸ Nat.lt_succ_self _⟩

end Seat

namespace Cursor

variable {ts : List Token} {c : Cursor} {n : Nat} {s : Seat n}

/-- What is made of the tokens from the cursor on if an operand starts there. -/
def operand (ts : List Token) (c : Cursor) (s : Seat n) : Parsed :=
  c.after ts ((s.builder.upTo c).startOperand s.use s.pending (c.peek ts))

theorem reads_operand (h : ∀ (b : Builder) (t : Token), b.checkArguments s.pending t = b) :
    c.reads ts (s.builder.moveTo (.operand s.use s.pending)) = c.operand ts s := by
  rw [reads_eq_after]
  change c.after ts (((s.builder.upTo c).moveTo (.operand s.use s.pending)).feed _) = _
  rw [Builder.feed_operand, Builder.atOperand_eq_startOperand, h]
  rfl

theorem reads_filled {e : Expr} :
    c.reads ts (s.filled e) =
      c.after ts ((s.builder.upTo c).atOperator s.use s.pending e (c.peek ts)) := by
  rw [reads_eq_after]
  change c.after ts (((s.builder.upTo c).moveTo (.operator s.use s.pending e)).feed _) = _
  rw [Builder.feed_operator]

theorem reads_filled_of_closes {e : Expr} (h : Closes (c.peek ts).kind) :
    c.reads ts (s.filled e) =
      c.after ts ((s.builder.upTo c).atEnd s.use s.pending e (c.peek ts)) := by
  rw [reads_filled, Builder.atOperator_of_closes h]

theorem operand_eq_reads {p : Position} (hk : (c.peek ts).kind ≠ .eof)
    (h : ∀ b : Builder, b.startOperand s.use s.pending (c.peek ts) = b.moveTo p) :
    c.operand ts s = (c.next ts).reads ts (s.builder.moveTo p) := by
  rw [operand, h]
  exact after_eq_reads (b := s.builder.moveTo p) hk

theorem operand_eq_operand {m : Nat} {s' : Seat m} (hk : (c.peek ts).kind ≠ .eof)
    (hb : s'.builder = s.builder)
    (hp : ∀ (b : Builder) (t : Token), b.checkArguments s'.pending t = b)
    (h : ∀ b : Builder,
      b.startOperand s.use s.pending (c.peek ts) = b.moveTo (.operand s'.use s'.pending)) :
    c.operand ts s = (c.next ts).operand ts s' := by
  rw [operand_eq_reads hk h, ← hb, reads_operand hp]

theorem reads_filled_eq_reads {p : Position} {e : Expr} (hk : (c.peek ts).kind ≠ .eof)
    (h : ∀ b : Builder, b.atOperator s.use s.pending e (c.peek ts) = b.moveTo p) :
    c.reads ts (s.filled e) = (c.next ts).reads ts (s.builder.moveTo p) := by
  rw [reads_filled, h]
  exact after_eq_reads (b := s.builder.moveTo p) hk

theorem reads_filled_eq_operand {m : Nat} {s' : Seat m} {e : Expr} (hk : (c.peek ts).kind ≠ .eof)
    (hb : s'.builder = s.builder)
    (hp : ∀ (b : Builder) (t : Token), b.checkArguments s'.pending t = b)
    (h : ∀ b : Builder,
      b.atOperator s.use s.pending e (c.peek ts) = b.moveTo (.operand s'.use s'.pending)) :
    c.reads ts (s.filled e) = (c.next ts).operand ts s' := by
  rw [reads_filled_eq_reads hk h, ← hb, reads_operand hp]

end Cursor

namespace Descent

variable {ι α : Type} {ts : List Token} {c : Cursor} {n : Nat}

/-- The procedure reads an operand of level `n`, behind which a kind of token with `follows`
stands. -/
def TracksOperand (ts : List Token) (n : Nat) (p : Descent Expr) (c : Cursor)
    (follows : TokenKind → Prop) : Prop :=
  Tracks ts p c (fun s : Seat n => c.operand ts s) Seat.builder
    (fun s e c' => c'.reads ts (s.filled e))
    fun _ c' => c.current < c'.current ∧ follows (c'.peek ts).kind

/-- The procedure goes on behind the operand `e` of level `n`. -/
def TracksRest (ts : List Token) (n : Nat) (p : Descent Expr) (e : Expr) (c : Cursor)
    (follows : TokenKind → Prop) : Prop :=
  Tracks ts p c (fun s : Seat n => c.reads ts (s.filled e)) Seat.builder
    (fun s e c' => c'.reads ts (s.filled e)) fun _ c' => follows (c'.peek ts).kind

/-- The procedure reads the arguments of a call up to where the closing parenthesis stands. -/
def TracksArguments (ts : List Token) (p : Descent (List Expr)) (callee : Expr) (c : Cursor)
    (start : Seat 7 → Builder) : Prop :=
  Tracks ts p c (fun s => c.reads ts (start s)) Seat.builder
    (fun s args c' => c'.needs ts s.builder .rightParen "Expect ')' after arguments."
      (s.filled (.call callee args (c'.peek ts).line)))
    fun _ _ => True

/-- Goes on behind an operand for the places that `seat` gives. -/
theorem TracksOperand.bind {p : Descent Expr} {follows : TokenKind → Prop} {k : Expr → Descent α}
    {start : ι → Parsed} {base : ι → Builder} {done : ι → α → Cursor → Parsed}
    {post : α → Cursor → Prop} (h : TracksOperand ts n p c follows) (seat : ι → Seat n)
    (hb : ∀ i, (seat i).builder.recovering = (base i).recovering)
    (hs : ∀ i, start i = c.operand ts (seat i))
    (hk : ∀ e c', c.current < c'.current → c'.InText ts → follows (c'.peek ts).kind →
      Tracks ts (k e) c' (fun i => c'.reads ts ((seat i).filled e)) base done post) :
    Tracks ts (p >>= k) c start base done post :=
  Tracks.bind (h.reindex seat hs hb) fun e c' _ hc' hp => hk e c' hp.1 hc' hp.2

/-- Every procedure for expressions tracks builders from the cursor on. -/
structure ExpressionsTrack (ts : List Token) (c : Cursor) : Prop where
  expression : TracksOperand ts 0 (expression ts) c Closes
  level : ∀ n, 1 ≤ n → n ≤ 7 → TracksOperand ts n (level ts n) c (Follows (n - 1))
  joined : ∀ n left, 1 ≤ n → n ≤ 6 → TracksRest ts n (joined ts n left) left c fun k =>
    Follows n (c.peek ts).kind → Follows (n - 1) k
  unary : TracksOperand ts 7 (unary ts) c (Follows 6)
  calls : ∀ callee, TracksRest ts 7 (calls ts callee) callee c (Follows 6)
  arguments : ∀ callee, TracksArguments ts (arguments ts) callee c fun s =>
    s.builder.moveTo (.firstArgument s.use s.pending callee)
  argumentsAfter : ∀ callee done, TracksArguments ts (argumentsAfter ts done) callee c fun s =>
    s.builder.moveTo (.operand s.use (.arguments callee done :: s.pending))

/-- They do from every later cursor. -/
def Later (ts : List Token) (c : Cursor) : Prop :=
  ∀ c' : Cursor, c'.InText ts → c.current < c'.current → ExpressionsTrack ts c'

theorem Later.next (h : Later ts c) (hc : c.InText ts) (hk : (c.peek ts).kind ≠ .eof) :
    ExpressionsTrack ts (c.next ts) :=
  h _ hc.next (Cursor.lt_next hk)

theorem primary_tracks (hc : c.InText ts) (h : Later ts c) (hb : (c.peek ts).kind ≠ .bang)
    (hm : (c.peek ts).kind ≠ .minus) : TracksOperand ts 7 (primary ts) c fun _ => True := by
  unfold TracksOperand
  rw [primary.eq_1]
  refine .look ?_
  split
  case h_1 hk | h_2 hk | h_3 hk | h_4 hk | h_5 hk | h_6 hk =>
    have hne : (c.peek ts).kind ≠ .eof := by simp [hk]
    refine .advance (.result hc.next ⟨Cursor.lt_next hne, trivial⟩ fun s => ?_)
    exact Cursor.operand_eq_reads hne fun b => by simp [Builder.startOperand, hk]
  case h_7 hk =>
    have hne : (c.peek ts).kind ≠ .eof := by simp [hk]
    refine .advance ((h.next hc hne).expression.bind Seat.group (fun _ => rfl) (fun s => ?_)
      fun e c₁ hlt hc₁ hclose => ?_)
    · exact Cursor.operand_eq_operand hne rfl (fun _ _ => rfl) fun b => by
        simp [Builder.startOperand, hk, Seat.group]
    · refine .consume (fun s _ => s.filled (.grouping e)) hc₁ (by decide)
        (fun s => Cursor.reads_filled_of_closes hclose) fun _ c₂ hlt₂ hc₂ => ?_
      exact .result hc₂ ⟨((Cursor.lt_next hne).trans hlt).trans hlt₂, trivial⟩ fun _ => rfl
  case h_8 =>
    refine .mistake hc fun s => ?_
    rw [← Cursor.after_fail, Cursor.operand]
    congr 1
    unfold Builder.startOperand
    split <;> simp_all

theorem applied_tracks (hc : c.InText ts) (h : Later ts c) (op : UnaryOp) (line : Nat)
    (hk : (c.peek ts).kind ≠ .eof)
    (ho : ∀ (b : Builder) (use : Use) (pending : List Pending),
      b.startOperand use pending (c.peek ts) =
        b.moveTo (.operand use (.unary op line :: pending))) :
    TracksOperand ts 7 (do advance ts; return .unary op (← unary ts) line) c (Follows 6) := by
  refine .advance ((h.next hc hk).unary.bind (·.unary op line) (fun _ => rfl) (fun s => ?_)
    fun e c₁ hlt hc₁ hf => ?_)
  · exact Cursor.operand_eq_operand hk rfl (fun _ _ => rfl) fun b => ho b s.use s.pending
  · refine .result hc₁ ⟨(Cursor.lt_next hk).trans hlt, hf⟩ fun s => ?_
    rw [Cursor.reads_filled, Cursor.reads_filled, Seat.unary, Builder.atOperator_unary hf.tighter]

theorem unary_tracks (hc : c.InText ts) (h : Later ts c) :
    TracksOperand ts 7 (unary ts) c (Follows 6) := by
  rw [unary.eq_1]
  refine Tracks.look ?_
  split
  case h_1 hk | h_2 hk =>
    exact applied_tracks hc h _ _ (by simp [hk]) fun b use pending => by
      simp [Builder.startOperand, hk]
  case h_3 hb hm =>
    refine (primary_tracks hc h hb hm).bind id (fun _ => rfl) (fun _ => rfl)
      fun e c₁ hlt hc₁ _ => ?_
    exact ((h c₁ hc₁ hlt).calls e).weaken fun _ c₂ hle hf => ⟨Nat.lt_of_lt_of_le hlt hle, hf⟩

theorem follows_six {k : TokenKind} (h : k ≠ .leftParen) : Follows 6 k :=
  .inr ⟨h, fun op _ => Nat.le_of_lt_succ (level_lt op)⟩

theorem calls_tracks (hc : c.InText ts) (h : Later ts c) (callee : Expr) :
    TracksRest ts 7 (calls ts callee) callee c (Follows 6) := by
  rw [calls.eq_1]
  refine Tracks.look ?_
  split
  next hk =>
    have hne : (c.peek ts).kind ≠ .eof := by simp [hk]
    have hargs := (h.next hc hne).arguments callee
    refine .advance (.bind (hargs.restart fun s => ?_) fun args c₁ hle hc₁ _ => ?_)
    · exact Cursor.reads_filled_eq_reads hne fun b => Builder.atOperator_leftParen hk
    · refine .consume (fun s t => s.filled (.call callee args t.line)) hc₁ (by decide)
        (fun _ => rfl) fun t c₂ hlt hc₂ => ?_
      have hlt' : c.current < c₂.current :=
        ((Cursor.lt_next hne).trans_le hle).trans hlt
      exact (h c₂ hc₂ hlt').calls _
  next hk => exact .result hc (follows_six hk) fun _ => rfl

theorem follows_pred {k : TokenKind} (h : Follows n k) (hn : n < 7)
    (hne : ∀ op, Connective.ofKind? k = some op → op.level ≠ n) : Follows (n - 1) k := by
  obtain h | ⟨hk, h⟩ := h
  · omega
  · refine .inr ⟨hk, fun op ho => ?_⟩
    have hle := h op ho
    have hlt := hne op ho
    omega

theorem joined_tracks (hc : c.InText ts) (h : Later ts c) (left : Expr) (h₁ : 1 ≤ n) (h₆ : n ≤ 6) :
    TracksRest ts n (joined ts n left) left c fun k =>
      Follows n (c.peek ts).kind → Follows (n - 1) k := by
  rw [joined.eq_1]
  refine Tracks.look ?_
  split
  next op ho =>
    split
    next hn =>
      have hne : (c.peek ts).kind ≠ .eof := by
        intro hk
        simp [hk, Connective.ofKind?, BinaryOp.ofKind?] at ho
      have hright := (h.next hc hne).level (n + 1) (by omega) (by omega)
      refine .advance (hright.bind (·.joined left op (c.peek ts).line hn) (fun _ => rfl)
        (fun s => ?_) fun right c₁ hlt hc₁ hf₁ => ?_)
      · exact Cursor.reads_filled_eq_operand hne rfl (fun _ _ => rfl) fun _ =>
          Builder.atOperator_connective (hn ▸ operators_of_ofKind? ho) (s.free (by omega))
      · -- The right operand is whole before any operator that binds no tighter than this one.
        have hlt' := (Cursor.lt_next hne).trans hlt
        have hrest := (h c₁ hc₁ hlt').joined n (op.join left right (c.peek ts).line) h₁ h₆
        refine (hrest.restart fun s => ?_).weaken fun _ _ _ hp _ => hp hf₁
        rw [Cursor.reads_filled, Cursor.reads_filled, Seat.joined,
          Builder.atOperator_joined hn (by omega) hf₁]
    next hn =>
      refine .result hc (fun hf => follows_pred hf (by omega) fun op' ho' => ?_) fun _ => rfl
      cases ho.symm.trans ho'
      exact hn
  next ho =>
    refine .result hc (fun hf => follows_pred hf (by omega) fun op' ho' => ?_) fun _ => rfl
    cases ho.symm.trans ho'

/-- An operand of a level is read up to a token with which an operand of that level cannot go on. -/
theorem level_tracks (hc : c.InText ts) (h : Later ts c) (h₁ : 1 ≤ n) (h₇ : n ≤ 7) :
    TracksOperand ts n (level ts n) c (Follows (n - 1)) := by
  -- An operand starts with one of the next tighter level, so the levels go down from 7.
  induction hm : 7 - n generalizing n with
  | zero =>
    obtain rfl : n = 7 := by omega
    rw [level.eq_1]
    exact unary_tracks hc h
  | succ m ih =>
    rw [level.eq_1, if_pos (by omega)]
    refine (ih (n := n + 1) (by omega) (by omega) (by omega)).bind Seat.tighter (fun _ => rfl)
      (fun _ => rfl) fun left c₁ hlt hc₁ hf => ?_
    exact ((h c₁ hc₁ hlt).joined n left h₁ (by omega)).weaken fun _ c₂ hle hp =>
      ⟨Nat.lt_of_lt_of_le hlt hle, hp hf⟩

theorem closes_of_follows {k : TokenKind} (h : Follows 0 k) (he : k ≠ .equal) : Closes k := by
  obtain h | ⟨hk, h⟩ := h
  · omega
  · refine ⟨hk, he, Option.eq_none_iff_forall_ne_some.mpr fun op ho => ?_⟩
    have hle := h op ho
    have hpos := level_pos op
    omega

/-- An expression is read, with the value if it is assigned to, up to a token with which no
expression goes on. -/
theorem expression_tracks (hc : c.InText ts) (h : Later ts c) :
    TracksOperand ts 0 (expression ts) c Closes := by
  rw [expression.eq_1]
  refine (level_tracks hc h (Nat.le_refl 1) (by omega)).bind Seat.tighter (fun _ => rfl)
    (fun _ => rfl) fun target c₁ hlt hc₁ hf => ?_
  refine .look ?_
  split
  next hk =>
    have hne : (c₁.peek ts).kind ≠ .eof := by simp [hk]
    have hlt' := hlt.trans (Cursor.lt_next hne)
    refine .advance ((h _ hc₁.next hlt').expression.bind (·.assign target (c₁.peek ts).line)
      (fun _ => rfl) (fun s => ?_) fun value c₂ hlt₂ hc₂ hclose => ?_)
    · exact Cursor.reads_filled_eq_operand hne rfl (fun _ _ => rfl) fun _ =>
        Builder.atOperator_equal hk (s.free (by omega))
    · split
      next name line =>
        refine .result hc₂ ⟨hlt'.trans hlt₂, hclose⟩ fun s => ?_
        rw [Cursor.reads_filled_of_closes hclose, Cursor.reads_filled_of_closes hclose]
        rfl
      next hl =>
        refine .mistake hc₂ fun s => ?_
        rw [Cursor.reads_filled_of_closes hclose, ← Cursor.after_fail]
        congr 1
        cases target with
        | lookup name line => exact absurd rfl (hl name line)
        | _ => rfl
  next hk => exact .result hc₁ ⟨hlt, closes_of_follows hf hk⟩ fun _ => rfl

theorem argumentsAfter_tracks (hc : c.InText ts) (h : Later ts c) (callee : Expr)
    (done : List Expr) :
    TracksArguments ts (argumentsAfter ts done) callee c fun s =>
      s.builder.moveTo (.operand s.use (.arguments callee done :: s.pending)) := by
  rw [argumentsAfter.eq_1]
  refine Tracks.checkItems fun c₁ heq hb => ?_
  -- The complaint does not move the cursor, so the expression starts where the argument does.
  have hc₁ : c₁.InText ts := heq.trans_le hc
  have h₁ : Later ts c₁ := fun c' hc' hlt => h c' hc' (heq ▸ hlt)
  refine (expression_tracks hc₁ h₁).bind (·.argument callee done) (fun _ => rfl) (fun s => ?_)
    fun e c₂ hlt hc₂ hclose => ?_
  · rw [Cursor.reads_eq_after, Cursor.operand, Cursor.after_congr heq, Cursor.peek_congr heq]
    change c.after ts (((s.builder.upTo c).moveTo (.operand s.use _)).feed _) = _
    rw [Builder.feed_operand, Builder.atOperand_eq_startOperand]
    exact congrArg (fun b : Builder => c.after ts (b.startOperand _ _ _)) (hb s.builder)
  refine .look ?_
  have hend : ∀ s : Seat 7, c₂.reads ts ((s.argument callee done).filled e) =
      c₂.after ts (if (c₂.peek ts).kind = .comma then
        (s.builder.upTo c₂).moveTo (.operand s.use (.arguments callee (e :: done) :: s.pending))
      else (s.builder.upTo c₂).need .rightParen "Expect ')' after arguments." (c₂.peek ts)
        ((s.filled (.call callee (e :: done).reverse (c₂.peek ts).line)).upTo c₂)) :=
    fun _ => Cursor.reads_filled_of_closes hclose
  split
  next hk =>
    have hne : (c₂.peek ts).kind ≠ .eof := by simp [hk]
    have hlt' := hlt.trans (Cursor.lt_next hne)
    have hrest := (h₁ _ hc₂.next hlt').argumentsAfter callee (e :: done)
    refine .advance (hrest.restart fun s => ?_)
    rw [hend, if_pos hk]
    exact Cursor.after_eq_reads (b := s.builder.moveTo _) hne
  next hk =>
    refine .result hc₂ trivial fun s => ?_
    rw [hend, if_neg hk]
    rfl

/-- The arguments of a call are read up to the closing parenthesis, with a complaint where they get
too many. -/
theorem arguments_tracks (hc : c.InText ts) (h : Later ts c) (callee : Expr) :
    TracksArguments ts (arguments ts) callee c fun s =>
      s.builder.moveTo (.firstArgument s.use s.pending callee) := by
  rw [arguments.eq_1]
  refine Tracks.look ?_
  have hfeed : ∀ s : Seat 7, c.reads ts (s.builder.moveTo (.firstArgument s.use s.pending callee)) =
      c.after ts (if (c.peek ts).kind = .rightParen then
        (s.filled (.call callee [] (c.peek ts).line)).upTo c
      else ((s.builder.upTo c).moveTo (.firstArgument s.use s.pending callee)).atOperand s.use
        (.arguments callee [] :: s.pending) (c.peek ts)) :=
    fun _ => Cursor.reads_eq_after
  split
  next hk =>
    refine .result hc trivial fun s => ?_
    rw [hfeed, if_pos hk, Cursor.needs, Builder.need_of_eq hk]
  next hk =>
    refine (argumentsAfter_tracks hc h callee []).restart fun s => ?_
    rw [hfeed, if_neg hk, Builder.moveTo_atOperand, ← Builder.feed_operand]
    exact (Cursor.reads_eq_after (b := s.builder.moveTo _)).symm

/-- Every procedure for expressions tracks builders, from every cursor. -/
theorem expressionsTrack (hc : c.InText ts) : ExpressionsTrack ts c := by
  induction c, hc using Cursor.InText.induction with
  | step c hc h =>
    exact
      { expression := expression_tracks hc h
        level := fun n h₁ h₇ => level_tracks hc h h₁ h₇
        joined := fun n left h₁ h₆ => joined_tracks hc h left h₁ h₆
        unary := unary_tracks hc h
        calls := calls_tracks hc h
        arguments := arguments_tracks hc h
        argumentsAfter := argumentsAfter_tracks hc h }

end Descent

end ClosureLang
