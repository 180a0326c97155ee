import ClosureLang.Proofs.Grammar.Openings

namespace ClosureLang

namespace Stmt

def declared? : Stmt → Option String
  | .create name _ _ | .function name _ _ _ => some name
  | _ => none

mutual

/-- Returns stand in function bodies, if not `inside` one, and parts of statements are no
declarations. -/
def Formed (inside : Bool) : Stmt → Prop
  | .expression _ | .output _ | .create _ _ _ => True
  | .block body => FormedAll inside body
  | .ifThen _ yes => yes.declared? = none ∧ yes.Formed inside
  | .ifElse _ yes no =>
    (yes.declared? = none ∧ yes.Formed inside) ∧ no.declared? = none ∧ no.Formed inside
  | .loop _ body => body.declared? = none ∧ body.Formed inside
  | .function _ _ body _ => FormedAll true body
  | .giveBack _ _ => inside = true

def FormedAll (inside : Bool) : List Stmt → Prop
  | [] => True
  | s :: rest => s.Formed inside ∧ FormedAll inside rest

end

theorem formedAll_iff {inside : Bool} {body : List Stmt} :
    FormedAll inside body ↔ ∀ s ∈ body, s.Formed inside := by
  induction body with
  | nil => simp [FormedAll]
  | cons s rest ih => simp [FormedAll, ih]

theorem formedAll_reverse {inside : Bool} {body : List Stmt} (h : ∀ s ∈ body, s.Formed inside) :
    FormedAll inside body.reverse :=
  formedAll_iff.mpr fun s hs => h s (List.mem_reverse.mp hs)

theorem forLoop_formed {inside : Bool} {initial : Option Stmt} {condition increment : Option Expr}
    {body : Stmt} (hi : ∀ s ∈ initial, s.Formed inside) (hd : body.declared? = none)
    (hb : body.Formed inside) : (forLoop initial condition increment body).Formed inside := by
  have hloop : (forLoop none condition increment body).Formed inside := by
    cases increment with
    | none => exact ⟨hd, hb⟩
    | some e => exact ⟨rfl, hb, trivial, trivial⟩
  cases initial with
  | none => exact hloop
  | some s => exact ⟨hi s rfl, hloop, trivial⟩

theorem forLoop_declared? (initial : Option Stmt) (condition increment : Option Expr)
    (body : Stmt) : (forLoop initial condition increment body).declared? = none := by
  cases initial <;> rfl

end Stmt

namespace Grammar

/-- A statement that can stand in a place. -/
def Suits (place : Place) (inside : Bool) (s : Stmt) : Prop :=
  s.Formed inside ∧ (place = .single → s.declared? = none)

/-- The constructs that are open around a place, with formed statements in them. -/
inductive Surrounds : Place → Bool → List Open → Prop where
  | nil : Surrounds .list false []
  | block {place : Place} {inside : Bool} {opened : List Open} {done : List Stmt}
      (h : Surrounds place inside opened) (hp : place ≠ .initial)
      (hd : ∀ s ∈ done, s.Formed inside) : Surrounds .list inside (.block done :: opened)
  | body {inside : Bool} {opened : List Open} {head : FunctionHead} {done : List Stmt}
      (h : Surrounds .list inside opened) (hd : ∀ s ∈ done, s.Formed true) :
      Surrounds .list true (.body head done :: opened)
  | thenBranch {place : Place} {inside : Bool} {opened : List Open} {condition : Expr}
      (h : Surrounds place inside opened) (hp : place ≠ .initial) :
      Surrounds .single inside (.thenBranch condition :: opened)
  | elseBranch {place : Place} {inside : Bool} {opened : List Open} {condition : Expr} {yes : Stmt}
      (h : Surrounds place inside opened) (hp : place ≠ .initial)
      (hy : Suits .single inside yes) :
      Surrounds .single inside (.elseBranch condition yes :: opened)
  | loopBody {place : Place} {inside : Bool} {opened : List Open} {condition : Expr}
      (h : Surrounds place inside opened) (hp : place ≠ .initial) :
      Surrounds .single inside (.loopBody condition :: opened)
  | forInitial {place : Place} {inside : Bool} {opened : List Open}
      (h : Surrounds place inside opened) (hp : place ≠ .initial) :
      Surrounds .initial inside (.forInitial :: opened)
  | forBody {place : Place} {inside : Bool} {opened : List Open} {initial : Option Stmt}
      {condition increment : Option Expr} (h : Surrounds place inside opened)
      (hp : place ≠ .initial) (hi : ∀ s ∈ initial, s.Formed inside) :
      Surrounds .single inside (.forBody initial condition increment :: opened)

theorem Surrounds.inside_eq {place : Place} {inside : Bool} {opened : List Open}
    (h : Surrounds place inside opened) : inside = opened.any Open.isBody := by
  induction h with
  | nil => rfl
  | body => rfl
  | block _ _ _ ih | thenBranch _ _ ih | elseBranch _ _ _ ih | loopBody _ _ ih | forInitial _ _ ih
  | forBody _ _ _ ih => exact ih

/-- Recovery comes out between declarations. -/
theorem Surrounds.dropWhile {place : Place} {inside : Bool} {opened : List Open}
    (h : Surrounds place inside opened) :
    ∃ inside', Surrounds .list inside' (opened.dropWhile (! ·.isBlock)) := by
  induction h with
  | nil => exact ⟨_, .nil⟩
  | block h hp hd _ => exact ⟨_, h.block hp hd⟩
  | body h hd _ => exact ⟨_, h.body hd⟩
  | thenBranch _ _ ih | elseBranch _ _ _ ih | loopBody _ _ ih | forInitial _ _ ih
  | forBody _ _ _ ih => exact ih

/-- Whether an expression can be read for a use in a place. -/
def Allows (place : Place) (inside : Bool) : Use → Prop
  | .expression => True
  | .output | .ifCondition | .loopCondition => place ≠ .initial
  | .initial _ _ => place ≠ .single
  | .result _ => place ≠ .initial ∧ inside = true
  | .forCondition initial | .forIncrement initial _ =>
    place ≠ .initial ∧ ∀ s ∈ initial, s.Formed inside

/-- Whether reading can be at a position in a place. -/
def Admits (place : Place) (inside : Bool) : Position → Prop
  | .declaration | .discard | .skip | .functionName | .functionOpen _ _ | .firstParameter _ _
  | .parameter _ _ _ | .parameterRest _ _ _ | .functionBrace _ => place = .list
  | .statement | .ifOpen | .loopOpen | .forOpen | .forStart => place ≠ .initial
  | .operand use _ | .operator use _ _ | .firstArgument use _ _ => Allows place inside use
  | .completed s => Suits place inside s
  | .createName | .createRest _ _ => place ≠ .single
  | .forCondition initial | .forIncrement initial _ =>
    place ≠ .initial ∧ ∀ s ∈ initial, s.Formed inside
  | .resultStart _ => place ≠ .initial ∧ inside = true

end Grammar

namespace Builder

open Grammar

/-- Everything recorded is formed, and the constructs that are open surround the place. -/
structure Framed (place : Place) (inside : Bool) (b : Builder) : Prop where
  statements : ∀ s ∈ b.statements, s.Formed false
  opened : Surrounds place inside b.opened

/-- What was read so far is formed, and reading is at a position that the place admits. -/
def Formed (b : Builder) : Prop :=
  ∃ place inside, b.Framed place inside ∧ Admits place inside b.position

variable {b : Builder} {t : Token} {place : Place} {inside : Bool} {use : Use}
  {pending : List Pending} {e : Expr} {s : Stmt} {p : Position}

theorem Framed.moveTo (h : b.Framed place inside) (hp : Admits place inside p) :
    (b.moveTo p).Formed :=
  ⟨place, inside, ⟨h.statements, h.opened⟩, hp⟩

theorem Framed.report (h : b.Framed place inside) (x : SyntaxError) :
    (b.report x).Framed place inside :=
  ⟨h.statements, h.opened⟩

theorem Framed.abandon (h : b.Framed place inside) (x : SyntaxError)
    (hp : ∀ inside', Admits .list inside' p) : (b.abandon x p).Formed := by
  obtain ⟨inside', ho⟩ := h.opened.dropWhile
  exact ⟨.list, inside', ⟨h.statements, ho⟩, hp inside'⟩

theorem admits_afterDropping (inside : Bool) (t : Token) :
    Admits .list inside (afterDropping t) := by
  unfold afterDropping
  split <;> rfl

theorem Framed.fail (h : b.Framed place inside) (x : SyntaxError) (t : Token) :
    (b.fail x t).Formed :=
  h.abandon x fun inside' => admits_afterDropping inside' t

theorem Framed.need {kind : TokenKind} {message : String} {next : Builder}
    (h : b.Framed place inside) (hn : next.Formed) : (b.need kind message t next).Formed := by
  unfold Builder.need
  split
  · exact hn
  · exact h.fail _ t

theorem formed_ite {q : Prop} [Decidable q] {b b' : Builder} (h : b.Formed) (h' : b'.Formed) :
    (if q then b else b').Formed := by
  split
  · exact h
  · exact h'

theorem Framed.checkArguments (h : b.Framed place inside) (pending : List Pending) (t : Token) :
    (b.checkArguments pending t).Framed place inside := by
  unfold Builder.checkArguments
  split
  · split
    · exact h.report _
    · exact h
  · exact h

theorem Framed.atOperand (h : b.Framed place inside) (hu : Allows place inside use) :
    (b.atOperand use pending t).Formed := by
  have hc := h.checkArguments pending t
  unfold Builder.atOperand
  dsimp only
  split
  case h_10 => exact hc.fail _ t
  all_goals exact hc.moveTo hu

theorem Framed.afterExpression (h : b.Framed place inside) (hu : Allows place inside use) :
    (b.afterExpression use e t).Formed := by
  cases use with
  | expression => exact h.need (h.moveTo ⟨trivial, fun _ => rfl⟩)
  | output => exact h.need (h.moveTo ⟨trivial, fun _ => rfl⟩)
  | initial name line => exact h.need (h.moveTo ⟨trivial, fun hp => absurd hp hu⟩)
  | ifCondition =>
    exact h.need ⟨.single, inside, ⟨h.statements, h.opened.thenBranch hu⟩, nofun⟩
  | loopCondition =>
    exact h.need ⟨.single, inside, ⟨h.statements, h.opened.loopBody hu⟩, nofun⟩
  | result line => exact h.need (h.moveTo ⟨hu.2, fun _ => rfl⟩)
  | forCondition initial => exact h.need (h.moveTo hu)
  | forIncrement initial condition =>
    exact h.need ⟨.single, inside, ⟨h.statements, h.opened.forBody hu.1 hu.2⟩, nofun⟩

theorem Framed.atEnd (h : b.Framed place inside) (hu : Allows place inside use) :
    (b.atEnd use pending e t).Formed := by
  unfold Builder.atEnd
  split
  · exact h.afterExpression hu
  · exact h.need (h.moveTo hu)
  · exact formed_ite (h.moveTo hu) (h.need (h.moveTo hu))
  · exact h.fail _ t

theorem Framed.atOperator (h : b.Framed place inside) (hu : Allows place inside use) :
    (b.atOperator use pending e t).Formed := by
  unfold Builder.atOperator
  split
  · exact h.moveTo hu
  · exact h.moveTo hu
  · split
    · exact h.moveTo hu
    · exact h.atEnd hu

theorem Framed.atStatement (h : b.Framed place inside) (hp : place ≠ .initial) :
    (b.atStatement t).Formed := by
  unfold Builder.atStatement
  split
  · exact h.moveTo hp
  · exact h.moveTo hp
  · exact h.moveTo hp
  · exact h.moveTo hp
  · split
    next hb => exact h.moveTo ⟨hp, h.opened.inside_eq.trans hb⟩
    next => exact h.abandon _ fun _ => rfl
  · exact ⟨.list, inside, ⟨h.statements, h.opened.block hp (by simp)⟩, rfl⟩
  · exact h.atOperand trivial

theorem Framed.atDeclaration (h : b.Framed .list inside) : (b.atDeclaration t).Formed := by
  obtain ⟨hs, ho⟩ := h
  unfold Builder.atDeclaration
  split
  · exact Framed.moveTo ⟨hs, ho⟩ rfl
  · exact Framed.moveTo ⟨hs, ho⟩ (nofun : Place.list ≠ .single)
  · exact Framed.moveTo ⟨hs, ho⟩ rfl
  next done rest hk hb =>
    rw [hb] at ho
    cases ho with
    | block ho hp hd =>
      exact ⟨_, _, ⟨hs, ho⟩, Stmt.formedAll_reverse hd, fun _ => rfl⟩
  next head done rest hk hb =>
    rw [hb] at ho
    cases ho with
    | body ho hd => exact ⟨_, _, ⟨hs, ho⟩, Stmt.formedAll_reverse hd, nofun⟩
  · exact Framed.atStatement ⟨hs, ho⟩ nofun

theorem Framed.atForCondition {initial : Option Stmt} (h : b.Framed place inside)
    (hp : place ≠ .initial) (hi : ∀ s ∈ initial, s.Formed inside) :
    (b.atForCondition initial t).Formed :=
  formed_ite (h.moveTo ⟨hp, hi⟩) (h.atOperand ⟨hp, hi⟩)

theorem formed_afterStatement {opened : List Open} (hb : ∀ s ∈ b.statements, s.Formed false)
    (ho : Surrounds place inside opened) (hs : Suits place inside s) :
    (b.afterStatement t s opened).Formed := by
  induction ho generalizing s with
  | nil =>
    have hall : ∀ u ∈ s :: b.statements, u.Formed false := List.forall_mem_cons.mpr ⟨hs.1, hb⟩
    exact Framed.atDeclaration
      (b := { b with opened := [], statements := s :: b.statements }) ⟨hall, .nil⟩
  | block ho hp hd _ =>
    have ho' := ho.block hp (List.forall_mem_cons.mpr ⟨hs.1, hd⟩)
    exact Framed.atDeclaration (b := { b with opened := _ }) ⟨hb, ho'⟩
  | @body inside opened head done ho hd _ =>
    have ho' : Surrounds .list true (.body head (s :: done) :: opened) :=
      ho.body (List.forall_mem_cons.mpr ⟨hs.1, hd⟩)
    exact Framed.atDeclaration (b := { b with opened := _ }) ⟨hb, ho'⟩
  | thenBranch ho hp ih =>
    unfold afterStatement
    refine formed_ite ?_ (ih ⟨⟨hs.2 rfl, hs.1⟩, fun _ => rfl⟩)
    exact ⟨.single, _, ⟨hb, ho.elseBranch hp hs⟩, by simp [Admits]⟩
  | elseBranch ho hp hy ih =>
    exact ih ⟨⟨⟨hy.2 rfl, hy.1⟩, hs.2 rfl, hs.1⟩, fun _ => rfl⟩
  | loopBody ho hp ih => exact ih ⟨⟨hs.2 rfl, hs.1⟩, fun _ => rfl⟩
  | forInitial ho hp _ =>
    exact Framed.atForCondition (b := { b with opened := _ }) ⟨hb, ho⟩ hp
      fun u hu => Option.some.inj hu ▸ hs.1
  | forBody ho hp hi ih =>
    exact ih ⟨Stmt.forLoop_formed hi (hs.2 rfl) hs.1, fun _ => Stmt.forLoop_declared? _ _ _ _⟩

theorem Framed.atParameter {name : String} {line : Nat} {done : List String}
    (h : b.Framed .list inside) : (b.atParameter name line done t).Formed := by
  unfold Builder.atParameter
  split
  · exact (h.report _).need ((h.report _).moveTo rfl)
  · exact h.need (h.moveTo rfl)

/-- Reading a token keeps everything formed, whether it fits or not. -/
theorem Formed.feed (h : b.Formed) (t : Token) : (b.feed t).Formed := by
  obtain ⟨place, inside, hf, hp⟩ := h
  unfold Builder.feed
  cases hb : b.position with
  | declaration =>
    rw [hb] at hp
    cases hp
    exact hf.atDeclaration
  | statement =>
    rw [hb] at hp
    exact hf.atStatement hp
  | operand use pending =>
    rw [hb] at hp
    exact hf.atOperand hp
  | operator use pending e =>
    rw [hb] at hp
    exact hf.atOperator hp
  | firstArgument use pending callee =>
    rw [hb] at hp
    exact formed_ite (hf.moveTo hp) (hf.atOperand hp)
  | completed s =>
    rw [hb] at hp
    exact formed_afterStatement hf.statements hf.opened hp
  | createName =>
    rw [hb] at hp
    exact hf.need (hf.moveTo hp)
  | createRest name line =>
    rw [hb] at hp
    exact formed_ite (hf.moveTo hp) (hf.need (hf.moveTo ⟨trivial, fun h => absurd h hp⟩))
  | functionName | functionOpen name line =>
    rw [hb] at hp
    exact hf.need (hf.moveTo hp)
  | firstParameter name line =>
    rw [hb] at hp
    cases hp
    exact formed_ite (hf.moveTo rfl) hf.atParameter
  | parameter name line done =>
    rw [hb] at hp
    cases hp
    exact hf.atParameter
  | parameterRest name line done =>
    rw [hb] at hp
    exact formed_ite (hf.moveTo hp) (hf.need (hf.moveTo hp))
  | functionBrace head =>
    rw [hb] at hp
    cases hp
    exact hf.need ⟨.list, true, ⟨hf.statements, hf.opened.body (by simp)⟩, rfl⟩
  | ifOpen | loopOpen | forOpen =>
    rw [hb] at hp
    exact hf.need (hf.moveTo hp)
  | forStart =>
    rw [hb] at hp
    have ho : Surrounds .initial inside (.forInitial :: b.opened) := hf.opened.forInitial hp
    dsimp only
    split
    · exact hf.moveTo ⟨hp, nofun⟩
    · exact ⟨.initial, inside, ⟨hf.statements, ho⟩, nofun⟩
    · exact Framed.atOperand (b := { b with opened := _ }) ⟨hf.statements, ho⟩ trivial
  | forCondition initial =>
    rw [hb] at hp
    exact hf.atForCondition hp.1 hp.2
  | forIncrement initial condition =>
    rw [hb] at hp
    refine formed_ite ?_ (hf.atOperand hp)
    exact ⟨.single, inside, ⟨hf.statements, hf.opened.forBody hp.1 hp.2⟩, nofun⟩
  | resultStart line =>
    rw [hb] at hp
    exact formed_ite (hf.moveTo ⟨hp.2, fun _ => rfl⟩) (hf.atOperand hp)
  | discard =>
    rw [hb] at hp
    cases hp
    exact hf.moveTo (admits_afterDropping inside t)
  | skip =>
    rw [hb] at hp
    cases hp
    dsimp only
    split
    case h_8 => exact hf.moveTo (admits_afterDropping inside t)
    all_goals exact hf.atDeclaration

theorem formed_start : start.Formed :=
  ⟨.list, false, ⟨by simp [start], .nil⟩, rfl⟩

theorem formed_foldl (ts : List Token) : (ts.foldl feed start).Formed := by
  have h : ∀ (ts : List Token) (b : Builder), b.Formed → (ts.foldl feed b).Formed := by
    intro ts
    induction ts with
    | nil => exact fun _ hb => hb
    | cons t ts ih => exact fun b hb => ih _ (hb.feed t)
  exact h ts start formed_start

/-- The statements that are read are formed, whatever mistakes are in the tokens. -/
theorem Formed.run (h : b.Formed) (ts : List Token) :
    ∀ s ∈ (b.run ts).statements, s.Formed false := by
  have hend : ∀ {b : Builder} (t : Token), b.Formed → ∀ s ∈ (b.finish t).statements,
      s.Formed false := by
    intro b t hb s hs
    obtain ⟨place, inside, hf, -⟩ := hb.feed t
    exact hf.statements s (List.mem_reverse.mp hs)
  induction ts generalizing b with
  | nil => exact hend _ h
  | cons t ts ih =>
    unfold Builder.run
    split
    · exact hend t h
    · exact ih (h.feed t)

/-- If `t` comes next, the statement `s` has been read to its end inside the constructs `opened`. -/
inductive Completes (b : Builder) (t : Token) : Stmt → List Open → Prop where
  | read {s : Stmt} (h : b.position = .completed s) : Completes b t s b.opened
  | thenBranch {s : Stmt} {condition : Expr} {opened : List Open}
      (h : Completes b t s (.thenBranch condition :: opened)) (ht : t.kind ≠ .else) :
      Completes b t (.ifThen condition s) opened
  | elseBranch {s yes : Stmt} {condition : Expr} {opened : List Open}
      (h : Completes b t s (.elseBranch condition yes :: opened)) :
      Completes b t (.ifElse condition yes s) opened
  | loopBody {s : Stmt} {condition : Expr} {opened : List Open}
      (h : Completes b t s (.loopBody condition :: opened)) :
      Completes b t (.loop condition s) opened
  | forBody {s : Stmt} {initial : Option Stmt} {condition increment : Option Expr}
      {opened : List Open} (h : Completes b t s (.forBody initial condition increment :: opened)) :
      Completes b t (.forLoop initial condition increment s) opened

theorem Completes.feed {opened : List Open} (h : b.Completes t s opened) :
    b.feed t = b.afterStatement t s opened := by
  induction h with
  | read h => simp [Builder.feed, h]
  | thenBranch _ ht ih => rw [ih, afterStatement, if_neg ht]
  | elseBranch _ ih | loopBody _ ih | forBody _ ih => rw [ih, afterStatement]

/-- What is read to its end suits the place where it was read. -/
theorem Formed.completes (hb : b.Formed) {opened : List Open} (h : b.Completes t s opened) :
    ∃ place inside, Surrounds place inside opened ∧ Suits place inside s := by
  induction h with
  | read h =>
    obtain ⟨place, inside, hf, hp⟩ := hb
    rw [h] at hp
    exact ⟨place, inside, hf.opened, hp⟩
  | thenBranch _ _ ih =>
    obtain ⟨_, inside, ho, hs⟩ := ih
    cases ho with
    | thenBranch ho hp => exact ⟨_, inside, ho, ⟨hs.2 rfl, hs.1⟩, fun _ => rfl⟩
  | elseBranch _ ih =>
    obtain ⟨_, inside, ho, hs⟩ := ih
    cases ho with
    | elseBranch ho hp hy =>
      exact ⟨_, inside, ho, ⟨⟨hy.2 rfl, hy.1⟩, hs.2 rfl, hs.1⟩, fun _ => rfl⟩
  | loopBody _ ih =>
    obtain ⟨_, inside, ho, hs⟩ := ih
    cases ho with
    | loopBody ho hp => exact ⟨_, inside, ho, ⟨hs.2 rfl, hs.1⟩, fun _ => rfl⟩
  | forBody _ ih =>
    obtain ⟨_, inside, ho, hs⟩ := ih
    cases ho with
    | forBody ho hp hi =>
      exact ⟨_, inside, ho, Stmt.forLoop_formed hi (hs.2 rfl) hs.1,
        fun _ => Stmt.forLoop_declared? _ _ _ _⟩

end Builder

/-- Every statement that is read has returns in function bodies only and no declaration as a part of
another statement, whatever else is wrong with the tokens. -/
theorem parse_formed (ts : List Token) : ∀ s ∈ (parse ts).statements, s.Formed false :=
  Builder.formed_start.run ts

end ClosureLang
