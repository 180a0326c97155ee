import ClosureLang.Proofs.Recovery.Boundaries

namespace ClosureLang

/-- Whether a whole expression is a clause of a `for` loop. -/
def Use.inHeader : Use → Bool
  | .forCondition _ | .forIncrement _ _ => true
  | _ => false

/-- Whether a position is between `for` and the end of its clauses. -/
def Position.inHeader : Position → Bool
  | .forOpen | .forStart | .forCondition _ | .forIncrement _ _ => true
  | .operand use _ | .operator use _ _ | .firstArgument use _ _ => use.inHeader
  | _ => false

namespace Builder

open Grammar

/-- No block is open, and the first clause of a `for` loop only if there may be `loops`. -/
def Waits (b : Builder) (loops : Bool) : Prop :=
  ∀ o ∈ b.opened, o.isPart = true ∨ loops = true ∧ o = .forInitial

/-- No block is open, and reading is at the clauses of a loop only if there may be `loops`. -/
def Straight (b : Builder) (loops : Bool) : Prop :=
  b.Waits loops ∧ (b.position.inHeader = true → loops = true)

variable {b : Builder} {t : Token} {use : Use} {pending : List Pending} {e : Expr} {p : Position}
  {loops : Bool}

theorem Waits.moveTo (h : b.Waits loops) (hp : p.inHeader = true → loops = true) :
    (b.moveTo p).Straight loops :=
  ⟨h, hp⟩

theorem Waits.leave (h : b.Waits loops) (hp : p.inHeader = false) : (b.moveTo p).Straight loops :=
  h.moveTo fun hin => absurd hin (by simp [hp])

theorem straight_start : start.Straight loops :=
  Waits.leave (b := start) (List.forall_mem_nil _) rfl

theorem Waits.enter {construct : Open} (h : b.Waits loops) (ho : construct.isPart = true) :
    (b.enter construct .statement).Straight loops :=
  ⟨List.forall_mem_cons.mpr ⟨.inl ho, h⟩, nofun⟩

theorem Waits.abandon (h : b.Waits loops) (x : SyntaxError) (hp : p.inHeader = false) :
    (b.abandon x p).Straight loops :=
  ⟨fun o ho => h o ((List.dropWhile_sublist _).subset ho), by simp [Builder.abandon, hp]⟩

theorem afterDropping_inHeader (t : Token) : (afterDropping t).inHeader = false := by
  unfold afterDropping
  split <;> rfl

theorem Waits.fail (h : b.Waits loops) (x : SyntaxError) (t : Token) :
    (b.fail x t).Straight loops :=
  h.abandon x (afterDropping_inHeader t)

theorem Waits.need {kind : TokenKind} {message : String} {next : Builder} (h : b.Waits loops)
    (hn : t.kind = kind → next.Straight loops) :
    (b.need kind message t next).Straight loops := by
  unfold Builder.need
  split
  next hk => exact hn hk
  next => exact h.fail _ t

theorem straight_ite {q : Prop} [Decidable q] {b b' : Builder} (h : b.Straight loops)
    (h' : b'.Straight loops) : (if q then b else b').Straight loops := by
  split
  · exact h
  · exact h'

theorem Waits.atOperand (h : b.Waits loops) (hu : use.inHeader = true → loops = true) :
    (b.atOperand use pending t).Straight loops := by
  have hc : (b.checkArguments pending t).Waits loops := by
    rw [checkArguments_eq_complain]
    exact h
  unfold Builder.atOperand
  dsimp only
  split
  case h_10 => exact hc.fail _ t
  all_goals exact hc.moveTo hu

theorem Waits.afterExpression (h : b.Waits loops) (hu : use.inHeader = true → loops = true) :
    (b.afterExpression use e t).Straight loops := by
  cases use with
  | ifCondition | loopCondition | forIncrement => exact h.need fun _ => h.enter rfl
  | forCondition => exact h.need fun _ => h.moveTo hu
  | _ => exact h.need fun _ => h.leave rfl

theorem Waits.atEnd (h : b.Waits loops) (hu : use.inHeader = true → loops = true) :
    (b.atEnd use pending e t).Straight loops := by
  unfold Builder.atEnd
  split
  · exact h.afterExpression hu
  · exact h.need fun _ => h.moveTo hu
  · exact straight_ite (h.moveTo hu) (h.need fun _ => h.moveTo hu)
  · exact h.fail _ t

theorem Waits.atOperator (h : b.Waits loops) (hu : use.inHeader = true → loops = true) :
    (b.atOperator use pending e t).Straight loops := by
  unfold Builder.atOperator
  split
  · exact h.moveTo hu
  · exact h.moveTo hu
  · split
    · exact h.moveTo hu
    · exact h.atEnd hu

theorem Waits.atStatement (h : b.Waits loops) (hfor : t.kind = .for → loops = true)
    (hbrace : t.kind ≠ .leftBrace) : (b.atStatement t).Straight loops := by
  unfold Builder.atStatement
  split
  case h_1 hk => exact h.moveTo fun _ => hfor hk
  case h_5 => exact straight_ite (h.leave rfl) (h.abandon _ rfl)
  case h_6 hk => exact absurd hk hbrace
  case h_7 => exact h.atOperand (by simp [Use.inHeader])
  all_goals exact h.leave rfl

theorem Waits.atDeclaration (h : b.Waits loops) (hfor : t.kind = .for → loops = true)
    (hbrace : t.kind ≠ .leftBrace) : (b.atDeclaration t).Straight loops := by
  unfold Builder.atDeclaration
  split
  case h_4 ho => exact ⟨fun o hm => h o (ho ▸ List.mem_cons_of_mem _ hm), nofun⟩
  case h_5 ho => exact ⟨fun o hm => h o (ho ▸ List.mem_cons_of_mem _ hm), nofun⟩
  case h_6 => exact h.atStatement hfor hbrace
  all_goals exact h.leave rfl

theorem Waits.atForCondition {initial : Option Stmt} (h : b.Waits loops) (hl : loops = true) :
    (b.atForCondition initial t).Straight loops :=
  straight_ite (h.moveTo fun _ => hl) (h.atOperand fun _ => hl)

theorem straight_afterStatement {opened : List Open}
    (h : ∀ o ∈ opened, o.isPart = true ∨ loops = true ∧ o = .forInitial)
    (hfor : t.kind = .for → loops = true) (hbrace : t.kind ≠ .leftBrace) (s : Stmt) :
    (b.afterStatement t s opened).Straight loops := by
  induction opened generalizing s with
  | nil => exact Waits.atDeclaration (b := { b with opened := [], statements := _ }) h hfor hbrace
  | cons o opened ih =>
    obtain ⟨ho, hopened⟩ := List.forall_mem_cons.mp h
    cases o with
    | block | body => simp [Open.isPart] at ho
    | forInitial =>
      have hl : loops = true := by simpa [Open.isPart] using ho
      exact Waits.atForCondition (b := { b with opened }) hopened hl
    | thenBranch condition =>
      unfold afterStatement
      refine straight_ite ?_ (ih hopened _)
      exact ⟨List.forall_mem_cons.mpr ⟨.inl rfl, hopened⟩, nofun⟩
    | elseBranch | loopBody | forBody => exact ih hopened _

theorem Waits.atParameter {name : String} {line : Nat} {done : List String} (h : b.Waits loops) :
    (b.atParameter name line done t).Straight loops := by
  unfold Builder.atParameter
  split
  · exact Waits.need (b := b.report _) h fun _ => Waits.leave (b := b.report _) h rfl
  · exact h.need fun _ => h.leave rfl

/-- A token opens no block unless it is a brace, and no header unless it is a `for`. -/
theorem Straight.feed (h : b.Straight loops) (hfor : t.kind = .for → loops = true)
    (hbrace : t.kind ≠ .leftBrace) : (b.feed t).Straight loops := by
  obtain ⟨hw, hp⟩ := h
  unfold Builder.feed
  cases hb : b.position with
  | declaration => exact hw.atDeclaration hfor hbrace
  | statement => exact hw.atStatement hfor hbrace
  | operand use pending =>
    rw [hb] at hp
    exact hw.atOperand hp
  | operator use pending e =>
    rw [hb] at hp
    exact hw.atOperator hp
  | firstArgument use pending callee =>
    rw [hb] at hp
    exact straight_ite (hw.moveTo hp) (hw.atOperand hp)
  | completed s => exact straight_afterStatement hw hfor hbrace s
  | createRest name line =>
    exact straight_ite (hw.leave rfl) (hw.need fun _ => hw.leave rfl)
  | firstParameter name line => exact straight_ite (hw.leave rfl) hw.atParameter
  | parameter name line done => exact hw.atParameter
  | parameterRest name line done =>
    exact straight_ite (hw.leave rfl) (hw.need fun _ => hw.leave rfl)
  | functionBrace head => exact hw.need fun hk => absurd hk hbrace
  | forOpen =>
    rw [hb] at hp
    exact hw.need fun _ => hw.moveTo hp
  | forStart =>
    rw [hb] at hp
    have hl : loops = true := hp rfl
    have hw' : ∀ o ∈ .forInitial :: b.opened, o.isPart = true ∨ loops = true ∧ o = .forInitial :=
      List.forall_mem_cons.mpr ⟨.inr ⟨hl, rfl⟩, hw⟩
    dsimp only
    split
    · exact hw.moveTo hp
    · exact ⟨hw', nofun⟩
    · exact Waits.atOperand (b := { b with opened := _ }) hw' nofun
  | forCondition initial =>
    rw [hb] at hp
    exact hw.atForCondition (hp rfl)
  | forIncrement initial condition =>
    rw [hb] at hp
    exact straight_ite (hw.enter rfl) (hw.atOperand hp)
  | resultStart line => exact straight_ite (hw.leave rfl) (hw.atOperand nofun)
  | discard => exact hw.moveTo (by simp [afterDropping_inHeader])
  | skip =>
    dsimp only
    split
    case h_8 => exact hw.moveTo (by simp [afterDropping_inHeader])
    all_goals exact hw.atDeclaration hfor hbrace
  | _ => exact hw.need fun _ => hw.leave rfl

/-- Tokens without opening braces open no block, and no header if there is no `for` among them. -/
theorem Straight.foldl {ts : List Token} (h : b.Straight loops)
    (hts : ∀ t ∈ ts, (t.kind = .for → loops = true) ∧ t.kind ≠ .leftBrace) :
    (ts.foldl Builder.feed b).Straight loops := by
  induction ts generalizing b with
  | nil => exact h
  | cons t ts ih =>
    obtain ⟨ht, hrest⟩ := List.forall_mem_cons.mp hts
    exact ih (h.feed ht.1 ht.2) hrest

theorem Waits.countP (h : b.Waits loops) : b.opened.countP Open.isBlock = 0 := by
  rw [List.countP_eq_zero]
  intro o ho
  obtain hp | ⟨-, rfl⟩ := h o ho
  · cases o <;> simp_all [Open.isPart, Open.isBlock]
  · simp [Open.isBlock]

/-- Whether a declaration is over and no other has begun. -/
def Between (b : Builder) : Prop :=
  match b.position with
  | .declaration => True
  | .completed _ => b.opened.head? ≠ some .forInitial
  | _ => False

/-- Where no loop can be open, a declaration is over behind every semicolon. -/
theorem Straight.between (h : b.Straight false) (hb : b.position.behindSemicolon = true) :
    b.Between := by
  obtain ⟨hw, hp⟩ := h
  unfold Between
  cases hpos : b.position with
  | declaration => trivial
  | completed s =>
    intro hhead
    have hm := hw _ (List.mem_of_mem_head? hhead)
    simp [Open.isPart] at hm
  | forCondition | forIncrement =>
    rw [hpos] at hp
    exact absurd (hp rfl) nofun
  | _ =>
    rw [hpos] at hb
    cases hb

/-- Between declarations and outside of blocks, nothing is open but statements that are complete. -/
theorem Formed.between (hf : b.Formed) (hb : b.Between)
    (ho : b.opened.countP Open.isBlock = 0) :
    b.position = .declaration ∧ b.opened = [] ∨
      ∃ s, b.position = .completed s ∧ ∀ o ∈ b.opened, o.isPart = true := by
  obtain ⟨place, inside, hframed, hadmits⟩ := hf
  unfold Between at hb
  split at hb
  next hp =>
    rw [hp] at hadmits
    cases hadmits
    exact .inl ⟨hp, hframed.opened.eq_nil ho⟩
  next s hp =>
    refine .inr ⟨s, hp, hframed.opened.parts ?_ ho⟩
    intro hplace
    have hsurrounds := hframed.opened
    rw [hplace] at hsurrounds
    cases hopened : b.opened with
    | nil =>
      rw [hopened] at hsurrounds
      cases hsurrounds
    | cons o opened =>
      rw [hopened] at hsurrounds hb
      cases hsurrounds
      exact hb rfl
  next => exact hb.elim

/-- At the end of the input a statement that has been read is listed. -/
theorem feed_end_of_parts {s : Stmt} (hp : b.position = .completed s)
    (h : ∀ o ∈ b.opened, o.isPart = true) (ht : t.kind = .eof) :
    ∃ s', b.feed t = ⟨.declaration, [], s' :: b.statements, b.errors⟩ := by
  obtain ⟨s', hs⟩ := afterStatement_parts h s
  refine ⟨s', ?_⟩
  have hfeed : b.feed t = b.afterStatement t s (b.opened ++ []) := by
    rw [List.append_nil, Builder.feed, hp]
  rw [hfeed, hs b t [] (by simp [ht])]
  simp [afterStatement, atDeclaration, ht, Builder.moveTo]

end Builder

end ClosureLang
