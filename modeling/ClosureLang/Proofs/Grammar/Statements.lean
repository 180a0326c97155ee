import ClosureLang.Proofs.Grammar.Clauses

namespace ClosureLang

namespace Grammar

/-- Whether a statement can start with a kind of token. -/
def StartsStatement (k : TokenKind) : Prop :=
  Starts k ∨ k ∈ [.for, .if, .while, .output, .return, .leftBrace]

end Grammar

namespace Builder

open Grammar

variable {b b₀ : Builder} {t : Token} {s : Stmt}

@[simp] theorem enter_complain {construct : Open} {p : Position} {d : List SyntaxError} :
    (b.enter construct p).complain d = (b.complain d).enter construct p := rfl

@[simp] theorem enter_opened {construct : Open} {p : Position} :
    (b.enter construct p).opened = construct :: b.opened := rfl

@[simp] theorem enter_afterStatement {construct : Open} {p : Position} {opened : List Open} :
    (b.enter construct p).afterStatement t s opened = b.afterStatement t s opened := by
  apply afterStatement_congr <;> rfl

/-- Reads the first token of a statement like `b₀`. -/
def Opens (b b₀ : Builder) : Prop :=
  ∀ t, StartsStatement t.kind → b.feed t = b₀.atStatement t

/-- Reads the first token of a declaration, or what follows the last one, like `b₀`. -/
def Declares (b b₀ : Builder) : Prop :=
  ∀ t, t.kind ≠ .else → b.feed t = b₀.atDeclaration t

/-- Whether the innermost construct lists declarations. -/
def AtList (b : Builder) : Prop :=
  ∀ o ∈ b.opened.head?, o.isBlock = true

/-- Whether the next token is in a function body if it has to be `inside` one. -/
def Within (b : Builder) (inside : Bool) : Prop :=
  inside = true → b.opened.any Open.isBody = true

/-- Lists statements in the innermost construct. -/
def list (b : Builder) (ss : List Stmt) : Builder :=
  match b.opened with
  | [] => { b with statements := ss.reverse ++ b.statements }
  | .block done :: rest => { b with opened := .block (ss.reverse ++ done) :: rest }
  | .body head done :: rest => { b with opened := .body head (ss.reverse ++ done) :: rest }
  | _ => b

theorem list_nil : b.list [] = b := by
  obtain ⟨p, opened, ss, es⟩ := b
  unfold list
  split <;> simp_all

theorem list_cons {ss : List Stmt} : b.list (s :: ss) = (b.list [s]).list ss := by
  obtain ⟨p, opened, ss, es⟩ := b
  cases opened with
  | nil => simp [list]
  | cons o opened => cases o <;> simp [list]

theorem list_complain {ss : List Stmt} {d : List SyntaxError} :
    (b.list ss).complain d = (b.complain d).list ss := by
  obtain ⟨p, opened, ss, es⟩ := b
  cases opened with
  | nil => rfl
  | cons o opened => cases o <;> rfl

theorem AtList.list {ss : List Stmt} (h : b.AtList) : (b.list ss).AtList := by
  obtain ⟨p, opened, ss, es⟩ := b
  cases opened with
  | nil => exact h
  | cons o opened => cases o <;> simp_all [AtList, Builder.list, Open.isBlock]

theorem Within.list {inside : Bool} {ss : List Stmt} (h : b.Within inside) :
    (b.list ss).Within inside := by
  obtain ⟨p, opened, ss, es⟩ := b
  cases opened with
  | nil => exact h
  | cons o opened => cases o <;> exact h

theorem Within.complain {inside : Bool} {d : List SyntaxError} (h : b.Within inside) :
    (b.complain d).Within inside := h

theorem Within.enter {inside : Bool} {construct : Open} {p : Position} (h : b.Within inside) :
    (b.enter construct p).Within inside := by
  intro hi
  simp [Builder.enter, h hi]

theorem AtList.afterStatement (h : b.AtList) :
    b.afterStatement t s b.opened = (b.list [s]).atDeclaration t := by
  obtain ⟨p, opened, ss, es⟩ := b
  cases opened with
  | nil => rfl
  | cons o opened =>
    have ho : o.isBlock = true := h o rfl
    cases o with
    | block done => rfl
    | body head done => rfl
    | _ => cases ho

theorem opens_enter {construct : Open} :
    (b.enter construct .statement).Opens (b.enter construct .statement) :=
  fun _ _ => rfl

theorem declares_enter {construct : Open} :
    (b.enter construct .declaration).Declares (b.enter construct .declaration) :=
  fun _ _ => rfl

theorem AtList.enter {construct : Open} {p : Position} (h : construct.isBlock = true) :
    (b.enter construct p).AtList := by
  intro o ho
  cases ho
  exact h

theorem atDeclaration_of_starts (h : StartsStatement t.kind) :
    b.atDeclaration t = b.atStatement t := by
  unfold atDeclaration
  split <;> simp_all [StartsStatement, Starts, constants]

theorem atStatement_of_starts (h : Starts t.kind) :
    b.atStatement t = b.atOperand .expression [] t := by
  unfold atStatement
  split <;> simp_all [Starts, constants]

theorem Declares.opens (h : b.Declares b₀) : b.Opens b₀ := by
  intro t ht
  rw [h t, atDeclaration_of_starts ht]
  intro hk
  simp [hk, StartsStatement, Starts, constants] at ht

theorem Opens.enters (h : b.Opens b₀) : b.Enters b₀ .expression [] := by
  intro t ht
  rw [h t (.inl ht), atStatement_of_starts ht]

theorem Declares.create (h : b.Declares b₀) (t : Token) (ht : t.kind = .create) :
    b.feed t = b₀.moveTo .createName := by
  rw [h t (by simp [ht])]
  simp [atDeclaration, ht]

theorem Declares.func (h : b.Declares b₀) (t : Token) (ht : t.kind = .func) :
    b.feed t = b₀.moveTo .functionName := by
  rw [h t (by simp [ht])]
  simp [atDeclaration, ht]

theorem atDeclaration_endOfBlock {ss : List Stmt} (h : t.kind = .rightBrace) :
    ((b.enter (.block []) .declaration).list ss).atDeclaration t =
      b.moveTo (.completed (.block ss)) := by
  simp [list, enter, atDeclaration, h, moveTo]

theorem atDeclaration_endOfBody {head : FunctionHead} {ss : List Stmt}
    (h : t.kind = .rightBrace) :
    ((b.enter (.body head []) .declaration).list ss).atDeclaration t =
      b.moveTo (.completed (.function head.name head.params ss head.line)) := by
  simp [list, enter, atDeclaration, h, moveTo]

end Builder

namespace Grammar

open Builder

mutual

theorem Declaration.reads {fits : Nat → Prop} {inside : Bool} {ts : List Token} {s : Stmt}
    {d : List SyntaxError} {b b₀ : Builder} (h : Declaration fits inside ts s d)
    (hi : b₀.Within inside) (hb : b.Declares b₀) :
    b.Reads ts (fun t => t.kind ≠ .else) fun t =>
      (b₀.complain d).afterStatement t s b₀.opened := by
  match h with
  | .varDecl h => exact (h.reads hb.create).imp fun _ _ => ⟨trivial, rfl⟩
  | @Declaration.funcDecl _ _ opening closing ts us head body d d' hh ho hb' hc =>
    refine (hh.reads hb.func).snoc trivial (by simp [ho]) ?_
    have h₁ : ((b₀.complain d).moveTo (.functionBrace head)).feed opening =
        (b₀.complain d).enter (.body head []) .declaration := if_pos ho
    rw [h₁]
    refine (hb'.reads (fun _ => rfl) (.enter rfl) declares_enter).snoc (by simp [hc])
      (by simp [hc]) (.nil fun t _ => ?_)
    rw [enter_complain, complain_complain, atDeclaration_endOfBody hc, feed_completed,
      complain_opened]
  | .statement h => exact (h.reads hi hb.opens).imp fun _ ht => ⟨fun _ => ht, rfl⟩
termination_by structural h

/-- A statement is read up to the token behind it, which is no `else` if the statement is
dangling. -/
theorem Statement.reads {fits : Nat → Prop} {inside dangling : Bool} {ts : List Token} {s : Stmt}
    {d : List SyntaxError} {b b₀ : Builder} (h : Statement fits inside dangling ts s d)
    (hi : b₀.Within inside) (hb : b.Opens b₀) :
    b.Reads ts (fun t => dangling = true → t.kind ≠ .else) fun t =>
      (b₀.complain d).afterStatement t s b₀.opened := by
  match h with
  | .exprStmt h => exact (h.reads hb.enters).imp fun _ _ => ⟨trivial, rfl⟩
  | @Statement.output _ _ output semicolon ts e d hk he hs =>
    refine .cons (by simp [hk]) ?_
    have h₁ : b₀.atStatement output = b₀.moveTo (.operand .output []) := by simp [atStatement, hk]
    rw [hb output (.inr (by simp [hk])), h₁]
    refine (he.reads_whole enters_operand).snoc (closes_of_eq (.inr (.inr hs))) (by simp [hs])
      (.nil fun t _ => ?_)
    rw [afterExpression, need_of_eq hs, feed_completed, complain_opened]
  | @Statement.giveBack _ ret semicolon ts value d hk hv hs =>
    refine .cons (by simp [hk]) ?_
    have h₁ : b₀.atStatement ret = b₀.moveTo (.resultStart ret.line) := by
      simp only [atStatement, hk, if_pos (hi rfl)]
    rw [hb ret (.inr (by simp [hk])), h₁]
    have hb' : (b₀.moveTo (.resultStart ret.line)).Enters b₀ (.result ret.line) [] :=
      .of_ite (k := .semicolon) (by simp [Starts, constants]) fun t => by
        rw [← moveTo_atOperand]
        rfl
    have hv := hv.reads (f := fun b v => b.moveTo (.completed (.giveBack v ret.line)))
      (closes_of_eq (.inr (.inr rfl))) hb' (fun t ht => if_pos ht) (fun t e b ht => if_pos ht)
    refine hv.snoc hs (by simp [hs]) (.nil fun t _ => ?_)
    rw [feed_completed, complain_opened]
  | @Statement.block _ _ opening closing ts body d ho hb' hc =>
    refine .cons (by simp [ho]) ?_
    have h₁ : b₀.atStatement opening = b₀.enter (.block []) .declaration := by
      simp [atStatement, ho]
    rw [hb opening (.inr (by simp [ho])), h₁]
    refine (hb'.reads hi.enter (.enter rfl) declares_enter).snoc (by simp [hc]) (by simp [hc])
      (.nil fun t _ => ?_)
    rw [enter_complain, atDeclaration_endOfBlock hc, feed_completed, complain_opened]
  | @Statement.ifThen _ _ _ key opening closing ts us condition yes d d' hk ho he hc hy =>
    have hf : b.feed key = b₀.moveTo .ifOpen := by
      rw [hb key (.inr (by simp [hk]))]
      simp [atStatement, hk]
    refine he.reads_condition (by simp [hk]) ho hc hf (if_pos ho) (fun _ => if_pos hc) ?_
    refine (hy.reads hi.complain.enter opens_enter).imp fun t ht => ⟨fun _ => ht rfl, ?_⟩
    rw [enter_complain, complain_complain, enter_afterStatement, enter_opened, complain_opened,
      afterStatement, if_neg (ht rfl)]
  | @Statement.ifElse _ _ _ key opening closing other ts us vs condition yes no d d' d'' hk ho he
      hc hy hx hn =>
    have hf : b.feed key = b₀.moveTo .ifOpen := by
      rw [hb key (.inr (by simp [hk]))]
      simp [atStatement, hk]
    refine he.reads_condition (by simp [hk]) ho hc hf (if_pos ho) (fun _ => if_pos hc) ?_
    refine (hy.reads hi.complain.enter opens_enter).snoc (by simp) (by simp [hx]) ?_
    have hx' : (b₀.complain (d ++ d')).afterStatement other yes
        (.thenBranch condition :: b₀.opened) =
          (b₀.complain (d ++ d')).enter (.elseBranch condition yes) .statement := if_pos hx
    rw [enter_complain, complain_complain, enter_afterStatement, enter_opened, complain_opened, hx']
    refine (hn.reads hi.complain.enter opens_enter).imp fun t ht => ⟨ht, ?_⟩
    rw [enter_complain, complain_complain, enter_afterStatement, enter_opened, complain_opened,
      afterStatement]
  | @Statement.loop _ _ _ key opening closing ts us condition body d d' hk ho he hc hb' =>
    have hf : b.feed key = b₀.moveTo .loopOpen := by
      rw [hb key (.inr (by simp [hk]))]
      simp [atStatement, hk]
    refine he.reads_condition (by simp [hk]) ho hc hf (if_pos ho) (fun _ => if_pos hc) ?_
    refine (hb'.reads hi.complain.enter opens_enter).imp fun t ht => ⟨ht, ?_⟩
    rw [enter_complain, complain_complain, enter_afterStatement, enter_opened, complain_opened,
      afterStatement]
  | @Statement.forLoop _ _ _ key opening semicolon closing ts us vs ws initial condition increment
      body d d' d'' d''' hk ho hi' he hs hn hc hb' =>
    refine .cons (by simp [hk]) (.cons (by simp [ho]) ?_)
    have h₁ : b₀.atStatement key = b₀.moveTo .forOpen := by simp [atStatement, hk]
    have h₂ : (b₀.moveTo .forOpen).feed opening = b₀.moveTo .forStart := if_pos ho
    rw [hb key (.inr (by simp [hk])), h₁, h₂]
    have hcondition := hi'.reads (b := b₀).append fun b' hb' =>
      he.reads (f := fun b v => b.moveTo (.forIncrement initial v)) 
        (closes_of_eq (.inr (.inr rfl)))
        (.of_ite (k := .semicolon) (by simp [Starts, constants]) fun t => hb' t trivial)
        (fun t ht => (hb' t trivial).trans (if_pos ht)) (fun t e b ht => if_pos ht)
    refine hcondition.snoc hs (by simp [hs]) ?_
    rw [complain_complain]
    have hb₁ : ((b₀.complain (d ++ d')).moveTo (.forIncrement initial condition)).Enters
        (b₀.complain (d ++ d')) (.forIncrement initial condition) [] :=
      .of_ite (k := .rightParen) (by simp [Starts, constants]) fun t => by
        rw [← moveTo_atOperand]
        rfl
    have hincrement := hn.reads (f := fun b v => b.enter (.forBody initial condition v) .statement)
      (closes_of_eq (.inl rfl)) hb₁ (fun t ht => if_pos ht) (fun t e b ht => if_pos ht)
    refine hincrement.snoc hc (by simp [hc]) ?_
    refine (hb'.reads hi.complain.complain.enter opens_enter).imp fun t ht => ⟨ht, ?_⟩
    rw [enter_complain, complain_complain, complain_complain, enter_afterStatement, enter_opened,
      complain_opened, complain_opened, afterStatement, forLoop_eq_lowered, ← List.append_assoc]
termination_by structural h

/-- Declarations are read one after the other, each as if it stood alone. -/
theorem Declarations.reads {fits : Nat → Prop} {inside : Bool} {ts : List Token} {ss : List Stmt}
    {d : List SyntaxError} {b b₀ : Builder} (h : Declarations fits inside ts ss d)
    (hi : b₀.Within inside) (hl : b₀.AtList)
    (hb : b.Declares b₀) :
    b.Reads ts (fun t => t.kind ≠ .else) fun t => ((b₀.complain d).list ss).atDeclaration t := by
  match h with
  | .nil =>
    rw [complain_nil, list_nil]
    exact .nil hb
  | @Declarations.cons _ _ ts us s ss d d' h hr =>
    refine (h.reads hi hb).append fun b' hb' => ?_
    have hd : b'.Declares ((b₀.complain d).list [s]) := by
      intro t ht
      rw [hb' t ht]
      exact AtList.afterStatement (b := b₀.complain d) hl
    have hi' : ((b₀.complain d).list [s]).Within inside := Within.list hi
    have hl' : ((b₀.complain d).list [s]).AtList := AtList.list hl
    refine (hr.reads hi' hl' hd).imp fun t ht => ⟨ht, ?_⟩
    rw [list_complain, complain_complain, ← list_cons]
termination_by structural h

end

end Grammar

end ClosureLang
