import ClosureLang.Proofs.Likeness.Frames

namespace ClosureLang

/-- The statement declares nothing in the frame it runs in. -/
def Stmt.Undeclaring : Stmt → Prop
  | .create _ _ _ | .function _ _ _ _ => False
  | .ifThen _ yes => yes.Undeclaring
  | .ifElse _ yes no => yes.Undeclaring ∧ no.Undeclaring
  | .loop _ body => body.Undeclaring
  | .expression _ | .output _ | .block _ | .giveBack _ _ => True

section

variable (L : Likeness) (p : Pairing)

/-- Statements that are alike, for frames `i` and `j` to run in. -/
structure Stmt.LikeIn (i j : FrameId) (s s' : Stmt) : Prop where
  tree : s.Like L s'
  place : p.Core i j ∨ s.Undeclaring

mutual

/-- The same is to be done with a value, in the frames `i` and `j`. -/
inductive Awaiting.Like : FrameId → FrameId → Awaiting → Awaiting → Prop where
  | outcome {i j : FrameId} : Awaiting.Like i j .outcome .outcome
  | operand {i j : FrameId} {op : UnaryOp} {l l' : Nat} {next next' : Awaiting}
      (hl : L.line l l') (h : Awaiting.Like i j next next') :
      Awaiting.Like i j (.operand op l next) (.operand op l' next')
  | left {i j : FrameId} {op : BinaryOp} {e e' : Expr} {l l' : Nat} {next next' : Awaiting}
      (he : e.Like L e') (hl : L.line l l') (h : Awaiting.Like i j next next') :
      Awaiting.Like i j (.left op e l next) (.left op e' l' next')
  | right {i j : FrameId} {v v' : Value} {op : BinaryOp} {l l' : Nat} {next next' : Awaiting}
      (hv : v.Like L p v') (hl : L.line l l') (h : Awaiting.Like i j next next') :
      Awaiting.Like i j (.right v op l next) (.right v' op l' next')
  | decision {i j : FrameId} {op : LogicalOp} {e e' : Expr} {next next' : Awaiting}
      (he : e.Like L e') (h : Awaiting.Like i j next next') :
      Awaiting.Like i j (.decision op e next) (.decision op e' next')
  | assigned {i j : FrameId} {name : String} {l l' : Nat} {next next' : Awaiting}
      (hl : L.line l l') (h : Awaiting.Like i j next next') :
      Awaiting.Like i j (.assigned name l next) (.assigned name l' next')
  | callee {i j : FrameId} {args args' : List Expr} {l l' : Nat} {next next' : Awaiting}
      (ha : List.Forall₂ (Expr.Like L) args args') (hl : L.line l l')
      (h : Awaiting.Like i j next next') :
      Awaiting.Like i j (.callee args l next) (.callee args' l' next')
  | argument {i j : FrameId} {v v' : Value} {done done' : List Value} {rest rest' : List Expr}
      {l l' : Nat} {next next' : Awaiting} (hv : v.Like L p v')
      (hd : List.Forall₂ (Value.Like L p) done done')
      (hr : List.Forall₂ (Expr.Like L) rest rest') (hl : L.line l l')
      (h : Awaiting.Like i j next next') :
      Awaiting.Like i j (.argument v done rest l next) (.argument v' done' rest' l' next')
  | discarded {i j : FrameId} {next next' : Remaining} (h : Remaining.Like i j next next') :
      Awaiting.Like i j (.discarded next) (.discarded next')
  | printed {i j : FrameId} {next next' : Remaining} (h : Remaining.Like i j next next') :
      Awaiting.Like i j (.printed next) (.printed next')
  | initial {i j : FrameId} {name : String} {next next' : Remaining} (hc : p.Core i j)
      (h : Remaining.Like i j next next') :
      Awaiting.Like i j (.initial name next) (.initial name next')
  | thenBranch {i j : FrameId} {yes yes' : Stmt} {next next' : Remaining}
      (hy : yes.LikeIn L p i j yes') (h : Remaining.Like i j next next') :
      Awaiting.Like i j (.thenBranch yes next) (.thenBranch yes' next')
  | branches {i j : FrameId} {yes yes' no no' : Stmt} {next next' : Remaining}
      (hy : yes.LikeIn L p i j yes') (hn : no.LikeIn L p i j no')
      (h : Remaining.Like i j next next') :
      Awaiting.Like i j (.branches yes no next) (.branches yes' no' next')
  | condition {i j : FrameId} {e e' : Expr} {body body' : Stmt} {next next' : Remaining}
      (he : e.Like L e') (hb : body.LikeIn L p i j body') (h : Remaining.Like i j next next') :
      Awaiting.Like i j (.condition e body next) (.condition e' body' next')
  | given {i j : FrameId} {next next' : Remaining} (h : Remaining.Like i j next next') :
      Awaiting.Like i j (.given next) (.given next')

/-- The same is left to do after a statement, in the frames `i` and `j`. -/
inductive Remaining.Like : FrameId → FrameId → Remaining → Remaining → Prop where
  | outcome {i j : FrameId} : Remaining.Like i j .outcome .outcome
  | statements {i j : FrameId} {rest rest' : List Stmt} {next next' : Remaining}
      (hr : List.Forall₂ (Stmt.LikeIn L p i j) rest rest') (h : Remaining.Like i j next next') :
      Remaining.Like i j (.statements rest next) (.statements rest' next')
  | round {i j : FrameId} {e e' : Expr} {body body' : Stmt} {next next' : Remaining}
      (he : e.Like L e') (hb : body.LikeIn L p i j body') (h : Remaining.Like i j next next') :
      Remaining.Like i j (.round e body next) (.round e' body' next')
  | blockEnd {i j o o' : FrameId} {next next' : Remaining} (ho : p.twin o o')
      (h : Remaining.Like o o' next next') :
      Remaining.Like i j (.blockEnd o next) (.blockEnd o' next')
  | callEnd {i j o o' : FrameId} {next next' : Awaiting} (ho : p.twin o o')
      (h : Awaiting.Like o o' next next') : Remaining.Like i j (.callEnd o next) (.callEnd o' next')

end

/-- Machines that do the same next, in the frames `i` and `j`. -/
inductive Machine.Like (i j : FrameId) : Machine → Machine → Prop where
  | evaluate {e e' : Expr} {next next' : Awaiting} (he : e.Like L e')
      (h : next.Like L p i j next') : Like i j (.evaluate e next) (.evaluate e' next')
  | arguments {v v' : Value} {done done' : List Value} {rest rest' : List Expr} {l l' : Nat}
      {next next' : Awaiting} (hv : v.Like L p v')
      (hd : List.Forall₂ (Value.Like L p) done done')
      (hr : List.Forall₂ (Expr.Like L) rest rest') (hl : L.line l l')
      (h : next.Like L p i j next') :
      Like i j (.arguments v done rest l next) (.arguments v' done' rest' l' next')
  | apply {v v' : Value} {args args' : List Value} {l l' : Nat} {next next' : Awaiting}
      (hv : v.Like L p v') (ha : List.Forall₂ (Value.Like L p) args args') (hl : L.line l l')
      (h : next.Like L p i j next') : Like i j (.apply v args l next) (.apply v' args' l' next')
  | give {v v' : Value} {next next' : Awaiting} (hv : v.Like L p v')
      (h : next.Like L p i j next') : Like i j (.give v next) (.give v' next')
  | raise {f f' : Fault} {next next' : Awaiting} (hf : f.Like L f')
      (h : next.Like L p i j next') : Like i j (.raise f next) (.raise f' next')
  | execute {s s' : Stmt} {next next' : Remaining} (hs : s.LikeIn L p i j s')
      (h : next.Like L p i j next') : Like i j (.execute s next) (.execute s' next')
  | sequence {body body' : List Stmt} {next next' : Remaining}
      (hb : List.Forall₂ (Stmt.LikeIn L p i j) body body') (h : next.Like L p i j next') :
      Like i j (.sequence body next) (.sequence body' next')
  | finish {s s' : Signal} {next next' : Remaining} (hs : s.Like L p s')
      (h : next.Like L p i j next') : Like i j (.finish s next) (.finish s' next')
  | abort {f f' : Fault} {next next' : Remaining} (hf : f.Like L f')
      (h : next.Like L p i j next') : Like i j (.abort f next) (.abort f' next')

inductive Progress.Like (i j : FrameId) : Progress → Progress → Prop where
  | ended {o o' : Outcome} (h : o.Like L p o') : Like i j (.ended o) (.ended o')
  | going {m m' : Machine} (h : m.Like L p i j m') : Like i j (.going m) (.going m')

/-- Both steps lead on alike, along a pairing that may have grown. -/
def Machine.Follows (r r' : Progress × World) : Prop :=
  ∃ q, p.Extends q ∧ r.1.Like L q r.2.scope r'.2.scope r'.1 ∧ r.2.Like L q r'.2

end

variable {L : Likeness} {p : Pairing}

theorem Stmt.LikeIn.extend {q : Pairing} (hq : p.Extends q) {i j : FrameId} {s s' : Stmt}
    (h : s.LikeIn L p i j s') : s.LikeIn L q i j s' :=
  ⟨h.tree, h.place.imp_left hq.core⟩

mutual

theorem Awaiting.Like.extend {q : Pairing} (hq : p.Extends q) {i j : FrameId}
    {a a' : Awaiting} (h : a.Like L p i j a') : a.Like L q i j a' :=
  match h with
  | .outcome => .outcome
  | .operand hl h => .operand hl (h.extend hq)
  | .left he hl h => .left he hl (h.extend hq)
  | .right hv hl h => .right (hv.extend hq.keeps) hl (h.extend hq)
  | .decision he h => .decision he (h.extend hq)
  | .assigned hl h => .assigned hl (h.extend hq)
  | .callee ha hl h => .callee ha hl (h.extend hq)
  | .argument hv hd hr hl h =>
    .argument (hv.extend hq.keeps) (hd.imp fun _ _ h => h.extend hq.keeps) hr hl (h.extend hq)
  | .discarded h => .discarded (h.extend hq)
  | .printed h => .printed (h.extend hq)
  | .initial hc h => .initial (hq.core hc) (h.extend hq)
  | .thenBranch hy h => .thenBranch (hy.extend hq) (h.extend hq)
  | .branches hy hn h => .branches (hy.extend hq) (hn.extend hq) (h.extend hq)
  | .condition he hb h => .condition he (hb.extend hq) (h.extend hq)
  | .given h => .given (h.extend hq)

theorem Remaining.Like.extend {q : Pairing} (hq : p.Extends q) {i j : FrameId}
    {r r' : Remaining} (h : r.Like L p i j r') : r.Like L q i j r' :=
  match h with
  | .outcome => .outcome
  | .statements hr h => .statements (hr.imp fun _ _ h => h.extend hq) (h.extend hq)
  | .round he hb h => .round he (hb.extend hq) (h.extend hq)
  | .blockEnd ho h => .blockEnd (hq.keeps ho) (h.extend hq)
  | .callEnd ho h => .callEnd (hq.keeps ho) (h.extend hq)

end

namespace Machine

variable {w w' : World}

theorem settle_like {i j : FrameId} {r r' : Except Fault Value} {next next' : Awaiting}
    (hr : L.Result (Value.Like L p) r r') (hn : next.Like L p i j next') :
    (settle r next).Like L p i j (settle r' next') := by
  cases hr with
  | ok hv => exact .give hv hn
  | error hf => exact .raise hf hn

theorem follows_going {m m' : Machine} (hm : m.Like L p w.scope w'.scope m')
    (hw : w.Like L p w') : Follows L p (.going m, w) (.going m', w') :=
  ⟨p, .refl p, .going hm, hw⟩

theorem stepEvaluate_like {e e' : Expr} {next next' : Awaiting} (he : e.Like L e')
    (hn : next.Like L p w.scope w'.scope next') (hw : w.Like L p w') :
    Follows L p (going (stepEvaluate e next w)) (going (stepEvaluate e' next' w')) := by
  cases he with
  | literal h => exact follows_going (.give (.ofLiteral h) hn) hw
  | grouping h => exact follows_going (.evaluate h hn) hw
  | unary h hl => exact follows_going (.evaluate h (.operand hl hn)) hw
  | binary ha hb hl => exact follows_going (.evaluate ha (.left hb hl hn)) hw
  | logical ha hb hl => exact follows_going (.evaluate ha (.decision hb hn)) hw
  | lookup hl => exact follows_going (settle_like (hw.store.get hw.scope hl) hn) hw
  | assign h hl => exact follows_going (.evaluate h (.assigned hl hn)) hw
  | call h ha hl => exact follows_going (.evaluate h (.callee ha hl hn)) hw

theorem likeIn_pair (hw : w.Like L p w') {body body' : List Stmt}
    (hb : List.Forall₂ (Stmt.Like L) body body') :
    List.Forall₂ (Stmt.LikeIn L (p.pair w.store.frames.size w'.store.frames.size)
      w.store.frames.size w'.store.frames.size) body body' :=
  hb.imp fun _ _ h => ⟨h, .inl ⟨.inr ⟨rfl, rfl⟩, hw.store.not_spare_size⟩⟩

/-- Calls of functions that are alike go on alike, in new frames that stand for each other. -/
theorem enter_like {f f' : Closure} {args args' : List Value} {next next' : Awaiting}
    (hf : f.Like L p f') (ha : List.Forall₂ (Value.Like L p) args args')
    (hn : next.Like L p w.scope w'.scope next') (hw : w.Like L p w') :
    Follows L p (going (enter f args next w)) (going (enter f' args' next' w')) := by
  have hq := p.extends_pair w.store.frames.size w'.store.frames.size
  refine ⟨_, hq, .going (.sequence (likeIn_pair hw hf.body) ?_), hw.push hf.home ?_⟩
  · exact .callEnd (hq.keeps hw.scope) (hn.extend hq)
  · rw [hf.params]
    exact Frame.bindAll_like f'.params ha

theorem stepApply_like {v v' : Value} {args args' : List Value} {l l' : Nat}
    {next next' : Awaiting} (hv : v.Like L p v') (ha : List.Forall₂ (Value.Like L p) args args')
    (hl : L.line l l') (hn : next.Like L p w.scope w'.scope next') (hw : w.Like L p w') :
    Follows L p (going (stepApply v args l next w)) (going (stepApply v' args' l' next' w')) := by
  have hlen := ha.length_eq
  cases hv with
  | closure hf =>
    simp only [stepApply, hf.params, hlen]
    split
    next => exact enter_like hf ha hn hw
    next => exact follows_going (.raise ⟨hl, rfl⟩ hn) hw
  | @native f =>
    simp only [stepApply, hlen]
    split
    next => exact follows_going (settle_like (f.apply_like ha hl) hn) hw
    next => exact follows_going (.raise ⟨hl, rfl⟩ hn) hw
  | nil | bool | number | text => exact follows_going (.raise ⟨hl, rfl⟩ hn) hw

theorem stepGive_like {v v' : Value} {next next' : Awaiting} (hv : v.Like L p v')
    (hn : next.Like L p w.scope w'.scope next') (hw : w.Like L p w') :
    Follows L p (stepGive v next w) (stepGive v' next' w') := by
  cases hn with
  | outcome => exact ⟨p, .refl p, .ended (.value hv), hw⟩
  | @operand _ _ op _ _ _ _ hl h => exact follows_going (settle_like (op.apply_like hv hl) h) hw
  | left he hl h => exact follows_going (.evaluate he (.right hv hl h)) hw
  | @right _ _ _ _ op _ _ _ _ hu hl h =>
    exact follows_going (settle_like (op.apply_like hu hv hl) h) hw
  | @decision _ _ op _ _ _ _ he h =>
    simp only [stepGive, op.decided_like hv]
    split
    next => exact follows_going (.give hv h) hw
    next => exact follows_going (.evaluate he h) hw
  | @assigned _ _ name l l' next next' hl h =>
    have hr := hw.store.resolve? hw.scope name
    simp only [stepGive]
    generalize w.store.resolve? name w.scope = r at hr
    generalize w'.store.resolve? name w'.scope = r' at hr
    cases hr with
    | none => exact follows_going (.raise ⟨hl, rfl⟩ h) hw
    | some hc => exact ⟨p, .refl p, .going (.give hv h), hw.bindAt hc name hv⟩
  | callee ha hl h => exact follows_going (.arguments hv .nil ha hl h) hw
  | argument hc hd hr hl h => exact follows_going (.arguments hc (.cons hv hd) hr hl h) hw
  | discarded h => exact follows_going (.finish .normal h) hw
  | printed h =>
    refine ⟨p, .refl p, .going (.finish .normal h), ?_⟩
    simp only [stepGive, hv.display]
    exact hw.println _
  | @initial _ _ name _ _ hc h =>
    exact ⟨p, .refl p, .going (.finish .normal h), hw.bindAt hc name hv⟩
  | thenBranch hy h =>
    simp only [stepGive, hv.truthy]
    split
    next => exact follows_going (.execute hy h) hw
    next => exact follows_going (.finish .normal h) hw
  | branches hy hno h =>
    simp only [stepGive, hv.truthy]
    split
    next => exact follows_going (.execute hy h) hw
    next => exact follows_going (.execute hno h) hw
  | condition he hb h =>
    simp only [stepGive, hv.truthy]
    split
    next => exact follows_going (.execute hb (.round he hb h)) hw
    next => exact follows_going (.finish .normal h) hw
  | given h => exact follows_going (.finish (.returned hv) h) hw

theorem stepRaise_like {f f' : Fault} {next next' : Awaiting} (hf : f.Like L f')
    (hn : next.Like L p w.scope w'.scope next') (hw : w.Like L p w') :
    Follows L p (stepRaise f next w) (stepRaise f' next' w') := by
  cases hn with
  | outcome => exact ⟨p, .refl p, .ended (.fault hf), hw⟩
  | operand _ h | left _ _ h | right _ _ h | decision _ h | assigned _ h | callee _ _ h
  | argument _ _ _ _ h => exact follows_going (.raise hf h) hw
  | discarded h | printed h | initial _ h | thenBranch _ h | branches _ _ h | condition _ _ h
  | given h => exact follows_going (.abort hf h) hw

/-- Statements that are alike start alike, and declare names only in frames that stand for each
other alone. -/
theorem stepExecute_like {s s' : Stmt} {next next' : Remaining}
    (hs : s.LikeIn L p w.scope w'.scope s') (hn : next.Like L p w.scope w'.scope next')
    (hw : w.Like L p w') :
    Follows L p (going (stepExecute s next w)) (going (stepExecute s' next' w')) := by
  obtain ⟨htree, hplace⟩ := hs
  cases htree with
  | expression h => exact follows_going (.evaluate h (.discarded hn)) hw
  | output h => exact follows_going (.evaluate h (.printed hn)) hw
  | @create name _ _ _ _ h _ =>
    -- in a spare frame only statements that declare nothing are run
    have hc : p.Core w.scope w'.scope := hplace.resolve_right id
    cases h with
    | none => exact ⟨p, .refl p, .going (.finish .normal hn), hw.bindAt hc name .nil⟩
    | some h => exact follows_going (.evaluate h (.initial hc hn)) hw
  | block hb =>
    have hq := p.extends_pair w.store.frames.size w'.store.frames.size
    refine ⟨_, hq, .going (.sequence (likeIn_pair hw hb) ?_), hw.push hw.scope .nil⟩
    exact .blockEnd (hq.keeps hw.scope) (hn.extend hq)
  | ifThen hc hy => exact follows_going (.evaluate hc (.thenBranch ⟨hy, hplace⟩ hn)) hw
  | ifElse hc hy hno =>
    have hyes := hplace.imp_right And.left
    have hnot := hplace.imp_right And.right
    exact follows_going (.evaluate hc (.branches ⟨hy, hyes⟩ ⟨hno, hnot⟩ hn)) hw
  | loop hc hb => exact follows_going (.evaluate hc (.condition hc ⟨hb, hplace⟩ hn)) hw
  | @function name params _ _ _ _ hb _ =>
    have hc : p.Core w.scope w'.scope := hplace.resolve_right id
    exact ⟨p, .refl p, .going (.finish .normal hn), hw.declare hc name params hb⟩
  | giveBack h _ =>
    cases h with
    | none => exact follows_going (.finish (.returned .nil) hn) hw
    | some h => exact follows_going (.evaluate h (.given hn)) hw

theorem stepFinish_like {s s' : Signal} {next next' : Remaining} (hs : s.Like L p s')
    (hn : next.Like L p w.scope w'.scope next') (hw : w.Like L p w') :
    Follows L p (stepFinish s next w) (stepFinish s' next' w') := by
  cases hn with
  | outcome => cases hs with
    | normal => exact ⟨p, .refl p, .ended (.signal .normal), hw⟩
    | returned hv => exact ⟨p, .refl p, .ended (.signal (.returned hv)), hw⟩
  | statements hr h => cases hs with
    | normal => exact follows_going (.sequence hr h) hw
    | returned hv => exact follows_going (.finish (.returned hv) h) hw
  | round he hb h => cases hs with
    | normal => exact follows_going (.evaluate he (.condition he hb h)) hw
    | returned hv => exact follows_going (.finish (.returned hv) h) hw
  | blockEnd ho h => cases hs with
    | normal => exact ⟨p, .refl p, .going (.finish .normal h), hw.within ho⟩
    | returned hv => exact ⟨p, .refl p, .going (.finish (.returned hv) h), hw.within ho⟩
  | callEnd ho h => cases hs with
    | normal => exact ⟨p, .refl p, .going (.give .nil h), hw.within ho⟩
    | returned hv => exact ⟨p, .refl p, .going (.give hv h), hw.within ho⟩

theorem stepAbort_like {f f' : Fault} {next next' : Remaining} (hf : f.Like L f')
    (hn : next.Like L p w.scope w'.scope next') (hw : w.Like L p w') :
    Follows L p (stepAbort f next w) (stepAbort f' next' w') := by
  cases hn with
  | outcome => exact ⟨p, .refl p, .ended (.fault hf), hw⟩
  | statements _ h | round _ _ h => exact follows_going (.abort hf h) hw
  | blockEnd ho h => exact ⟨p, .refl p, .going (.abort hf h), hw.within ho⟩
  | callEnd ho h => exact ⟨p, .refl p, .going (.raise hf h), hw.within ho⟩

/-- Machines that are alike, in worlds that are alike, take steps that are alike. -/
theorem step_like {m m' : Machine} (hm : m.Like L p w.scope w'.scope m') (hw : w.Like L p w') :
    Follows L p (step m w) (step m' w') := by
  cases hm with
  | evaluate he h => exact stepEvaluate_like he h hw
  | arguments hv hd hr hl h =>
    cases hr with
    | nil => exact follows_going (.apply hv (List.forall₂_reverse_iff.mpr hd) hl h) hw
    | cons he hr => exact follows_going (.evaluate he (.argument hv hd hr hl h)) hw
  | apply hv ha hl h => exact stepApply_like hv ha hl h hw
  | give hv h => exact stepGive_like hv h hw
  | raise hf h => exact stepRaise_like hf h hw
  | execute hs h => exact stepExecute_like hs h hw
  | sequence hb h =>
    cases hb with
    | nil => exact follows_going (.finish .normal h) hw
    | cons hs hb => exact follows_going (.execute hs (.statements hb h)) hw
  | finish hs h => exact stepFinish_like hs h hw
  | abort hf h => exact stepAbort_like hf h hw

/-- Runs that are alike end after the same number of steps, if they end, and alike. -/
theorem run_like {m m' : Machine} (hm : m.Like L p w.scope w'.scope m') (hw : w.Like L p w')
    (n : Nat) :
    (run n m w = none ∧ run n m' w' = none) ∨
      ∃ q o o' u u', p.Extends q ∧ run n m w = some (o, u) ∧ run n m' w' = some (o', u') ∧
        o.Like L q o' ∧ u.Like L q u' := by
  induction n generalizing m m' w w' p with
  | zero => exact .inl ⟨rfl, rfl⟩
  | succ n ih =>
    obtain ⟨q, hq, hp, hu⟩ := step_like hm hw
    unfold run
    generalize step m w = r at hp hu
    generalize step m' w' = r' at hp hu
    obtain ⟨x, u⟩ := r
    obtain ⟨x', u'⟩ := r'
    cases hp with
    | ended ho => exact .inr ⟨q, _, _, u, u', hq, rfl, rfl, ho, hu⟩
    | going hm₁ =>
      rcases ih hm₁ hu with hnone | ⟨q', o, o', z, z', hq', hrest⟩
      · exact .inl hnone
      · exact .inr ⟨q', o, o', z, z', hq.trans hq', hrest⟩

end Machine

end ClosureLang
