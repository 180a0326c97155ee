import ClosureLang.Proofs.Likeness.Derivations
import ClosureLang.Proofs.Loops.Rounds

namespace ClosureLang

/-- The pairing has `n` spare frames more, all of them inside frame `o`. -/
structure Pairing.Gains (o : FrameId) (n : Nat) (p q : Pairing) : Prop where
  core : ∀ {i j : FrameId}, p.Core i j → q.Core i j
  spare : ∃ new : List FrameId, new.length = n ∧ q.spare = new.map (·, o) ++ p.spare

namespace Pairing

theorem Extends.gains {p q : Pairing} (h : p.Extends q) (o : FrameId) : p.Gains o 0 q :=
  ⟨h.core, [], rfl, h.spare⟩

theorem Gains.trans {o : FrameId} {n m : Nat} {p q r : Pairing} (h : p.Gains o n q)
    (h' : q.Gains o m r) : p.Gains o (m + n) r := by
  obtain ⟨new, hn, hs⟩ := h.spare
  obtain ⟨new', hn', hs'⟩ := h'.spare
  refine ⟨fun hc => h'.core (h.core hc), new' ++ new, ?_, ?_⟩
  · rw [List.length_append, hn, hn']
  · rw [hs', hs, List.map_append, List.append_assoc]

end Pairing

/-- Signals and faults that differ at most in the frames of the functions in them. -/
abbrev Pairing.SameEnd (p : Pairing) : Except Fault Signal → Except Fault Signal → Prop :=
  Likeness.same.Result (Signal.Like .same p)

theorem Fault.eq_of_like {f f' : Fault} (h : f.Like .same f') : f = f' := by
  obtain ⟨hl, hf⟩ := h
  have hline : f.line = f'.line := hl
  rw [hf, ← hline]
  cases f <;> rfl

/-- If tests and rounds of two loops go together, with `g` spare frames for each round, so do the
loops. -/
theorem Repeats.follow {o : FrameId} {g : Nat}
    {test test' : State → Except Fault Bool → State → Prop}
    {lap lap' : State → Except Fault Signal → State → Prop}
    {R : Pairing → State → State → Prop}
    {V : Pairing → Except Fault Signal → Except Fault Signal → Prop}
    (htest : ∀ {p s s' b t}, R p s s' → test s b t →
      ∃ q t', p.Gains o 0 q ∧ test' s' b t' ∧ R q t t')
    (hlap : ∀ {p s s' r t}, R p s s' → lap s r t →
      ∃ q r' t', p.Gains o g q ∧ lap' s' r' t' ∧ V q r r' ∧ R q t t')
    (hnormal : ∀ {p r r'}, V p r r' → (r = .ok .normal ↔ r' = .ok .normal))
    (hend : ∀ p, V p (.ok .normal) (.ok .normal)) (hfault : ∀ p f, V p (.error f) (.error f))
    {n : Nat} {s t : State} {r : Except Fault Signal} (h : Repeats test lap n s r t)
    {p : Pairing} {s' : State} (hR : R p s s') :
    ∃ q r' t', p.Gains o (n * g) q ∧ Repeats test' lap' n s' r' t' ∧ V q r r' ∧ R q t t' := by
  induction h generalizing p s' with
  | finished ht =>
    obtain ⟨q, t', hq, ht', hR'⟩ := htest hR ht
    rw [Nat.zero_mul]
    exact ⟨q, _, t', hq, .finished ht', hend q, hR'⟩
  | untested ht =>
    obtain ⟨q, t', hq, ht', hR'⟩ := htest hR ht
    rw [Nat.zero_mul]
    exact ⟨q, _, t', hq, .untested ht', hfault q _, hR'⟩
  | stopped ht hl hr =>
    obtain ⟨q, t', hq, ht', hR'⟩ := htest hR ht
    obtain ⟨q', r', u', hq', hl', hV, hR''⟩ := hlap hR' hl
    rw [Nat.one_mul]
    exact ⟨q', r', u', hq.trans hq', .stopped ht' hl' (mt (hnormal hV).mpr hr), hV, hR''⟩
  | again ht hl _ ih =>
    obtain ⟨q, t', hq, ht', hR'⟩ := htest hR ht
    obtain ⟨q', r', u', hq', hl', hV, hR''⟩ := hlap hR' hl
    cases (hnormal hV).mp rfl
    obtain ⟨q'', r', z', hq'', h', hV', hR'''⟩ := ih hR''
    rw [Nat.succ_mul]
    exact ⟨q'', r', z', (hq.trans hq').trans hq'', .again ht' hl' h', hV', hR'''⟩

section

variable {o : FrameId} {p : Pairing} {s s' t t' : State} {c : Option Expr}

theorem Tests.like (hw : (s.within o).Like .same p (s'.within o)) {b : Except Fault Bool}
    (h : Tests o c s b t) :
    ∃ q t', p.Gains o 0 q ∧ Tests o c s' b t' ∧ (t.within o).Like .same q (t'.within o) := by
  cases h with
  | missing => exact ⟨p, s', (Pairing.Extends.refl p).gains o, .missing, hw⟩
  | @evaluated e _ _ r h =>
    obtain ⟨q, r', t', hq, h', hr, ht⟩ := h.like hw (Likeness.same_reflexive.expr e)
    have heq : r.map Value.truthy = r'.map Value.truthy := by
      cases hr with
      | ok hv => exact congrArg Except.ok hv.truthy
      | error hf => exact congrArg Except.error (Fault.eq_of_like hf)
    rw [heq]
    exact ⟨q, t', hq.gains o, .evaluated h', ht⟩

theorem Tests.like' (hw : (s.within o).Like .same p (s'.within o)) {b : Except Fault Bool}
    (h : Tests o c s' b t') :
    ∃ q t, p.Gains o 0 q ∧ Tests o c s b t ∧ (t.within o).Like .same q (t'.within o) := by
  cases h with
  | missing => exact ⟨p, s, (Pairing.Extends.refl p).gains o, .missing, hw⟩
  | @evaluated e _ _ r' h =>
    obtain ⟨q, r, t, hq, h', hr, ht⟩ := h.like' hw (Likeness.same_reflexive.expr e)
    have heq : r.map Value.truthy = r'.map Value.truthy := by
      cases hr with
      | ok hv => exact congrArg Except.ok hv.truthy
      | error hf => exact congrArg Except.error (Fault.eq_of_like hf)
    rw [← heq]
    exact ⟨q, t, hq.gains o, .evaluated h', ht⟩

/-- A new empty frame around the current one makes no difference. -/
theorem like_child (hw : (s.within o).Like .same p (s'.within o)) :
    ((s.child o []).within s.fresh).Like .same (p.skip s.fresh o o) (s'.within o) :=
  ⟨hw.store.skip hw.scope, .inr ⟨rfl, rfl⟩, hw.output⟩

theorem gains_skip (hw : (s.within o).Like .same p (s'.within o)) {q : Pairing}
    (hq : (p.skip s.fresh o o).Extends q) : p.Gains o 1 q :=
  ⟨fun hc => hq.core (hw.store.core_skip.mpr hc), [s.fresh], rfl, hq.spare⟩

theorem likeIn_round {body : Stmt} (hb : body.Undeclaring) (e : Expr) (q : Pairing)
    (i j : FrameId) :
    List.Forall₂ (Stmt.LikeIn .same q i j) [body, .expression e] [body, .expression e] := by
  have hr := Likeness.same_reflexive
  exact .cons ⟨hr.stmt body, .inr hb⟩ (.cons ⟨hr.stmt _, .inr trivial⟩ .nil)

end

namespace ForLoop

variable {l : ForLoop} {o : FrameId} {p : Pairing} {s s' t t' : State} {r r' : Except Fault Signal}

/-- How many frames of its own a round of the tree has. -/
def perRound (l : ForLoop) : Nat :=
  if l.increment.isSome then 1 else 0

/-- A round of the tree is a round of the loop, but for the spare frame of its block. -/
theorem lap_of_round (hb : l.body.Undeclaring) (hw : (s.within o).Like .same p (s'.within o))
    (h : Executes o l.round s r t) :
    ∃ q r' t', p.Gains o l.perRound q ∧ Lap o l.increment l.body s' r' t' ∧ q.SameEnd r r' ∧
      (t.within o).Like .same q (t'.within o) := by
  obtain ⟨initial, condition, increment, body⟩ := l
  cases increment with
  | none =>
    have hin : body.LikeIn .same p o o body := ⟨Likeness.same_reflexive.stmt body, .inr hb⟩
    obtain ⟨q, r', t', hq, h', hr, ht⟩ := h.like hw hin
    exact ⟨q, r', t', hq.gains o, lap_none_iff.mpr h', hr, ht⟩
  | some e =>
    -- the round runs in a new frame of the tree, which is spare
    obtain ⟨q, r', t', hq, h', hr, ht⟩ :=
      (executes_block_iff.mp h).like (like_child hw) (likeIn_round hb e _ _ _)
    exact ⟨q, r', t', gains_skip hw hq, lap_some_iff.mpr h', hr,
      ht.within (hq.keeps (.inl hw.scope))⟩

theorem round_of_lap (hb : l.body.Undeclaring) (hw : (s.within o).Like .same p (s'.within o))
    (h : Lap o l.increment l.body s' r' t') :
    ∃ q r t, p.Gains o l.perRound q ∧ Executes o l.round s r t ∧ q.SameEnd r r' ∧
      (t.within o).Like .same q (t'.within o) := by
  obtain ⟨initial, condition, increment, body⟩ := l
  cases increment with
  | none =>
    have hin : body.LikeIn .same p o o body := ⟨Likeness.same_reflexive.stmt body, .inr hb⟩
    obtain ⟨q, r, t, hq, h', hr, ht⟩ := (lap_none_iff.mp h).like' hw hin
    exact ⟨q, r, t, hq.gains o, h', hr, ht⟩
  | some e =>
    obtain ⟨q, r, t, hq, h', hr, ht⟩ :=
      (lap_some_iff.mp h).like' (like_child hw) (likeIn_round hb e _ _ _)
    exact ⟨q, r, t, gains_skip hw hq, executes_block_iff.mpr h', hr,
      ht.within (hq.keeps (.inl hw.scope))⟩

theorem sameEnd_normal (p : Pairing) : p.SameEnd (.ok .normal) (.ok .normal) :=
  .ok .normal

theorem sameEnd_fault (p : Pairing) (f : Fault) : p.SameEnd (.error f) (.error f) :=
  .error (Likeness.same_reflexive.fault f)

/-- The rounds of the tree are as many rounds of the loop, each with its spare frame. -/
theorem laps_of_rounds (hb : l.body.Undeclaring) {n : Nat}
    (hw : (s.within o).Like .same p (s'.within o))
    (h : Repeats (Tests o l.condition) (Executes o l.round) n s r t) :
    ∃ q r' t', p.Gains o (n * l.perRound) q ∧
      Repeats (Tests o l.condition) (Lap o l.increment l.body) n s' r' t' ∧ q.SameEnd r r' ∧
      (t.within o).Like .same q (t'.within o) :=
  h.follow (R := fun p s s' => (s.within o).Like .same p (s'.within o)) (V := Pairing.SameEnd)
    (fun hw h => h.like hw) (fun hw h => lap_of_round hb hw h) (fun h => h.normal_iff)
    sameEnd_normal sameEnd_fault hw

theorem rounds_of_laps (hb : l.body.Undeclaring) {n : Nat}
    (hw : (s.within o).Like .same p (s'.within o))
    (h : Repeats (Tests o l.condition) (Lap o l.increment l.body) n s' r' t') :
    ∃ q r t, p.Gains o (n * l.perRound) q ∧
      Repeats (Tests o l.condition) (Executes o l.round) n s r t ∧ q.SameEnd r r' ∧
      (t.within o).Like .same q (t'.within o) :=
  h.follow (R := fun p s' s => (s.within o).Like .same p (s'.within o))
    (V := fun p r' r => p.SameEnd r r')
    (fun hw h => h.like' hw) (fun hw h => round_of_lap hb hw h) (fun h => h.normal_iff.symm)
    sameEnd_normal sameEnd_fault hw

/-- The frame in which the rounds of a loop run. -/
def frame (l : ForLoop) (w : World) : FrameId :=
  if l.initial.isSome then w.store.frames.size else w.scope

theorem frame_of_none {w : World} (h : l.initial = none) : l.frame w = w.scope := by
  simp [frame, h]

theorem frame_of_some {w : World} {c : Stmt} (h : l.initial = some c) :
    l.frame w = w.store.frames.size := by
  simp [frame, h]

/-- The initial statement is about to run in its new frame, on both sides. -/
theorem like_initial {w : World} (hw : w.WellFormed) :
    ∃ p, (Pairing.identity w.store.frames.size).Extends p ∧ p.Core w.state.fresh w.state.fresh ∧
      ((w.state.child w.scope []).within w.state.fresh).Like .same p
        ((w.state.child w.scope []).within w.state.fresh) := by
  have hl := hw.like Likeness.same_reflexive rfl
  refine ⟨_, Pairing.extends_pair _ _ _, ⟨.inr ⟨rfl, rfl⟩, hl.store.not_spare_size⟩, ?_⟩
  exact hl.push hl.scope .nil

/-- If initial statements and rounds of two loops go together, so do the loops. -/
theorem follow {w : World} (hw : w.WellFormed) {g : Nat}
    {rounds rounds' : FrameId → Nat → State → Except Fault Signal → State → Prop}
    {R : FrameId → Pairing → State → State → Prop}
    {V : Pairing → Except Fault Signal → Except Fault Signal → Prop}
    (hself : ∀ {i p s}, (s.within i).Like .same p (s.within i) → R i p s s)
    (hmove : ∀ {i j p s s'}, R i p s s' → p.Core j j → R j p s s')
    (hinitial : ∀ {i p c s s' r t}, R i p s s' → p.Core i i → Executes i c s r t →
      ∃ q r' t', p.Extends q ∧ Executes i c s' r' t' ∧ V q r r' ∧ R i q t t')
    (hrounds : ∀ {i p n s s' r t}, R i p s s' → rounds i n s r t →
      ∃ q r' t', p.Gains i (n * g) q ∧ rounds' i n s' r' t' ∧ V q r r' ∧ R i q t t')
    (hnormal : ∀ {p r r'}, V p r r' → (r = .ok .normal ↔ r' = .ok .normal))
    {n : Nat} (h : Starts l.initial rounds w.scope n w.state r t) :
    ∃ q r' t', (Pairing.identity w.store.frames.size).Gains (l.frame w) (n * g) q ∧
      Starts l.initial rounds' w.scope n w.state r' t' ∧ V q r r' ∧ R w.scope q t t' := by
  have hscope : (Pairing.identity w.store.frames.size).Core w.scope w.scope :=
    ⟨⟨rfl, hw.scope⟩, fun _ => List.not_mem_nil⟩
  cases h with
  | bare hi h =>
    rw [frame_of_none hi]
    have hR := hself (i := w.scope) (s := w.state) (hw.like Likeness.same_reflexive rfl)
    obtain ⟨q, r', t', hq, h', hV, hR'⟩ := hrounds hR h
    exact ⟨q, r', t', hq, .bare hi h', hV, hR'⟩
  | @stopped c _ _ _ hi hc hne =>
    rw [frame_of_some hi, Nat.zero_mul]
    obtain ⟨p, hp, hcore, hl⟩ := like_initial hw
    obtain ⟨q, r', t', hq, hc', hV, hR⟩ := hinitial (hself hl) hcore hc
    have hstop := mt (hnormal hV).mpr hne
    have hgain := (hp.trans hq).gains w.store.frames.size
    exact ⟨q, r', t', hgain, .stopped hi hc' hstop, hV, hmove hR (hgain.core hscope)⟩
  | @started c _ _ _ _ _ hi hc h =>
    rw [frame_of_some hi]
    obtain ⟨p, hp, hcore, hl⟩ := like_initial hw
    obtain ⟨q, r', t', hq, hc', hV, hR⟩ := hinitial (hself hl) hcore hc
    cases (hnormal hV).mp rfl
    obtain ⟨q', r', u', hq', h', hV', hR'⟩ := hrounds hR h
    have hgain := ((hp.trans hq).gains _).trans hq'
    exact ⟨q', r', u', hgain, .started hi hc' h', hV', hmove hR' (hgain.core hscope)⟩

/-- What the tree does in a well-formed world, the loop does as well. -/
theorem runs_of_tree (hb : l.body.Undeclaring) {w : World} (hw : w.WellFormed) {n : Nat}
    (h : Starts l.initial (fun i => Repeats (Tests i l.condition) (Executes i l.round)) w.scope n
      w.state r t) :
    ∃ q r' t', (Pairing.identity w.store.frames.size).Gains (l.frame w) (n * l.perRound) q ∧
      l.Runs w.scope n w.state r' t' ∧ q.SameEnd r r' ∧
      (t.within w.scope).Like .same q (t'.within w.scope) :=
  follow hw (R := fun i p s s' => (s.within i).Like .same p (s'.within i)) (V := Pairing.SameEnd)
    id (fun hl hj => hl.within hj.1)
    (fun hl hi h => h.like hl ⟨Likeness.same_reflexive.stmt _, .inl hi⟩)
    (fun hl h => laps_of_rounds hb hl h) (fun h => h.normal_iff) h

/-- What the loop does in a well-formed world, the tree does as well. -/
theorem tree_of_runs (hb : l.body.Undeclaring) {w : World} (hw : w.WellFormed) {n : Nat}
    (h : l.Runs w.scope n w.state r' t') :
    ∃ q r t, (Pairing.identity w.store.frames.size).Gains (l.frame w) (n * l.perRound) q ∧
      Starts l.initial (fun i => Repeats (Tests i l.condition) (Executes i l.round)) w.scope n
        w.state r t ∧ q.SameEnd r r' ∧
      (t.within w.scope).Like .same q (t'.within w.scope) :=
  follow hw (R := fun i p s' s => (s.within i).Like .same p (s'.within i))
    (V := fun p r' r => p.SameEnd r r')
    id (fun hl hj => hl.within hj.1)
    (fun hl hi h => h.like' hl ⟨Likeness.same_reflexive.stmt _, .inl hi⟩)
    (fun hl h => rounds_of_laps hb hl h) (fun h => h.normal_iff.symm) h

end ForLoop

end ClosureLang
