import ClosureLang.Proofs.Frames.Confinement

namespace ClosureLang

variable {G : Set FrameId}

namespace Machine

theorem confined_settle {r : Except Fault Value} {next : Awaiting}
    (hr : ∀ v, r = .ok v → v.Confined G) (hn : next.Confined G) : (settle r next).Confined G := by
  cases r with
  | ok v => exact ⟨hr v rfl, hn⟩
  | error f => exact hn

theorem stepEvaluate_confined {e : Expr} {next : Awaiting} {w : World} (hn : next.Confined G)
    (hw : w.Confined G) :
    (stepEvaluate e next w).1.Confined G ∧ w.Change G (stepEvaluate e next w).2 := by
  refine ⟨?_, by cases e <;> exact .same⟩
  cases e with
  | literal value => exact ⟨Value.confined_of_ne_closure (Value.ofLiteral_ne_closure value), hn⟩
  | lookup name line => exact confined_settle (fun v h => hw.store.get hw.scope h) hn
  | grouping | unary | binary | logical | assign | call => exact hn

/-- A call is confined: the new frame lies inside the frame of the function's declaration. -/
theorem stepApply_confined {callee : Value} {args : List Value} {line : Nat} {next : Awaiting}
    {w : World} (hc : callee.Confined G) (ha : Value.AllConfined G args) (hn : next.Confined G)
    (hw : w.Confined G) :
    (stepApply callee args line next w).1.Confined G ∧
      w.Change G (stepApply callee args line next w).2 := by
  cases callee with
  | closure f =>
    simp only [stepApply]
    split
    next => exact ⟨⟨hw.scope, hn⟩, .push hc (Frame.bindAll_confined f.params ha)⟩
    next => exact ⟨hn, .same⟩
  | native f =>
    simp only [stepApply]
    split
    next =>
      exact ⟨confined_settle (fun v h => Value.confined_of_ne_closure (f.apply_ne_closure h)) hn,
        .same⟩
    next => exact ⟨hn, .same⟩
  | nil | bool | number | text => exact ⟨hn, .same⟩

theorem stepGive_confined {v : Value} {next : Awaiting} {w : World} (hv : v.Confined G)
    (hn : next.Confined G) (hw : w.Confined G) :
    (stepGive v next w).1.Confined G ∧ w.Change G (stepGive v next w).2 := by
  cases next with
  | outcome => exact ⟨hv, .same⟩
  | operand op line next =>
    exact ⟨confined_settle (fun u h => Value.confined_of_ne_closure (op.apply_ne_closure h)) hn,
      .same⟩
  | left op right line next => exact ⟨⟨hv, hn⟩, .same⟩
  | right left op line next =>
    exact ⟨confined_settle (fun u h => Value.confined_of_ne_closure (op.apply_ne_closure h)) hn.2,
      .same⟩
  | decision op right next =>
    refine ⟨?_, .same⟩
    simp only [stepGive]
    split
    next => exact ⟨hv, hn⟩
    next => exact hn
  | assigned name line next =>
    simp only [stepGive]
    split
    next i hi => exact ⟨⟨hv, hn⟩, .bindAt (hw.store.resolve? hw.scope hi) hv⟩
    next => exact ⟨hn, .same⟩
  | callee args line next => exact ⟨⟨hv, by simp [Value.AllConfined], hn⟩, .same⟩
  | argument callee done rest line next =>
    obtain ⟨hc, hd, hn⟩ := hn
    refine ⟨⟨hc, ?_, hn⟩, .same⟩
    intro u hu
    rcases List.mem_cons.mp hu with rfl | hu
    · exact hv
    · exact hd u hu
  | discarded next => exact ⟨⟨trivial, hn⟩, .same⟩
  | printed next => exact ⟨⟨trivial, hn⟩, .println⟩
  | initial name next => exact ⟨⟨trivial, hn⟩, .bindAt hw.scope hv⟩
  | thenBranch yes next =>
    refine ⟨?_, .same⟩
    simp only [stepGive]
    split
    next => exact hn
    next => exact ⟨trivial, hn⟩
  | branches yes no next => exact ⟨hn, .same⟩
  | condition condition body next =>
    refine ⟨?_, .same⟩
    simp only [stepGive]
    split
    next => exact hn
    next => exact ⟨trivial, hn⟩
  | given next => exact ⟨⟨hv, hn⟩, .same⟩

theorem stepRaise_confined {f : Fault} {next : Awaiting} {w : World} (hn : next.Confined G) :
    (stepRaise f next w).1.Confined G ∧ w.Change G (stepRaise f next w).2 := by
  cases next with
  | outcome => exact ⟨trivial, .same⟩
  | right left op line next => exact ⟨hn.2, .same⟩
  | argument callee done rest line next => exact ⟨hn.2.2, .same⟩
  | operand | left | decision | assigned | callee | discarded | printed | initial | thenBranch
  | branches | condition | given => exact ⟨hn, .same⟩

theorem stepExecute_confined {s : Stmt} {next : Remaining} {w : World} (hn : next.Confined G)
    (hw : w.Confined G) :
    (stepExecute s next w).1.Confined G ∧ w.Change G (stepExecute s next w).2 := by
  cases s with
  | create name initial line =>
    cases initial with
    | some e => exact ⟨hn, .same⟩
    | none => exact ⟨⟨trivial, hn⟩, .bindAt hw.scope trivial⟩
  | block body => exact ⟨⟨hw.scope, hn⟩, .push hw.scope (by simp)⟩
  | function name params body line => exact ⟨⟨trivial, hn⟩, .declare⟩
  | giveBack value line =>
    cases value with
    | some e => exact ⟨hn, .same⟩
    | none => exact ⟨⟨trivial, hn⟩, .same⟩
  | expression | output | ifThen | ifElse | loop => exact ⟨hn, .same⟩

theorem stepFinish_confined {s : Signal} {next : Remaining} {w : World} (hs : s.Confined G)
    (hn : next.Confined G) :
    (stepFinish s next w).1.Confined G ∧ w.Change G (stepFinish s next w).2 := by
  cases next with
  | outcome => cases s <;> exact ⟨hs, .same⟩
  | statements rest next =>
    cases s with
    | normal => exact ⟨hn, .same⟩
    | returned v => exact ⟨⟨hs, hn⟩, .same⟩
  | round condition body next =>
    cases s with
    | normal => exact ⟨hn, .same⟩
    | returned v => exact ⟨⟨hs, hn⟩, .same⟩
  | blockEnd scope next => cases s <;> exact ⟨⟨hs, hn.2⟩, .within hn.1⟩
  | callEnd scope next =>
    cases s with
    | normal => exact ⟨⟨trivial, hn.2⟩, .within hn.1⟩
    | returned v => exact ⟨⟨hs, hn.2⟩, .within hn.1⟩

theorem stepAbort_confined {f : Fault} {next : Remaining} {w : World} (hn : next.Confined G) :
    (stepAbort f next w).1.Confined G ∧ w.Change G (stepAbort f next w).2 := by
  cases next with
  | outcome => exact ⟨trivial, .same⟩
  | statements | round => exact ⟨hn, .same⟩
  | blockEnd scope next => exact ⟨hn.2, .within hn.1⟩
  | callEnd scope next => exact ⟨hn.2, .within hn.1⟩

/-- A confined machine stays confined, and changes the world with what it can get at. -/
theorem step_confined {m : Machine} {w : World} (hm : m.Confined G) (hw : w.Confined G) :
    (step m w).1.Confined G ∧ w.Change G (step m w).2 := by
  cases m with
  | evaluate e next => exact stepEvaluate_confined hm hw
  | arguments callee done rest line next =>
    obtain ⟨hc, hd, hn⟩ := hm
    cases rest with
    | nil =>
      refine ⟨⟨hc, ?_, hn⟩, .same⟩
      exact fun v hv => hd v (List.mem_reverse.mp hv)
    | cons e rest => exact ⟨⟨hc, hd, hn⟩, .same⟩
  | apply callee args line next => exact stepApply_confined hm.1 hm.2.1 hm.2.2 hw
  | give v next => exact stepGive_confined hm.1 hm.2 hw
  | raise f next => exact stepRaise_confined hm
  | execute s next => exact stepExecute_confined hm hw
  | sequence body next =>
    cases body with
    | nil => exact ⟨⟨trivial, hm⟩, .same⟩
    | cons s rest => exact ⟨hm, .same⟩
  | finish s next => exact stepFinish_confined hm.1 hm.2
  | abort f next => exact stepAbort_confined hm

end Machine

end ClosureLang
