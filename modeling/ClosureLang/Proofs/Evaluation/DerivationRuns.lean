import ClosureLang.Proofs.Evaluation.Steps

namespace ClosureLang

open Machine

mutual

/-- Whatever waits for the value of an expression, the machine comes to it with what a derivation
gives. -/
theorem Evaluates.leads {scope : FrameId} {e : Expr} {s t : State} {r : Except Fault Value}
    (h : Evaluates scope e s r t) (next : Awaiting)
    (hg : (Machine.evaluate e next).Grounded (s.within scope)) :
    Leads (.evaluate e next) (s.within scope) (settle r next) (t.within scope) :=
  match h with
  | .literal => .single rfl
  | .grouping h => hg.head rfl fun hg => h.leads next hg
  | .unary h hy => by
    refine hg.head rfl fun hg => ?_
    refine hg.through (h.leads _ hg) fun hg => ?_
    exact .single (UnaryOp.apply_of_yields hy ▸ rfl)
  | .unaryFault h => by
    refine hg.head rfl fun hg => ?_
    exact (h.leads _ hg).trans (.single rfl)
  | .binary h h' hy => by
    refine hg.head rfl fun hg => ?_
    refine hg.through (h.leads _ hg) fun hg => ?_
    refine hg.head rfl fun hg => ?_
    refine hg.through (h'.leads _ hg) fun hg => ?_
    exact .single (BinaryOp.apply_of_yields hy ▸ rfl)
  | .leftFault h => by
    refine hg.head rfl fun hg => ?_
    exact (h.leads _ hg).trans (.single rfl)
  | .rightFault h h' => by
    refine hg.head rfl fun hg => ?_
    refine hg.through (h.leads _ hg) fun hg => ?_
    refine hg.head rfl fun hg => ?_
    exact (h'.leads _ hg).trans (.single rfl)
  | .shortCircuit h hv => by
    refine hg.head rfl fun hg => ?_
    exact (h.leads _ hg).trans (.single (step_decided (LogicalOp.decided_of_first hv) _ _ _))
  | .secondOperand h hv h' => by
    refine hg.head rfl fun hg => ?_
    refine hg.through (h.leads _ hg) fun hg => ?_
    refine hg.head (step_undecided (LogicalOp.decided_of_second hv) _ _ _) fun hg => ?_
    exact h'.leads next hg
  | .firstOperandFault h => by
    refine hg.head rfl fun hg => ?_
    exact (h.leads _ hg).trans (.single rfl)
  | .lookup hb => .single (step_lookup (Store.get_of_binds hg.ordered hb) next)
  | .lookupUndefined hb => .single (step_lookup (Store.get_of_not_binds hg.ordered hb) next)
  | .assign h hb => by
    refine hg.head rfl fun hg => ?_
    refine hg.through (h.leads _ hg) fun hg => ?_
    exact .single (step_assigned (hb.resolve? hg.ordered) _ _ next)
  | .assignUndefined h hb => by
    refine hg.head rfl fun hg => ?_
    refine hg.through (h.leads _ hg) fun hg => ?_
    have hr := (Store.resolve?_eq_none_iff hg.ordered).mpr hb
    exact .single (step_assigned_undefined hr _ _ next)
  | .assignFault h => by
    refine hg.head rfl fun hg => ?_
    exact (h.leads _ hg).trans (.single rfl)
  | .calleeFault h => by
    refine hg.head rfl fun hg => ?_
    exact (h.leads _ hg).trans (.single rfl)
  | .argumentFault h h' => by
    refine hg.head rfl fun hg => ?_
    refine hg.through (h.leads _ hg) fun hg => ?_
    refine hg.head rfl fun hg => ?_
    exact h'.leads _ _ _ next hg
  | .notCallable h h' hc => by
    refine hg.head rfl fun hg => ?_
    refine hg.through (h.leads _ hg) fun hg => ?_
    refine hg.head rfl fun hg => ?_
    exact (h'.leads _ _ _ next hg).trans (.single (step_apply_not_callable hc _ _ _ _))
  | .arityMismatch h h' hc hne => by
    refine hg.head rfl fun hg => ?_
    refine hg.through (h.leads _ hg) fun hg => ?_
    refine hg.head rfl fun hg => ?_
    exact (h'.leads _ _ _ next hg).trans (.single (step_apply_arity hc hne _ _ _))
  | .native h h' hl hy => by
    refine hg.head rfl fun hg => ?_
    refine hg.through (h.leads _ hg) fun hg => ?_
    refine hg.head rfl fun hg => ?_
    refine hg.through (h'.leads _ _ _ next hg) fun hg => ?_
    rw [← Native.apply_of_yields hy]
    exact .single (step_apply_native hl _ _ _)
  | .call h h' hl hb => by
    refine hg.head rfl fun hg => ?_
    refine hg.through (h.leads _ hg) fun hg => ?_
    refine hg.head rfl fun hg => ?_
    refine hg.through (h'.leads _ _ _ next hg) fun hg => ?_
    refine hg.head (step_apply_closure hl _ _ _) fun hg => ?_
    exact (hb.leads _ hg).trans (conclude_callEnd _ _ _ _ _)
termination_by structural h

theorem EvaluatesAll.leads {scope : FrameId} {es : List Expr} {s t : State}
    {r : Except Fault (List Value)} (h : EvaluatesAll scope es s r t) (callee : Value)
    (done : List Value) (line : Nat) (next : Awaiting)
    (hg : (Machine.arguments callee done es line next).Grounded (s.within scope)) :
    Leads (.arguments callee done es line next) (s.within scope) (gather callee done r line next)
      (t.within scope) :=
  match h with
  | .nil => by
    simp only [gather, List.append_nil]
    exact .single rfl
  | .cons h h' => by
    refine hg.head rfl fun hg => ?_
    refine hg.through (h.leads _ hg) fun hg => ?_
    refine hg.head rfl fun hg => ?_
    simpa [gather] using h'.leads _ _ _ next hg
  | .headFault h => by
    refine hg.head rfl fun hg => ?_
    exact (h.leads _ hg).trans (.single rfl)
  | .tailFault h h' => by
    refine hg.head rfl fun hg => ?_
    refine hg.through (h.leads _ hg) fun hg => ?_
    refine hg.head rfl fun hg => ?_
    exact h'.leads _ _ _ next hg
termination_by structural h

/-- Whatever is left to do behind a statement, the machine comes to it with the signal or the fault
that a derivation gives. -/
theorem Executes.leads {scope : FrameId} {stmt : Stmt} {s t : State} {r : Except Fault Signal}
    (h : Executes scope stmt s r t) (next : Remaining)
    (hg : (Machine.execute stmt next).Grounded (s.within scope)) :
    Leads (.execute stmt next) (s.within scope) (conclude r next) (t.within scope) :=
  match h with
  | .expression h => by
    refine hg.head rfl fun hg => ?_
    exact (h.leads _ hg).trans (settle_discarded _ _ _)
  | .output h => by
    refine hg.head rfl fun hg => ?_
    exact (h.leads _ hg).trans (.single rfl)
  | .outputFault h => by
    refine hg.head rfl fun hg => ?_
    exact (h.leads _ hg).trans (.single rfl)
  | .create h => by
    refine hg.head rfl fun hg => ?_
    exact (h.leads _ hg).trans (.single rfl)
  | .createFault h => by
    refine hg.head rfl fun hg => ?_
    exact (h.leads _ hg).trans (.single rfl)
  | .createNil => .single rfl
  | .block h => by
    refine hg.head rfl fun hg => ?_
    exact (h.leads _ hg).trans (conclude_blockEnd _ _ _ _ _)
  | .thenTaken h hv h' => by
    refine hg.head rfl fun hg => ?_
    refine hg.through (h.leads _ hg) fun hg => ?_
    refine hg.head (step_thenBranch_taken hv _ _ _) fun hg => ?_
    exact h'.leads next hg
  | .thenSkipped h hv => by
    refine hg.head rfl fun hg => ?_
    exact (h.leads _ hg).trans (.single (step_thenBranch_skipped hv _ _ _))
  | .thenFault h => by
    refine hg.head rfl fun hg => ?_
    exact (h.leads _ hg).trans (.single rfl)
  | .branch h h' => by
    refine hg.head rfl fun hg => ?_
    refine hg.through (h.leads _ hg) fun hg => ?_
    refine hg.head rfl fun hg => ?_
    exact h'.leads next hg
  | .branchFault h => by
    refine hg.head rfl fun hg => ?_
    exact (h.leads _ hg).trans (.single rfl)
  | .loopEnd h hv => by
    refine hg.head rfl fun hg => ?_
    exact (h.leads _ hg).trans (.single (step_condition_end hv _ _ _ _))
  | .loopRound h hv h' h'' => by
    refine hg.head rfl fun hg => ?_
    refine hg.through (h.leads _ hg) fun hg => ?_
    refine hg.head (step_condition_round hv _ _ _ _) fun hg => ?_
    refine hg.through (h'.leads _ hg) fun hg => ?_
    -- The next round starts at the condition, one step into what the rest of the loop is about.
    have hl := h''.leads next ⟨hg.machine.2, hg.world, hg.ordered⟩
    refine .head rfl ((hl.after_step rfl).resolve_left ?_)
    exact execute_ne_conclude _ _ _ _
  | .loopReturn h hv h' => by
    refine hg.head rfl fun hg => ?_
    refine hg.through (h.leads _ hg) fun hg => ?_
    refine hg.head (step_condition_round hv _ _ _ _) fun hg => ?_
    exact (h'.leads _ hg).trans (.single rfl)
  | .loopFault h hv h' => by
    refine hg.head rfl fun hg => ?_
    refine hg.through (h.leads _ hg) fun hg => ?_
    refine hg.head (step_condition_round hv _ _ _ _) fun hg => ?_
    exact (h'.leads _ hg).trans (.single rfl)
  | .conditionFault h => by
    refine hg.head rfl fun hg => ?_
    exact (h.leads _ hg).trans (.single rfl)
  | .function => .single rfl
  | .giveBack h => by
    refine hg.head rfl fun hg => ?_
    exact (h.leads _ hg).trans (settle_given _ _ _)
  | .giveBackNil => .single rfl
termination_by structural h

/-- The machine executes a list of statements as their derivations do, up to the first that does not
end normally. -/
theorem ExecutesAll.leads {scope : FrameId} {body : List Stmt} {s t : State}
    {r : Except Fault Signal} (h : ExecutesAll scope body s r t) (next : Remaining)
    (hg : (Machine.sequence body next).Grounded (s.within scope)) :
    Leads (.sequence body next) (s.within scope) (conclude r next) (t.within scope) :=
  match h with
  | .nil => .single rfl
  | .next h h' => by
    refine hg.head rfl fun hg => ?_
    refine hg.through (h.leads _ hg) fun hg => ?_
    refine hg.head rfl fun hg => ?_
    exact h'.leads next hg
  | .returned h => by
    refine hg.head rfl fun hg => ?_
    exact (h.leads _ hg).trans (.single rfl)
  | .fault h => by
    refine hg.head rfl fun hg => ?_
    exact (h.leads _ hg).trans (.single rfl)
termination_by structural h

end

end ClosureLang
