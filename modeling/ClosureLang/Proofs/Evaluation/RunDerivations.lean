import ClosureLang.Proofs.Evaluation.DerivationRuns

namespace ClosureLang

open Machine

namespace Machine

/-- The run from `m` in `w` ends with `res` in fewer than `n` steps. -/
def Ends (n : Nat) (m : Machine) (w : World) (res : Outcome × World) : Prop :=
  ∃ k < n, run k m w = some res

theorem Ends.first {n : Nat} {m m₁ : Machine} {w w₁ : World} {res : Outcome × World}
    (h : Ends (n + 1) m w res) (hs : step m w = (.going m₁, w₁)) : Ends n m₁ w₁ res := by
  obtain ⟨k, hk, hr⟩ := h
  cases k with
  | zero => simp [run] at hr
  | succ k => exact ⟨k, by omega, (run_of_going hs).symm.trans hr⟩

theorem Ends.weaken {n : Nat} {m : Machine} {w : World} {res : Outcome × World}
    (h : Ends n m w res) : Ends (n + 1) m w res := by
  obtain ⟨k, hk, hr⟩ := h
  exact ⟨k, by omega, hr⟩

theorem Ends.step {n : Nat} {m m₁ : Machine} {w w₁ : World} {res : Outcome × World}
    (h : Ends n m w res) (hs : Machine.step m w = (.going m₁, w₁)) : Ends n m₁ w₁ res :=
  h.weaken.first hs

end Machine

/-- Runs of fewer than `n` steps follow derivations up to what waits for their outcome. -/
structure Explained (n : Nat) : Prop where
  evaluate {scope : FrameId} {e : Expr} {s : State} {next : Awaiting} {res : Outcome × World}
    (hg : (Machine.evaluate e next).Grounded (s.within scope))
    (he : Ends n (.evaluate e next) (s.within scope) res) :
    ∃ r t, Evaluates scope e s r t ∧ Ends n (settle r next) (t.within scope) res
  arguments {scope : FrameId} {callee : Value} {done : List Value} {es : List Expr} {line : Nat}
    {s : State} {next : Awaiting} {res : Outcome × World}
    (hg : (Machine.arguments callee done es line next).Grounded (s.within scope))
    (he : Ends n (.arguments callee done es line next) (s.within scope) res) :
    ∃ r t, EvaluatesAll scope es s r t ∧
      Ends n (gather callee done r line next) (t.within scope) res
  execute {scope : FrameId} {stmt : Stmt} {s : State} {next : Remaining} {res : Outcome × World}
    (hg : (Machine.execute stmt next).Grounded (s.within scope))
    (he : Ends n (.execute stmt next) (s.within scope) res) :
    ∃ r t, Executes scope stmt s r t ∧ Ends n (conclude r next) (t.within scope) res
  sequence {scope : FrameId} {body : List Stmt} {s : State} {next : Remaining}
    {res : Outcome × World}
    (hg : (Machine.sequence body next).Grounded (s.within scope))
    (he : Ends n (.sequence body next) (s.within scope) res) :
    ∃ r t, ExecutesAll scope body s r t ∧ Ends n (conclude r next) (t.within scope) res
  loop {scope : FrameId} {condition : Expr} {body : Stmt} {s : State} {next : Remaining}
    {res : Outcome × World}
    (hg : (Machine.evaluate condition (.condition condition body next)).Grounded (s.within scope))
    (he : Ends n (.evaluate condition (.condition condition body next)) (s.within scope) res) :
    ∃ r t, Executes scope (.loop condition body) s r t ∧
      Ends n (conclude r next) (t.within scope) res

variable {n : Nat} {scope : FrameId} {s : State} {res : Outcome × World}

theorem LogicalOp.first_or_second (op : LogicalOp) (v : Value) :
    v.truthy = (op == .or) ∨ v.truthy = (op == .and) := by
  cases op <;> cases v.truthy <;> simp

/-- A call whose callee and arguments are there. -/
theorem Explained.apply (ih : Explained n) {callee : Expr} {args : List Expr} {line : Nat}
    {t u : State} {v : Value} {vs : List Value} {next : Awaiting}
    (h : Evaluates scope callee s (.ok v) t) (h' : EvaluatesAll scope args t (.ok vs) u)
    (hg : (Machine.apply v vs line next).Grounded (u.within scope))
    (he : Ends n (.apply v vs line next) (u.within scope) res) :
    ∃ r z, Evaluates scope (.call callee args line) s r z ∧
      Ends n (settle r next) (z.within scope) res := by
  cases hv : v.signature? with
  | none =>
    exact ⟨_, u, .notCallable h h' hv, he.step (step_apply_not_callable hv _ _ _ _)⟩
  | some signature =>
    obtain ⟨name, arity⟩ := signature
    by_cases hl : vs.length = arity
    · cases v with
      | nil | bool | number | text => simp [Value.signature?] at hv
      | native f =>
        cases Option.some.inj hv
        exact ⟨_, u, .native h h' hl (f.yields_apply vs line), he.step (step_apply_native hl _ _ _)⟩
      | closure f =>
        cases Option.some.inj hv
        have hs : step (.apply (.closure f) vs line next) (u.within scope) =
            (.going (.sequence f.body (.callEnd scope next)),
              (u.child f.home (Frame.bindAll f.params vs)).within u.fresh) :=
          step_apply_closure hl line next (u.within scope)
        obtain ⟨r, z, hb, he⟩ := ih.sequence (hg.step hs) (he.step hs)
        refine ⟨_, z, .call h h' hl hb, ?_⟩
        rcases r with f | (_ | v)
        · exact he.step rfl
        · exact he.step rfl
        · exact he.step rfl
    · exact ⟨_, u, .arityMismatch h h' hv hl, he.step (step_apply_arity hv hl _ _ _)⟩

theorem Explained.evaluate_succ (ih : Explained n) {e : Expr} {next : Awaiting}
    (hg : (Machine.evaluate e next).Grounded (s.within scope))
    (he : Ends (n + 1) (.evaluate e next) (s.within scope) res) :
    ∃ r t, Evaluates scope e s r t ∧ Ends (n + 1) (settle r next) (t.within scope) res := by
  cases e with
  | literal value => exact ⟨_, s, .literal, (he.first rfl).weaken⟩
  | grouping inner =>
    obtain ⟨r, t, h, he⟩ := ih.evaluate (hg.step rfl) (he.first rfl)
    exact ⟨r, t, .grouping h, he.weaken⟩
  | unary op operand line =>
    obtain ⟨r, t, h, he⟩ := ih.evaluate (hg.step rfl) (he.first rfl)
    cases r with
    | error f => exact ⟨_, t, .unaryFault h, (he.step rfl).weaken⟩
    | ok v => exact ⟨_, t, .unary h (op.yields_apply v line), (he.step rfl).weaken⟩
  | binary left op right line =>
    have hg := hg.step rfl
    obtain ⟨r, t, h, he⟩ := ih.evaluate hg (he.first rfl)
    cases r with
    | error f => exact ⟨_, t, .leftFault h, (he.step rfl).weaken⟩
    | ok v =>
      have hg := (hg.leads (h.leads _ hg)).step rfl
      obtain ⟨r, u, h', he⟩ := ih.evaluate hg (he.step rfl)
      cases r with
      | error f => exact ⟨_, u, .rightFault h h', (he.step rfl).weaken⟩
      | ok w => exact ⟨_, u, .binary h h' (op.yields_apply v w line), (he.step rfl).weaken⟩
  | logical left op right line =>
    have hg := hg.step rfl
    obtain ⟨r, t, h, he⟩ := ih.evaluate hg (he.first rfl)
    cases r with
    | error f => exact ⟨_, t, .firstOperandFault h, (he.step rfl).weaken⟩
    | ok v =>
      rcases op.first_or_second v with hv | hv
      · have hs := step_decided (LogicalOp.decided_of_first hv) right next (t.within scope)
        exact ⟨_, t, .shortCircuit h hv, (he.step hs).weaken⟩
      · have hs := step_undecided (LogicalOp.decided_of_second hv) right next (t.within scope)
        obtain ⟨r, u, h', he⟩ := ih.evaluate ((hg.leads (h.leads _ hg)).step hs) (he.step hs)
        exact ⟨r, u, .secondOperand h hv h', he.weaken⟩
  | lookup name line =>
    by_cases hb : ∃ i v, s.store.Binds name scope i v
    · obtain ⟨i, v, hb⟩ := hb
      have he := he.first (step_lookup (Store.get_of_binds hg.ordered hb) next)
      exact ⟨.ok v, s, .lookup hb, he.weaken⟩
    · have hb : ∀ i v, ¬ s.store.Binds name scope i v := fun i v h => hb ⟨i, v, h⟩
      have he := he.first (step_lookup (Store.get_of_not_binds hg.ordered hb) next)
      exact ⟨_, s, .lookupUndefined hb, he.weaken⟩
  | assign name value line =>
    have hg := hg.step rfl
    obtain ⟨r, t, h, he⟩ := ih.evaluate hg (he.first rfl)
    cases r with
    | error f => exact ⟨_, t, .assignFault h, (he.step rfl).weaken⟩
    | ok v =>
      have hg := hg.leads (h.leads _ hg)
      by_cases hb : ∃ i old, t.store.Binds name scope i old
      · obtain ⟨i, old, hb⟩ := hb
        have hs := step_assigned (hb.resolve? hg.ordered) v line next
        exact ⟨.ok v, t.bind i name v, .assign h hb, (he.step hs).weaken⟩
      · have hb : ∀ i old, ¬ t.store.Binds name scope i old := fun i old h => hb ⟨i, old, h⟩
        have hr := (Store.resolve?_eq_none_iff hg.ordered).mpr hb
        exact ⟨_, t, .assignUndefined h hb,
          (he.step (step_assigned_undefined hr v line next)).weaken⟩
  | call callee args line =>
    have hg := hg.step rfl
    obtain ⟨r, t, h, he⟩ := ih.evaluate hg (he.first rfl)
    cases r with
    | error f => exact ⟨_, t, .calleeFault h, (he.step rfl).weaken⟩
    | ok v =>
      have hg := (hg.leads (h.leads _ hg)).step rfl
      obtain ⟨r, u, h', he⟩ := ih.arguments hg (he.step rfl)
      cases r with
      | error f => exact ⟨_, u, .argumentFault h h', he.weaken⟩
      | ok vs =>
        obtain ⟨r, z, hr, he⟩ := ih.apply h h' (hg.leads (h'.leads _ _ _ _ hg)) he
        exact ⟨r, z, hr, he.weaken⟩

theorem Explained.arguments_succ (ih : Explained n) {callee : Value} {done : List Value}
    {es : List Expr} {line : Nat} {next : Awaiting}
    (hg : (Machine.arguments callee done es line next).Grounded (s.within scope))
    (he : Ends (n + 1) (.arguments callee done es line next) (s.within scope) res) :
    ∃ r t, EvaluatesAll scope es s r t ∧
      Ends (n + 1) (gather callee done r line next) (t.within scope) res := by
  cases es with
  | nil =>
    refine ⟨.ok [], s, .nil, ?_⟩
    simpa [gather] using (he.first rfl).weaken
  | cons e es =>
    have hg := hg.step rfl
    obtain ⟨r, t, h, he⟩ := ih.evaluate hg (he.first rfl)
    cases r with
    | error f => exact ⟨_, t, .headFault h, (he.step rfl).weaken⟩
    | ok v =>
      have hg := (hg.leads (h.leads _ hg)).step rfl
      obtain ⟨r, u, h', he⟩ := ih.arguments hg (he.step rfl)
      cases r with
      | error f => exact ⟨_, u, .tailFault h h', he.weaken⟩
      | ok vs =>
        refine ⟨_, u, .cons h h', ?_⟩
        simpa [gather] using he.weaken

theorem Explained.sequence_succ (ih : Explained n) {body : List Stmt} {next : Remaining}
    (hg : (Machine.sequence body next).Grounded (s.within scope))
    (he : Ends (n + 1) (.sequence body next) (s.within scope) res) :
    ∃ r t, ExecutesAll scope body s r t ∧
      Ends (n + 1) (conclude r next) (t.within scope) res := by
  cases body with
  | nil => exact ⟨_, s, .nil, (he.first rfl).weaken⟩
  | cons stmt rest =>
    have hg := hg.step rfl
    obtain ⟨r, t, h, he⟩ := ih.execute hg (he.first rfl)
    rcases r with f | (_ | v)
    · exact ⟨_, t, .fault h, (he.step rfl).weaken⟩
    · obtain ⟨r, u, h', he⟩ := ih.sequence ((hg.leads (h.leads _ hg)).step rfl) (he.step rfl)
      exact ⟨r, u, .next h h', he.weaken⟩
    · exact ⟨_, t, .returned h, (he.step rfl).weaken⟩

theorem Explained.loop_succ (ih : Explained n) {condition : Expr} {body : Stmt}
    {next : Remaining}
    (hg : (Machine.evaluate condition (.condition condition body next)).Grounded (s.within scope))
    (he : Ends (n + 1) (.evaluate condition (.condition condition body next)) (s.within scope)
      res) :
    ∃ r t, Executes scope (.loop condition body) s r t ∧
      Ends (n + 1) (conclude r next) (t.within scope) res := by
  obtain ⟨r, t, h, he⟩ := ih.evaluate_succ hg he
  cases r with
  | error f => exact ⟨_, t, .conditionFault h, (he.first rfl).weaken⟩
  | ok v =>
    have hg := hg.leads (h.leads _ hg)
    cases hv : v.truthy with
    | false =>
      have hs := step_condition_end hv condition body next (t.within scope)
      exact ⟨_, t, .loopEnd h hv, (he.first hs).weaken⟩
    | true =>
      have hs := step_condition_round hv condition body next (t.within scope)
      have hg := hg.step hs
      obtain ⟨r, u, h', he⟩ := ih.execute hg (he.first hs)
      rcases r with f | (_ | w)
      · exact ⟨_, u, .loopFault h hv h', (he.step rfl).weaken⟩
      · obtain ⟨r, z, h'', he⟩ := ih.loop ((hg.leads (h'.leads _ hg)).step rfl) (he.step rfl)
        exact ⟨r, z, .loopRound h hv h' h'', he.weaken⟩
      · exact ⟨_, u, .loopReturn h hv h', (he.step rfl).weaken⟩

theorem Explained.execute_succ (ih : Explained n) {stmt : Stmt} {next : Remaining}
    (hg : (Machine.execute stmt next).Grounded (s.within scope))
    (he : Ends (n + 1) (.execute stmt next) (s.within scope) res) :
    ∃ r t, Executes scope stmt s r t ∧ Ends (n + 1) (conclude r next) (t.within scope) res := by
  cases stmt with
  | expression e =>
    obtain ⟨r, t, h, he⟩ := ih.evaluate (hg.step rfl) (he.first rfl)
    refine ⟨_, t, .expression h, ?_⟩
    cases r with
    | error f => exact (he.step rfl).weaken
    | ok v => exact (he.step rfl).weaken
  | output e =>
    obtain ⟨r, t, h, he⟩ := ih.evaluate (hg.step rfl) (he.first rfl)
    cases r with
    | error f => exact ⟨_, t, .outputFault h, (he.step rfl).weaken⟩
    | ok v => exact ⟨_, t.print v, .output h, (he.step rfl).weaken⟩
  | create name initial line =>
    cases initial with
    | none => exact ⟨_, s.bind scope name .nil, .createNil, (he.first rfl).weaken⟩
    | some e =>
      obtain ⟨r, t, h, he⟩ := ih.evaluate (hg.step rfl) (he.first rfl)
      cases r with
      | error f => exact ⟨_, t, .createFault h, (he.step rfl).weaken⟩
      | ok v => exact ⟨_, t.bind scope name v, .create h, (he.step rfl).weaken⟩
  | block body =>
    have hs : step (.execute (.block body) next) (s.within scope) =
        (.going (.sequence body (.blockEnd scope next)), (s.child scope []).within s.fresh) := rfl
    obtain ⟨r, t, h, he⟩ := ih.sequence (hg.step hs) (he.first hs)
    refine ⟨r, t, .block h, ?_⟩
    rcases r with f | (_ | v)
    · exact (he.step rfl).weaken
    · exact (he.step rfl).weaken
    · exact (he.step rfl).weaken
  | ifThen condition yes =>
    have hg := hg.step rfl
    obtain ⟨r, t, h, he⟩ := ih.evaluate hg (he.first rfl)
    cases r with
    | error f => exact ⟨_, t, .thenFault h, (he.step rfl).weaken⟩
    | ok v =>
      cases hv : v.truthy with
      | false =>
        have hs := step_thenBranch_skipped hv yes next (t.within scope)
        exact ⟨_, t, .thenSkipped h hv, (he.step hs).weaken⟩
      | true =>
        have hs := step_thenBranch_taken hv yes next (t.within scope)
        obtain ⟨r, u, h', he⟩ := ih.execute ((hg.leads (h.leads _ hg)).step hs) (he.step hs)
        exact ⟨r, u, .thenTaken h hv h', he.weaken⟩
  | ifElse condition yes no =>
    have hg := hg.step rfl
    obtain ⟨r, t, h, he⟩ := ih.evaluate hg (he.first rfl)
    cases r with
    | error f => exact ⟨_, t, .branchFault h, (he.step rfl).weaken⟩
    | ok v =>
      obtain ⟨r, u, h', he⟩ := ih.execute ((hg.leads (h.leads _ hg)).step rfl) (he.step rfl)
      exact ⟨r, u, .branch h h', he.weaken⟩
  | loop condition body =>
    obtain ⟨r, t, h, he⟩ := ih.loop (hg.step rfl) (he.first rfl)
    exact ⟨r, t, h, he.weaken⟩
  | function name params body line =>
    exact ⟨_, s.declare scope name params body, .function, (he.first rfl).weaken⟩
  | giveBack value line =>
    cases value with
    | none => exact ⟨_, s, .giveBackNil, (he.first rfl).weaken⟩
    | some e =>
      obtain ⟨r, t, h, he⟩ := ih.evaluate (hg.step rfl) (he.first rfl)
      refine ⟨_, t, .giveBack h, ?_⟩
      cases r with
      | error f => exact (he.step rfl).weaken
      | ok v => exact (he.step rfl).weaken

/-- Every run that ends follows derivations, by induction on its length. -/
theorem explained (n : Nat) : Explained n := by
  induction n with
  | zero =>
    have none {m : Machine} {w : World} {res : Outcome × World} (he : Ends 0 m w res) : False := by
      obtain ⟨k, hk, -⟩ := he
      omega
    exact ⟨fun _ he => (none he).elim, fun _ he => (none he).elim, fun _ he => (none he).elim,
      fun _ he => (none he).elim, fun _ he => (none he).elim⟩
  | succ n ih =>
    exact ⟨ih.evaluate_succ, ih.arguments_succ, ih.execute_succ, ih.sequence_succ, ih.loop_succ⟩

end ClosureLang
