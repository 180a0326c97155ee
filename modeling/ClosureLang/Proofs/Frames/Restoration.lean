import ClosureLang.Proofs.Evaluation.Runs

namespace ClosureLang

mutual

/-- The frame that is current once everything that waits for a value is done. -/
def Awaiting.base (scope : FrameId) : Awaiting → FrameId
  | .outcome => scope
  | .operand _ _ next | .left _ _ _ next | .right _ _ _ next | .decision _ _ next
  | .assigned _ _ next | .callee _ _ next | .argument _ _ _ _ next => next.base scope
  | .discarded next | .printed next | .initial _ next | .thenBranch _ next
  | .branches _ _ next | .condition _ _ next | .given next => next.base scope

/-- The frame that is current once everything that is left to do is done. -/
def Remaining.base (scope : FrameId) : Remaining → FrameId
  | .outcome => scope
  | .statements _ next | .round _ _ next => next.base scope
  | .blockEnd outer next => next.base outer
  | .callEnd outer next => next.base outer

end

def Machine.base (scope : FrameId) : Machine → FrameId
  | .evaluate _ next | .arguments _ _ _ _ next | .apply _ _ _ next | .give _ next
  | .raise _ next => next.base scope
  | .execute _ next | .sequence _ next | .finish _ next | .abort _ next => next.base scope

def Progress.base (scope : FrameId) : Progress → FrameId
  | .ended _ => scope
  | .going m => m.base scope

namespace Machine

theorem base_settle (r : Except Fault Value) (next : Awaiting) (scope : FrameId) :
    (settle r next).base scope = next.base scope := by
  cases r with
  | ok v => rfl
  | error f => rfl

theorem stepEvaluate_base (e : Expr) (next : Awaiting) (w : World) :
    (stepEvaluate e next w).1.base (stepEvaluate e next w).2.scope = next.base w.scope := by
  cases e with
  | lookup name line => exact base_settle _ next w.scope
  | literal | grouping | unary | binary | logical | assign | call => rfl

theorem stepApply_base (callee : Value) (args : List Value) (line : Nat) (next : Awaiting)
    (w : World) :
    (stepApply callee args line next w).1.base (stepApply callee args line next w).2.scope =
      next.base w.scope := by
  cases callee with
  | closure f =>
    simp only [stepApply]
    split
    next => rfl
    next => rfl
  | native f =>
    simp only [stepApply]
    split
    next => exact base_settle _ next w.scope
    next => rfl
  | nil | bool | number | text => rfl

theorem stepGive_base (v : Value) (next : Awaiting) (w : World) :
    (stepGive v next w).1.base (stepGive v next w).2.scope = next.base w.scope := by
  cases next with
  | operand op line next => exact base_settle _ next w.scope
  | right left op line next => exact base_settle _ next w.scope
  | decision op right next =>
    simp only [stepGive]
    split <;> rfl
  | assigned name line next =>
    simp only [stepGive]
    split <;> rfl
  | thenBranch yes next =>
    simp only [stepGive]
    split <;> rfl
  | condition condition body next =>
    simp only [stepGive]
    split <;> rfl
  | outcome | left | callee | argument | discarded | printed | initial | branches | given => rfl

theorem stepRaise_base (f : Fault) (next : Awaiting) (w : World) :
    (stepRaise f next w).1.base (stepRaise f next w).2.scope = next.base w.scope := by
  cases next <;> rfl

theorem stepExecute_base (s : Stmt) (next : Remaining) (w : World) :
    (stepExecute s next w).1.base (stepExecute s next w).2.scope = next.base w.scope := by
  cases s with
  | create name initial line => cases initial <;> rfl
  | giveBack value line => cases value <;> rfl
  | expression | output | block | ifThen | ifElse | loop | function => rfl

theorem stepFinish_base (s : Signal) (next : Remaining) (w : World) :
    (stepFinish s next w).1.base (stepFinish s next w).2.scope = next.base w.scope := by
  cases s <;> cases next <;> rfl

theorem stepAbort_base (f : Fault) (next : Remaining) (w : World) :
    (stepAbort f next w).1.base (stepAbort f next w).2.scope = next.base w.scope := by
  cases next <;> rfl

/-- No step changes the frame that is current at the end. -/
theorem step_base (m : Machine) (w : World) :
    (step m w).1.base (step m w).2.scope = m.base w.scope := by
  cases m with
  | evaluate e next => exact stepEvaluate_base e next w
  | arguments callee done rest line next => cases rest <;> rfl
  | apply callee args line next => exact stepApply_base callee args line next w
  | give v next => exact stepGive_base v next w
  | raise f next => exact stepRaise_base f next w
  | execute s next => exact stepExecute_base s next w
  | sequence body next => cases body <;> rfl
  | finish s next => exact stepFinish_base s next w
  | abort f next => exact stepAbort_base f next w

/-- The frame that is current at the end of a run can be read off what is left to do at its
start. -/
theorem run_base {n : Nat} {m : Machine} {w w' : World} {o : Outcome}
    (h : run n m w = some (o, w')) : w'.scope = m.base w.scope := by
  induction n generalizing m w with
  | zero => simp [run] at h
  | succ n ih =>
    have hb := step_base m w
    rcases run_succ_cases h with hs | ⟨m₁, w₁, hs, hr⟩
    · rw [hs] at hb
      exact hb
    · rw [hs] at hb
      exact (ih hr).trans hb

end Machine

theorem World.call_scope {n : Nat} {callee : Value} {args : List Value} {line : Nat}
    {w w' : World} {o : Outcome} (h : w.call n callee args line = some (o, w')) :
    w'.scope = w.scope := by
  cases callee with
  | closure f => exact Machine.run_base h
  | native f => exact (Machine.run_base h).trans (Machine.base_settle _ _ _)
  | nil | bool | number | text => exact Machine.run_base h

/-- A program restores the current frame, however it ends. -/
theorem World.interpret_scope {n : Nat} {program : List Stmt} {w w' : World}
    {r : Except Fault Unit} (h : w.interpret n program = some (r, w')) : w'.scope = w.scope := by
  induction program generalizing w with
  | nil =>
    cases Option.some.inj h
    rfl
  | cons s rest ih =>
    simp only [World.interpret] at h
    split at h
    next => simp at h
    next f w₁ he =>
      cases Option.some.inj h
      exact Machine.run_base he
    next o w₁ _ he =>
      have hs : w₁.scope = w.scope := Machine.run_base he
      exact (ih h).trans hs

/-- What can be done in a world. -/
inductive Task where
  | evaluate (e : Expr)
  | decide (left : Expr) (op : LogicalOp) (right : Expr)
  | execute (s : Stmt)
  /-- Statements up to the first that returns or fails. -/
  | sequence (body : List Stmt)
  /-- Such statements in a frame of their own. -/
  | block (body : List Stmt) (scope : FrameId)
  | call (callee : Value) (args : List Value) (line : Nat)
  | interpret (program : List Stmt)

/-- The task, begun in `w`, ends in `w'`; the outcome may be a value, a signal or a fault. -/
def Task.Ends (w w' : World) : Task → Prop
  | .evaluate e => ∃ n o, w.evaluate n e = some (o, w')
  | .decide left op right => ∃ n o, w.decideLogical n left op right = some (o, w')
  | .execute s => ∃ n o, w.execute n s = some (o, w')
  | .sequence body => ∃ n o, (Machine.sequence body .outcome).run n w = some (o, w')
  | .block body scope =>
    ∃ n o, (Machine.sequence body (.blockEnd w.scope .outcome)).run n (w.within scope) =
      some (o, w')
  | .call callee args line => ∃ n o, w.call n callee args line = some (o, w')
  | .interpret program => ∃ n r, w.interpret n program = some (r, w')

theorem Task.Ends.scope {task : Task} {w w' : World} (h : task.Ends w w') :
    w'.scope = w.scope := by
  cases task with
  | call callee args line =>
    obtain ⟨n, o, h⟩ := h
    exact World.call_scope h
  | interpret program =>
    obtain ⟨n, r, h⟩ := h
    exact World.interpret_scope h
  | evaluate | decide | execute | sequence | block =>
    obtain ⟨n, o, h⟩ := h
    exact Machine.run_base h

/-- However a task ends, the frame that was current before it is current after it; so after any
tasks, failed or not, a session that began in the global frame is in the global frame. -/
theorem tasks_restore_scope :
    (∀ (task : Task) (w w' : World), task.Ends w w' → w'.scope = w.scope) ∧
    ∀ w, Relation.ReflTransGen (fun w w' => ∃ task : Task, task.Ends w w') World.initial w →
      w.scope = World.initial.scope := by
  refine ⟨fun task w w' h => h.scope, ?_⟩
  intro w h
  induction h with
  | refl => rfl
  | tail _ ht ih =>
    obtain ⟨task, ht⟩ := ht
    exact ht.scope.trans ih

/-- The function `func f() { { output missing; } }`. -/
def failing : Stmt :=
  .function "f" [] [.block [.output (.lookup "missing" 1)]] 1

/-- A fault in a block in a call, after which the global frame is current. -/
theorem tasks_restore_scope_failing :
    ∃ w w', (Task.execute failing).Ends World.initial w ∧
      w.evaluate 40 (.call (.lookup "f" 1) [] 1) =
        some (.fault (.undefinedVariable "missing" 1), w') ∧
      w'.scope = World.initial.scope := by
  have hdeclare : ∃ w, World.initial.execute 9 failing = some (.signal .normal, w) ∧
      ∃ w', w.evaluate 40 (.call (.lookup "f" 1) [] 1) =
        some (.fault (.undefinedVariable "missing" 1), w') :=
    ⟨_, rfl, _, by with_unfolding_all rfl⟩
  obtain ⟨w, hw, w', hcall⟩ := hdeclare
  have hfirst : (Task.execute failing).Ends World.initial w := ⟨9, _, hw⟩
  have hsecond : (Task.evaluate (.call (.lookup "f" 1) [] 1)).Ends w w' := ⟨40, _, hcall⟩
  exact ⟨w, w', hfirst, hcall,
    tasks_restore_scope.2 w' (.tail (.single ⟨_, hfirst⟩) ⟨_, hsecond⟩)⟩

end ClosureLang
