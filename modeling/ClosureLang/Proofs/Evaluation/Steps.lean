import ClosureLang.Proofs.Evaluation.Rules
import ClosureLang.Proofs.Frames.Grounded

namespace ClosureLang

namespace Machine

/-- Goes on after a statement that ended with a signal or a fault. -/
def conclude (r : Except Fault Signal) (next : Remaining) : Machine :=
  match r with
  | .ok s => .finish s next
  | .error f => .abort f next

/-- Goes on with the values of the last arguments of a call, or with a fault. -/
def gather (callee : Value) (done : List Value) (r : Except Fault (List Value)) (line : Nat)
    (next : Awaiting) : Machine :=
  match r with
  | .ok vs => .apply callee (done.reverse ++ vs) line next
  | .error f => .raise f next

end Machine

open Machine

theorem LogicalOp.decided_of_first {op : LogicalOp} {v : Value} (h : v.truthy = (op == .or)) :
    op.decided v = true := by
  cases op <;> simp [LogicalOp.decided, h]

theorem LogicalOp.decided_of_second {op : LogicalOp} {v : Value} (h : v.truthy = (op == .and)) :
    op.decided v = false := by
  cases op <;> simp [LogicalOp.decided, h]

namespace Machine

theorem execute_ne_conclude (s : Stmt) (r : Except Fault Signal) (next next' : Remaining) :
    execute s next ≠ conclude r next' := by
  cases r <;> simp [conclude]

/-- The end of a call turns the signal of its body into a value and restores the frame of the
caller, also for a fault. -/
theorem conclude_callEnd (r : Except Fault Signal) (t : State) (inner scope : FrameId)
    (next : Awaiting) :
    Leads (conclude r (.callEnd scope next)) (t.within inner) (settle (r.map Signal.result) next)
      (t.within scope) := by
  rcases r with f | (_ | v)
  · exact .single rfl
  · exact .single rfl
  · exact .single rfl

/-- The end of a block restores the frame around it, whatever signal or fault passes. -/
theorem conclude_blockEnd (r : Except Fault Signal) (t : State) (inner scope : FrameId)
    (next : Remaining) :
    Leads (conclude r (.blockEnd scope next)) (t.within inner) (conclude r next)
      (t.within scope) := by
  rcases r with f | (_ | v)
  · exact .single rfl
  · exact .single rfl
  · exact .single rfl

theorem settle_discarded (r : Except Fault Value) (next : Remaining) (w : World) :
    Leads (settle r (.discarded next)) w (conclude (r.map fun _ => .normal) next) w := by
  cases r with
  | ok v => exact .single rfl
  | error f => exact .single rfl

theorem settle_given (r : Except Fault Value) (next : Remaining) (w : World) :
    Leads (settle r (.given next)) w (conclude (r.map .returned) next) w := by
  cases r with
  | ok v => exact .single rfl
  | error f => exact .single rfl

attribute [local simp] step stepEvaluate stepApply stepGive going

theorem step_decided {op : LogicalOp} {v : Value} (h : op.decided v = true) (right : Expr)
    (next : Awaiting) (w : World) :
    step (.give v (.decision op right next)) w = (.going (.give v next), w) := by
  simp [h]

theorem step_undecided {op : LogicalOp} {v : Value} (h : op.decided v = false) (right : Expr)
    (next : Awaiting) (w : World) :
    step (.give v (.decision op right next)) w = (.going (.evaluate right next), w) := by
  simp [h]

theorem step_lookup {w : World} {name : String} {line : Nat} {r : Except Fault Value}
    (h : w.store.get w.scope name line = r) (next : Awaiting) :
    step (.evaluate (.lookup name line) next) w = (.going (settle r next), w) := by
  simp [h]

theorem step_assigned {w : World} {name : String} {i : FrameId}
    (h : w.store.resolve? name w.scope = some i) (v : Value) (line : Nat) (next : Awaiting) :
    step (.give v (.assigned name line next)) w = (.going (.give v next), w.bindAt i name v) := by
  simp [h]

theorem step_assigned_undefined {w : World} {name : String}
    (h : w.store.resolve? name w.scope = none) (v : Value) (line : Nat) (next : Awaiting) :
    step (.give v (.assigned name line next)) w =
      (.going (.raise (.undefinedVariable name line) next), w) := by
  simp [h]

theorem step_thenBranch_taken {v : Value} (h : v.truthy = true) (yes : Stmt) (next : Remaining)
    (w : World) :
    step (.give v (.thenBranch yes next)) w = (.going (.execute yes next), w) := by
  simp [h]

theorem step_thenBranch_skipped {v : Value} (h : v.truthy = false) (yes : Stmt)
    (next : Remaining) (w : World) :
    step (.give v (.thenBranch yes next)) w = (.going (.finish .normal next), w) := by
  simp [h]

theorem step_condition_round {v : Value} (h : v.truthy = true) (condition : Expr) (body : Stmt)
    (next : Remaining) (w : World) :
    step (.give v (.condition condition body next)) w =
      (.going (.execute body (.round condition body next)), w) := by
  simp [h]

theorem step_condition_end {v : Value} (h : v.truthy = false) (condition : Expr) (body : Stmt)
    (next : Remaining) (w : World) :
    step (.give v (.condition condition body next)) w = (.going (.finish .normal next), w) := by
  simp [h]

/-- A call with the right number of arguments runs the body in a new frame inside the frame of the
declaration. -/
theorem step_apply_closure {f : Closure} {vs : List Value} (h : vs.length = f.params.length)
    (line : Nat) (next : Awaiting) (w : World) :
    step (.apply (.closure f) vs line next) w =
      (.going (.sequence f.body (.callEnd w.scope next)),
        w.push f.home (Frame.bindAll f.params vs)) := by
  simp [enter, h]

theorem step_apply_native {f : Native} {vs : List Value} (h : vs.length = f.arity)
    (line : Nat) (next : Awaiting) (w : World) :
    step (.apply (.native f) vs line next) w = (.going (settle (f.apply vs line) next), w) := by
  simp [h]

theorem step_apply_not_callable {v : Value} (h : v.signature? = none) (vs : List Value)
    (line : Nat) (next : Awaiting) (w : World) :
    step (.apply v vs line next) w = (.going (.raise (.notCallable line) next), w) := by
  cases v with
  | closure f => simp [Value.signature?] at h
  | native f => simp [Value.signature?] at h
  | nil | bool | number | text => rfl

theorem step_apply_arity {v : Value} {name : String} {arity : Nat}
    (h : v.signature? = some (name, arity)) {vs : List Value} (hne : vs.length ≠ arity)
    (line : Nat) (next : Awaiting) (w : World) :
    step (.apply v vs line next) w =
      (.going (.raise (.arityMismatch arity vs.length line) next), w) := by
  cases v with
  | closure f =>
    cases Option.some.inj h
    simp [hne]
  | native f =>
    cases Option.some.inj h
    simp [hne]
  | nil | bool | number | text => simp [Value.signature?] at h

end Machine

end ClosureLang
