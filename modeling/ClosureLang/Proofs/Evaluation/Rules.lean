import ClosureLang.Machine
import ClosureLang.Proofs.Evaluation.Binding
import ClosureLang.Proofs.Evaluation.Operators

namespace ClosureLang

/-- What a run changes: the frames and the printed text. -/
structure State where
  store : Store
  output : Output

namespace State

/-- The state with frame `scope` as the current one. -/
def within (s : State) (scope : FrameId) : World :=
  ⟨s.store, scope, s.output⟩

def bind (s : State) (i : FrameId) (name : String) (v : Value) : State :=
  { s with store := s.store.define i name v }

def print (s : State) (v : Value) : State :=
  { s with output := s.output.println v.display }

/-- The number of the frame that is created next. -/
def fresh (s : State) : FrameId :=
  s.store.frames.size

/-- Creates the frame `s.fresh` inside frame `enclosing`. -/
def child (s : State) (enclosing : FrameId) (bindings : List (String × Value)) : State :=
  { s with store := s.store.push (some enclosing) bindings }

/-- Binds a new function, declared in frame `scope`, in that frame. -/
def declare (s : State) (scope : FrameId) (name : String) (params : List String)
    (body : List Stmt) : State :=
  { s with
    store :=
      (s.store.declare name params body scope).2.define scope name
        (.closure (s.store.declare name params body scope).1) }

end State

/-- The frames and the printed text of a world. -/
def World.state (w : World) : State :=
  ⟨w.store, w.output⟩

/-- What a call gives when the body ended with a signal: the returned value, or nil. -/
def Signal.result : Signal → Value
  | .normal => .nil
  | .returned v => v

mutual

/-- The expression, evaluated in a frame and a state, gives a value or a fault and a state. Whether
a callee can be called, and with how many arguments, is asked when all arguments are there. -/
inductive Evaluates : FrameId → Expr → State → Except Fault Value → State → Prop where
  | literal {scope : FrameId} {value : Literal} {s : State} :
      Evaluates scope (.literal value) s (.ok (.ofLiteral value)) s
  | grouping {scope : FrameId} {e : Expr} {s t : State} {r : Except Fault Value} :
      Evaluates scope e s r t → Evaluates scope (.grouping e) s r t
  | unary {scope : FrameId} {op : UnaryOp} {e : Expr} {line : Nat} {s t : State} {v : Value}
      {r : Except Fault Value} :
      Evaluates scope e s (.ok v) t → op.Yields v line r →
      Evaluates scope (.unary op e line) s r t
  | unaryFault {scope : FrameId} {op : UnaryOp} {e : Expr} {line : Nat} {s t : State} {f : Fault} :
      Evaluates scope e s (.error f) t → Evaluates scope (.unary op e line) s (.error f) t
  | binary {scope : FrameId} {left right : Expr} {op : BinaryOp} {line : Nat} {s t u : State}
      {v w : Value} {r : Except Fault Value} :
      Evaluates scope left s (.ok v) t → Evaluates scope right t (.ok w) u →
      op.Yields v w line r → Evaluates scope (.binary left op right line) s r u
  | leftFault {scope : FrameId} {left right : Expr} {op : BinaryOp} {line : Nat} {s t : State}
      {f : Fault} :
      Evaluates scope left s (.error f) t →
      Evaluates scope (.binary left op right line) s (.error f) t
  | rightFault {scope : FrameId} {left right : Expr} {op : BinaryOp} {line : Nat}
      {s t u : State} {v : Value} {f : Fault} :
      Evaluates scope left s (.ok v) t → Evaluates scope right t (.error f) u →
      Evaluates scope (.binary left op right line) s (.error f) u
  | shortCircuit {scope : FrameId} {left right : Expr} {op : LogicalOp} {line : Nat}
      {s t : State} {v : Value} :
      Evaluates scope left s (.ok v) t → v.truthy = (op == .or) →
      Evaluates scope (.logical left op right line) s (.ok v) t
  | secondOperand {scope : FrameId} {left right : Expr} {op : LogicalOp} {line : Nat}
      {s t u : State} {v : Value} {r : Except Fault Value} :
      Evaluates scope left s (.ok v) t → v.truthy = (op == .and) → Evaluates scope right t r u →
      Evaluates scope (.logical left op right line) s r u
  | firstOperandFault {scope : FrameId} {left right : Expr} {op : LogicalOp} {line : Nat}
      {s t : State} {f : Fault} :
      Evaluates scope left s (.error f) t →
      Evaluates scope (.logical left op right line) s (.error f) t
  | lookup {scope i : FrameId} {name : String} {line : Nat} {s : State} {v : Value} :
      s.store.Binds name scope i v → Evaluates scope (.lookup name line) s (.ok v) s
  | lookupUndefined {scope : FrameId} {name : String} {line : Nat} {s : State} :
      (∀ i v, ¬ s.store.Binds name scope i v) →
      Evaluates scope (.lookup name line) s (.error (.undefinedVariable name line)) s
  | assign {scope i : FrameId} {name : String} {e : Expr} {line : Nat} {s t : State}
      {v old : Value} :
      Evaluates scope e s (.ok v) t → t.store.Binds name scope i old →
      Evaluates scope (.assign name e line) s (.ok v) (t.bind i name v)
  | assignUndefined {scope : FrameId} {name : String} {e : Expr} {line : Nat} {s t : State}
      {v : Value} :
      Evaluates scope e s (.ok v) t → (∀ i old, ¬ t.store.Binds name scope i old) →
      Evaluates scope (.assign name e line) s (.error (.undefinedVariable name line)) t
  | assignFault {scope : FrameId} {name : String} {e : Expr} {line : Nat} {s t : State}
      {f : Fault} :
      Evaluates scope e s (.error f) t → Evaluates scope (.assign name e line) s (.error f) t
  | calleeFault {scope : FrameId} {callee : Expr} {args : List Expr} {line : Nat} {s t : State}
      {f : Fault} :
      Evaluates scope callee s (.error f) t →
      Evaluates scope (.call callee args line) s (.error f) t
  | argumentFault {scope : FrameId} {callee : Expr} {args : List Expr} {line : Nat}
      {s t u : State} {v : Value} {f : Fault} :
      Evaluates scope callee s (.ok v) t → EvaluatesAll scope args t (.error f) u →
      Evaluates scope (.call callee args line) s (.error f) u
  | notCallable {scope : FrameId} {callee : Expr} {args : List Expr} {line : Nat}
      {s t u : State} {v : Value} {vs : List Value} :
      Evaluates scope callee s (.ok v) t → EvaluatesAll scope args t (.ok vs) u →
      v.signature? = none →
      Evaluates scope (.call callee args line) s (.error (.notCallable line)) u
  | arityMismatch {scope : FrameId} {callee : Expr} {args : List Expr} {line : Nat}
      {s t u : State} {v : Value} {vs : List Value} {name : String} {arity : Nat} :
      Evaluates scope callee s (.ok v) t → EvaluatesAll scope args t (.ok vs) u →
      v.signature? = some (name, arity) → vs.length ≠ arity →
      Evaluates scope (.call callee args line) s (.error (.arityMismatch arity vs.length line)) u
  | native {scope : FrameId} {callee : Expr} {args : List Expr} {line : Nat} {s t u : State}
      {f : Native} {vs : List Value} {r : Except Fault Value} :
      Evaluates scope callee s (.ok (.native f)) t → EvaluatesAll scope args t (.ok vs) u →
      vs.length = f.arity → f.Yields vs line r → Evaluates scope (.call callee args line) s r u
  | call {scope : FrameId} {callee : Expr} {args : List Expr} {line : Nat} {s t u z : State}
      {f : Closure} {vs : List Value} {r : Except Fault Signal} :
      Evaluates scope callee s (.ok (.closure f)) t → EvaluatesAll scope args t (.ok vs) u →
      vs.length = f.params.length →
      ExecutesAll u.fresh f.body (u.child f.home (Frame.bindAll f.params vs)) r z →
      Evaluates scope (.call callee args line) s (r.map Signal.result) z

/-- The expressions, evaluated one after the other, give their values or the first fault. -/
inductive EvaluatesAll :
    FrameId → List Expr → State → Except Fault (List Value) → State → Prop where
  | nil {scope : FrameId} {s : State} : EvaluatesAll scope [] s (.ok []) s
  | cons {scope : FrameId} {e : Expr} {es : List Expr} {s t u : State} {v : Value}
      {vs : List Value} :
      Evaluates scope e s (.ok v) t → EvaluatesAll scope es t (.ok vs) u →
      EvaluatesAll scope (e :: es) s (.ok (v :: vs)) u
  | headFault {scope : FrameId} {e : Expr} {es : List Expr} {s t : State} {f : Fault} :
      Evaluates scope e s (.error f) t → EvaluatesAll scope (e :: es) s (.error f) t
  | tailFault {scope : FrameId} {e : Expr} {es : List Expr} {s t u : State} {v : Value}
      {f : Fault} :
      Evaluates scope e s (.ok v) t → EvaluatesAll scope es t (.error f) u →
      EvaluatesAll scope (e :: es) s (.error f) u

/-- The statement, executed in a frame and a state, gives a signal or a fault and a state. -/
inductive Executes : FrameId → Stmt → State → Except Fault Signal → State → Prop where
  | expression {scope : FrameId} {e : Expr} {s t : State} {r : Except Fault Value} :
      Evaluates scope e s r t → Executes scope (.expression e) s (r.map fun _ => .normal) t
  | output {scope : FrameId} {e : Expr} {s t : State} {v : Value} :
      Evaluates scope e s (.ok v) t → Executes scope (.output e) s (.ok .normal) (t.print v)
  | outputFault {scope : FrameId} {e : Expr} {s t : State} {f : Fault} :
      Evaluates scope e s (.error f) t → Executes scope (.output e) s (.error f) t
  | create {scope : FrameId} {name : String} {e : Expr} {line : Nat} {s t : State} {v : Value} :
      Evaluates scope e s (.ok v) t →
      Executes scope (.create name (some e) line) s (.ok .normal) (t.bind scope name v)
  | createFault {scope : FrameId} {name : String} {e : Expr} {line : Nat} {s t : State}
      {f : Fault} :
      Evaluates scope e s (.error f) t →
      Executes scope (.create name (some e) line) s (.error f) t
  | createNil {scope : FrameId} {name : String} {line : Nat} {s : State} :
      Executes scope (.create name none line) s (.ok .normal) (s.bind scope name .nil)
  | block {scope : FrameId} {body : List Stmt} {s t : State} {r : Except Fault Signal} :
      ExecutesAll s.fresh body (s.child scope []) r t → Executes scope (.block body) s r t
  | thenTaken {scope : FrameId} {condition : Expr} {yes : Stmt} {s t u : State} {v : Value}
      {r : Except Fault Signal} :
      Evaluates scope condition s (.ok v) t → v.truthy = true → Executes scope yes t r u →
      Executes scope (.ifThen condition yes) s r u
  | thenSkipped {scope : FrameId} {condition : Expr} {yes : Stmt} {s t : State} {v : Value} :
      Evaluates scope condition s (.ok v) t → v.truthy = false →
      Executes scope (.ifThen condition yes) s (.ok .normal) t
  | thenFault {scope : FrameId} {condition : Expr} {yes : Stmt} {s t : State} {f : Fault} :
      Evaluates scope condition s (.error f) t →
      Executes scope (.ifThen condition yes) s (.error f) t
  | branch {scope : FrameId} {condition : Expr} {yes no : Stmt} {s t u : State} {v : Value}
      {r : Except Fault Signal} :
      Evaluates scope condition s (.ok v) t →
      Executes scope (if v.truthy then yes else no) t r u →
      Executes scope (.ifElse condition yes no) s r u
  | branchFault {scope : FrameId} {condition : Expr} {yes no : Stmt} {s t : State} {f : Fault} :
      Evaluates scope condition s (.error f) t →
      Executes scope (.ifElse condition yes no) s (.error f) t
  | loopEnd {scope : FrameId} {condition : Expr} {body : Stmt} {s t : State} {v : Value} :
      Evaluates scope condition s (.ok v) t → v.truthy = false →
      Executes scope (.loop condition body) s (.ok .normal) t
  | loopRound {scope : FrameId} {condition : Expr} {body : Stmt} {s t u z : State} {v : Value}
      {r : Except Fault Signal} :
      Evaluates scope condition s (.ok v) t → v.truthy = true →
      Executes scope body t (.ok .normal) u → Executes scope (.loop condition body) u r z →
      Executes scope (.loop condition body) s r z
  | loopReturn {scope : FrameId} {condition : Expr} {body : Stmt} {s t u : State} {v w : Value} :
      Evaluates scope condition s (.ok v) t → v.truthy = true →
      Executes scope body t (.ok (.returned w)) u →
      Executes scope (.loop condition body) s (.ok (.returned w)) u
  | loopFault {scope : FrameId} {condition : Expr} {body : Stmt} {s t u : State} {v : Value}
      {f : Fault} :
      Evaluates scope condition s (.ok v) t → v.truthy = true →
      Executes scope body t (.error f) u → Executes scope (.loop condition body) s (.error f) u
  | conditionFault {scope : FrameId} {condition : Expr} {body : Stmt} {s t : State} {f : Fault} :
      Evaluates scope condition s (.error f) t →
      Executes scope (.loop condition body) s (.error f) t
  | function {scope : FrameId} {name : String} {params : List String} {body : List Stmt}
      {line : Nat} {s : State} :
      Executes scope (.function name params body line) s (.ok .normal)
        (s.declare scope name params body)
  | giveBack {scope : FrameId} {e : Expr} {line : Nat} {s t : State} {r : Except Fault Value} :
      Evaluates scope e s r t → Executes scope (.giveBack (some e) line) s (r.map .returned) t
  | giveBackNil {scope : FrameId} {line : Nat} {s : State} :
      Executes scope (.giveBack none line) s (.ok (.returned .nil)) s

/-- The statements, executed in order up to the first that returns or fails. -/
inductive ExecutesAll : FrameId → List Stmt → State → Except Fault Signal → State → Prop where
  | nil {scope : FrameId} {s : State} : ExecutesAll scope [] s (.ok .normal) s
  | next {scope : FrameId} {stmt : Stmt} {rest : List Stmt} {s t u : State}
      {r : Except Fault Signal} :
      Executes scope stmt s (.ok .normal) t → ExecutesAll scope rest t r u →
      ExecutesAll scope (stmt :: rest) s r u
  | returned {scope : FrameId} {stmt : Stmt} {rest : List Stmt} {s t : State} {v : Value} :
      Executes scope stmt s (.ok (.returned v)) t →
      ExecutesAll scope (stmt :: rest) s (.ok (.returned v)) t
  | fault {scope : FrameId} {stmt : Stmt} {rest : List Stmt} {s t : State} {f : Fault} :
      Executes scope stmt s (.error f) t → ExecutesAll scope (stmt :: rest) s (.error f) t

end

/-- The first statement stops the run, or the others decide how it ends. -/
theorem executesAll_cons_iff {scope : FrameId} {stmt : Stmt} {rest : List Stmt} {s t : State}
    {r : Except Fault Signal} :
    ExecutesAll scope (stmt :: rest) s r t ↔
      (Executes scope stmt s r t ∧ r ≠ .ok .normal) ∨
        ∃ u, Executes scope stmt s (.ok .normal) u ∧ ExecutesAll scope rest u r t := by
  constructor
  · intro h
    cases h with
    | returned h => exact .inl ⟨h, nofun⟩
    | fault h => exact .inl ⟨h, nofun⟩
    | next h hrest => exact .inr ⟨_, h, hrest⟩
  · rintro (⟨h, hr⟩ | ⟨u, h, hrest⟩)
    · match r, hr, h with
      | .ok (.returned v), _, h => exact .returned h
      | .error f, _, h => exact .fault h
      | .ok .normal, hr, _ => exact absurd rfl hr
    · exact .next h hrest

end ClosureLang
