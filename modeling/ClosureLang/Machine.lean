import ClosureLang.Value.Operators
import ClosureLang.World

namespace ClosureLang

/-- How a statement ends if there is no fault. -/
inductive Signal where
  | normal
  | returned (v : Value)

/-- How a run ends. -/
inductive Outcome where
  | value (v : Value)
  | signal (s : Signal)
  | fault (f : Fault)

mutual

/-- What waits for the value of an expression. -/
inductive Awaiting where
  /-- The value is the outcome of the run. -/
  | outcome
  | operand (op : UnaryOp) (line : Nat) (next : Awaiting)
  | left (op : BinaryOp) (right : Expr) (line : Nat) (next : Awaiting)
  | right (left : Value) (op : BinaryOp) (line : Nat) (next : Awaiting)
  | decision (op : LogicalOp) (right : Expr) (next : Awaiting)
  | assigned (name : String) (line : Nat) (next : Awaiting)
  | callee (arguments : List Expr) (line : Nat) (next : Awaiting)
  /-- An argument of a call, with the arguments before it last first and those after it. -/
  | argument (callee : Value) (done : List Value) (rest : List Expr) (line : Nat) (next : Awaiting)
  | discarded (next : Remaining)
  | printed (next : Remaining)
  | initial (name : String) (next : Remaining)
  | thenBranch (yes : Stmt) (next : Remaining)
  | branches (yes no : Stmt) (next : Remaining)
  | condition (condition : Expr) (body : Stmt) (next : Remaining)
  | given (next : Remaining)

/-- What is left to do after a statement. -/
inductive Remaining where
  /-- How the statement ended is the outcome of the run. -/
  | outcome
  | statements (rest : List Stmt) (next : Remaining)
  | round (condition : Expr) (body : Stmt) (next : Remaining)
  /-- The end of a block, which goes back to the frame around it. -/
  | blockEnd (scope : FrameId) (next : Remaining)
  /-- The end of a function body, which goes back to the frame of the call. -/
  | callEnd (scope : FrameId) (next : Awaiting)

end

/-- What the machine does next. All that is left to do is data, so only memory bounds the depth of
calls and expressions. -/
inductive Machine where
  | evaluate (e : Expr) (next : Awaiting)
  | arguments (callee : Value) (done : List Value) (rest : List Expr) (line : Nat)
      (next : Awaiting)
  | apply (callee : Value) (args : List Value) (line : Nat) (next : Awaiting)
  | give (v : Value) (next : Awaiting)
  | raise (f : Fault) (next : Awaiting)
  | execute (s : Stmt) (next : Remaining)
  | sequence (body : List Stmt) (next : Remaining)
  | finish (s : Signal) (next : Remaining)
  | abort (f : Fault) (next : Remaining)

/-- One step either ends the run or leaves more to do. -/
inductive Progress where
  | ended (o : Outcome)
  | going (m : Machine)

namespace Machine

/-- Goes on with a value or a fault. -/
def settle (r : Except Fault Value) (next : Awaiting) : Machine :=
  match r with
  | .ok v => .give v next
  | .error f => .raise f next

def stepEvaluate (e : Expr) (next : Awaiting) (w : World) : Machine × World :=
  match e with
  | .literal value => (.give (.ofLiteral value) next, w)
  | .grouping inner => (.evaluate inner next, w)
  | .unary op operand line => (.evaluate operand (.operand op line next), w)
  | .binary left op right line => (.evaluate left (.left op right line next), w)
  | .logical left op right _ => (.evaluate left (.decision op right next), w)
  | .lookup name line => (settle (w.store.get w.scope name line) next, w)
  | .assign name value line => (.evaluate value (.assigned name line next), w)
  | .call callee args line => (.evaluate callee (.callee args line next), w)

/-- Enters the body of a function, parameters bound to arguments pairwise. -/
def enter (f : Closure) (args : List Value) (next : Awaiting) (w : World) : Machine × World :=
  (.sequence f.body (.callEnd w.scope next), w.push f.home (Frame.bindAll f.params args))

/-- Calls a value with as many arguments as it has parameters. -/
def stepApply (callee : Value) (args : List Value) (line : Nat) (next : Awaiting) (w : World) :
    Machine × World :=
  match callee with
  | .closure f =>
    if args.length = f.params.length then enter f args next w
    else (.raise (.arityMismatch f.params.length args.length line) next, w)
  | .native f =>
    if args.length = f.arity then (settle (f.apply args line) next, w)
    else (.raise (.arityMismatch f.arity args.length line) next, w)
  | _ => (.raise (.notCallable line) next, w)

/-- Hands the value `v` to what waits for it. -/
def stepGive (v : Value) (next : Awaiting) (w : World) : Progress × World :=
  match next with
  | .outcome => (.ended (.value v), w)
  | .operand op line next => (.going (settle (op.apply v line) next), w)
  | .left op right line next => (.going (.evaluate right (.right v op line next)), w)
  | .right left op line next => (.going (settle (op.apply left v line) next), w)
  | .decision op right next =>
    (.going (if op.decided v then .give v next else .evaluate right next), w)
  | .assigned name line next =>
    match w.store.resolve? name w.scope with
    | some i => (.going (.give v next), w.bindAt i name v)
    | none => (.going (.raise (.undefinedVariable name line) next), w)
  | .callee args line next => (.going (.arguments v [] args line next), w)
  | .argument callee done rest line next =>
    (.going (.arguments callee (v :: done) rest line next), w)
  | .discarded next => (.going (.finish .normal next), w)
  | .printed next => (.going (.finish .normal next), w.println v.display)
  | .initial name next => (.going (.finish .normal next), w.define name v)
  | .thenBranch yes next =>
    (.going (if v.truthy then .execute yes next else .finish .normal next), w)
  | .branches yes no next => (.going (.execute (if v.truthy then yes else no) next), w)
  | .condition condition body next =>
    (.going (if v.truthy then .execute body (.round condition body next)
      else .finish .normal next), w)
  | .given next => (.going (.finish (.returned v) next), w)

/-- Takes the fault `f` past what waits for a value. -/
def stepRaise (f : Fault) (next : Awaiting) (w : World) : Progress × World :=
  match next with
  | .outcome => (.ended (.fault f), w)
  | .operand _ _ next | .left _ _ _ next | .right _ _ _ next | .decision _ _ next
  | .assigned _ _ next | .callee _ _ next | .argument _ _ _ _ next => (.going (.raise f next), w)
  | .discarded next | .printed next | .initial _ next | .thenBranch _ next
  | .branches _ _ next | .condition _ _ next | .given next => (.going (.abort f next), w)

def stepExecute (s : Stmt) (next : Remaining) (w : World) : Machine × World :=
  match s with
  | .expression e => (.evaluate e (.discarded next), w)
  | .output e => (.evaluate e (.printed next), w)
  | .create name (some e) _ => (.evaluate e (.initial name next), w)
  | .create name none _ => (.finish .normal next, w.define name .nil)
  | .block body => (.sequence body (.blockEnd w.scope next), w.push w.scope [])
  | .ifThen condition yes => (.evaluate condition (.thenBranch yes next), w)
  | .ifElse condition yes no => (.evaluate condition (.branches yes no next), w)
  | .loop condition body => (.evaluate condition (.condition condition body next), w)
  | .function name params body _ => (.finish .normal next, w.declare name params body)
  | .giveBack (some e) _ => (.evaluate e (.given next), w)
  | .giveBack none _ => (.finish (.returned .nil) next, w)

/-- Goes on after a statement that ended with the signal `s`. -/
def stepFinish (s : Signal) (next : Remaining) (w : World) : Progress × World :=
  match s, next with
  | s, .outcome => (.ended (.signal s), w)
  | .normal, .statements rest next => (.going (.sequence rest next), w)
  | .returned v, .statements _ next => (.going (.finish (.returned v) next), w)
  | .normal, .round condition body next =>
    (.going (.evaluate condition (.condition condition body next)), w)
  | .returned v, .round _ _ next => (.going (.finish (.returned v) next), w)
  | s, .blockEnd scope next => (.going (.finish s next), w.within scope)
  | .normal, .callEnd scope next => (.going (.give .nil next), w.within scope)
  | .returned v, .callEnd scope next => (.going (.give v next), w.within scope)

/-- Takes the fault `f` past what was left to do after a statement; a block or a call that it passes
restores the frame of the code around it. -/
def stepAbort (f : Fault) (next : Remaining) (w : World) : Progress × World :=
  match next with
  | .outcome => (.ended (.fault f), w)
  | .statements _ next | .round _ _ next => (.going (.abort f next), w)
  | .blockEnd scope next => (.going (.abort f next), w.within scope)
  | .callEnd scope next => (.going (.raise f next), w.within scope)

/-- A step that cannot end the run. -/
def going (r : Machine × World) : Progress × World :=
  (.going r.1, r.2)

def step (m : Machine) (w : World) : Progress × World :=
  match m with
  | .evaluate e next => going (stepEvaluate e next w)
  | .arguments callee done [] line next => (.going (.apply callee done.reverse line next), w)
  | .arguments callee done (e :: rest) line next =>
    (.going (.evaluate e (.argument callee done rest line next)), w)
  | .apply callee args line next => going (stepApply callee args line next w)
  | .give v next => stepGive v next w
  | .raise f next => stepRaise f next w
  | .execute s next => going (stepExecute s next w)
  | .sequence [] next => (.going (.finish .normal next), w)
  | .sequence (s :: rest) next => (.going (.execute s (.statements rest next)), w)
  | .finish s next => stepFinish s next w
  | .abort f next => stepAbort f next w

/-- At most `steps` steps; `none` if they do not end the run. -/
def run : Nat → Machine → World → Option (Outcome × World)
  | 0, _, _ => none
  | steps + 1, m, w =>
    match step m w with
    | (.ended o, w) => some (o, w)
    | (.going m, w) => run steps m w

end Machine

namespace World

def evaluate (steps : Nat) (e : Expr) (w : World) : Option (Outcome × World) :=
  (Machine.evaluate e .outcome).run steps w

def execute (steps : Nat) (s : Stmt) (w : World) : Option (Outcome × World) :=
  (Machine.execute s .outcome).run steps w

/-- Decides a logical operator in the current frame. -/
def decideLogical (steps : Nat) (left : Expr) (op : LogicalOp) (right : Expr) (w : World) :
    Option (Outcome × World) :=
  (Machine.evaluate left (.decision op right .outcome)).run steps w

/-- Calls a function with arguments that need not match its parameters in number. -/
def call (steps : Nat) (callee : Value) (args : List Value) (line : Nat) (w : World) :
    Option (Outcome × World) :=
  match callee with
  | .closure f => let (m, w) := Machine.enter f args .outcome w; m.run steps w
  | .native f => (Machine.settle (f.apply args line) .outcome).run steps w
  | _ => (Machine.raise (.notCallable line) .outcome).run steps w

/-- Executes statements in order up to the first fault, each in at most `steps` steps. A statement
that gives a value back is done with, and the next one follows. -/
def interpret (steps : Nat) : List Stmt → World → Option (Except Fault Unit × World)
  | [], w => some (.ok (), w)
  | s :: rest, w =>
    match w.execute steps s with
    | none => none
    | some (.fault f, w) => some (.error f, w)
    | some (_, w) => interpret steps rest w

end World

end ClosureLang
