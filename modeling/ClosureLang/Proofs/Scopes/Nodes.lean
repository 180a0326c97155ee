import ClosureLang.Proofs.Frames.Sessions

namespace ClosureLang

inductive Node where
  | expr (e : Expr)
  | stmt (s : Stmt)

namespace Node

/-- The parts of a node in the order of the text. -/
def parts : Node → List Node
  | .expr (.literal _) | .expr (.lookup _ _) => []
  | .expr (.grouping inner) => [.expr inner]
  | .expr (.unary _ operand _) => [.expr operand]
  | .expr (.binary left _ right _) => [.expr left, .expr right]
  | .expr (.logical left _ right _) => [.expr left, .expr right]
  | .expr (.assign _ value _) => [.expr value]
  | .expr (.call callee args _) => .expr callee :: args.map .expr
  | .stmt (.expression e) | .stmt (.output e) => [.expr e]
  | .stmt (.create _ none _) | .stmt (.giveBack none _) => []
  | .stmt (.create _ (some e) _) | .stmt (.giveBack (some e) _) => [.expr e]
  | .stmt (.block body) => body.map .stmt
  | .stmt (.ifThen condition yes) => [.expr condition, .stmt yes]
  | .stmt (.ifElse condition yes no) => [.expr condition, .stmt yes, .stmt no]
  | .stmt (.loop condition body) => [.expr condition, .stmt body]
  | .stmt (.function _ _ body _) => body.map .stmt

/-- What a node adds to the depth of its parts: a block and a function body add one. -/
def opens : Node → Nat
  | .stmt (.block _) | .stmt (.function _ _ _ _) => 1
  | _ => 0

end Node

/-- A place in a program: the number of a part within its node, then the number of that node, and
so on outwards to the number of a statement of the program. -/
abbrev Path := List Nat

/-- At the place `p` of the program stands `node`, inside `d` blocks and function bodies. -/
inductive Occurs (program : List Stmt) : Path → Node → Nat → Prop where
  | top {i : Nat} {s : Stmt} (h : program[i]? = some s) : Occurs program [i] (.stmt s) 0
  | part {p : Path} {node part : Node} {d i : Nat} (h : Occurs program p node d)
      (hi : node.parts[i]? = some part) : Occurs program (i :: p) part (d + node.opens)

theorem Occurs.ne_nil {program : List Stmt} {node : Node} {d : Nat} : ¬ Occurs program [] node d :=
  nofun

/-- One node stands at a place, inside so many blocks and function bodies. -/
theorem Occurs.unique {program : List Stmt} {p : Path} {node node' : Node} {d d' : Nat}
    (h : Occurs program p node d) (h' : Occurs program p node' d') : node = node' ∧ d = d' := by
  induction h generalizing node' d' with
  | top h =>
    cases h' with
    | top h' =>
      cases h.symm.trans h'
      exact ⟨rfl, rfl⟩
    | part h' => exact absurd h' Occurs.ne_nil
  | part h hi ih =>
    cases h' with
    | top h' => exact absurd h Occurs.ne_nil
    | part h' hi' =>
      obtain ⟨rfl, rfl⟩ := ih h'
      cases hi.symm.trans hi'
      exact ⟨rfl, rfl⟩

mutual

/-- How many blocks and function bodies are nested in a statement. -/
def Stmt.nesting : Stmt → Nat
  | .expression _ | .output _ | .create _ _ _ | .giveBack _ _ => 0
  | .block body => Stmt.nestingAll body + 1
  | .ifThen _ yes => yes.nesting
  | .ifElse _ yes no => max yes.nesting no.nesting
  | .loop _ body => body.nesting
  | .function _ _ body _ => Stmt.nestingAll body + 1

/-- How many blocks and function bodies are nested in statements. -/
def Stmt.nestingAll : List Stmt → Nat
  | [] => 0
  | s :: rest => max s.nesting (Stmt.nestingAll rest)

end

def Node.nesting : Node → Nat
  | .expr _ => 0
  | .stmt s => s.nesting

theorem Stmt.nesting_le_all {s : Stmt} {body : List Stmt} (h : s ∈ body) :
    s.nesting ≤ Stmt.nestingAll body := by
  induction body with
  | nil => simp at h
  | cons first rest ih =>
    rw [Stmt.nestingAll]
    rcases List.mem_cons.mp h with rfl | h
    · exact le_max_left _ _
    · exact (ih h).trans (le_max_right _ _)

theorem Node.nesting_le_of_body {part : Node} {body : List Stmt} (h : part ∈ body.map Node.stmt) :
    part.nesting ≤ Stmt.nestingAll body := by
  obtain ⟨s, hs, rfl⟩ := List.mem_map.mp h
  exact Stmt.nesting_le_all hs

/-- A part is nested less deep than its node, by one where the node opens a frame. -/
theorem Node.nesting_part {node part : Node} (h : part ∈ node.parts) :
    node.opens + part.nesting ≤ node.nesting := by
  cases node with
  | expr e =>
    have hexpr : ∃ e', part = .expr e' := by
      cases e with
      | call callee args line =>
        rcases List.mem_cons.mp h with rfl | h
        · exact ⟨callee, rfl⟩
        · obtain ⟨arg, -, rfl⟩ := List.mem_map.mp h
          exact ⟨arg, rfl⟩
      | literal | lookup => simp [Node.parts] at h
      | grouping | unary | assign =>
        simp only [Node.parts, List.mem_singleton] at h
        exact ⟨_, h⟩
      | binary | logical =>
        simp only [Node.parts, List.mem_cons, List.not_mem_nil, or_false] at h
        rcases h with rfl | rfl <;> exact ⟨_, rfl⟩
    obtain ⟨e', rfl⟩ := hexpr
    exact le_rfl
  | stmt s =>
    cases s with
    | expression e | output e =>
      cases List.mem_singleton.mp h
      exact le_rfl
    | create name initial line | giveBack initial line =>
      cases initial with
      | none => simp [Node.parts] at h
      | some e =>
        cases List.mem_singleton.mp h
        exact le_rfl
    | block body =>
      have hle := Node.nesting_le_of_body h
      change 1 + part.nesting ≤ Stmt.nestingAll body + 1
      omega
    | function name params body line =>
      have hle := Node.nesting_le_of_body h
      change 1 + part.nesting ≤ Stmt.nestingAll body + 1
      omega
    | ifThen condition yes | loop condition yes =>
      simp only [Node.parts, List.mem_cons, List.not_mem_nil, or_false] at h
      rcases h with rfl | rfl <;> simp [Node.opens, Node.nesting, Stmt.nesting]
    | ifElse condition yes no =>
      simp only [Node.parts, List.mem_cons, List.not_mem_nil, or_false] at h
      rcases h with rfl | rfl | rfl <;> simp [Node.opens, Node.nesting, Stmt.nesting]

/-- The depth of a place, and of what is nested at it, is within that of the program. -/
theorem Occurs.nesting_le {program : List Stmt} {p : Path} {node : Node} {d : Nat}
    (h : Occurs program p node d) : d + node.nesting ≤ Stmt.nestingAll program := by
  induction h with
  | top h =>
    have hle := Stmt.nesting_le_all (List.mem_of_getElem? h)
    simpa [Node.nesting] using hle
  | part h hi ih =>
    have hle := Node.nesting_part (List.mem_of_getElem? hi)
    omega

/-- Where a run is: the place of the node it is at, the places of the nodes that wait, innermost
first, and for each function the place where it was declared, by identity. -/
structure Whereabouts where
  here : Path
  waiting : List Path
  origins : Nat → Path

namespace Whereabouts

/-- Before the first statement. -/
def start : Whereabouts := ⟨[], [], fun _ => []⟩

/-- Begins with the statement at `p`. -/
def begin (t : Whereabouts) (p : Path) : Whereabouts :=
  { t with here := p, waiting := [] }

/-- Goes to a place, while the node waits. -/
def visit (t : Whereabouts) (p : Path) : Whereabouts :=
  { t with here := p, waiting := t.here :: t.waiting }

/-- Goes into part `i` of the node, while the node waits. -/
def into (t : Whereabouts) (i : Nat) : Whereabouts :=
  t.visit (i :: t.here)

/-- Goes on with part `i` in the place of the whole node. -/
def onTo (t : Whereabouts) (i : Nat) : Whereabouts :=
  { t with here := i :: t.here }

/-- Goes back to the innermost node that waits. -/
def back (t : Whereabouts) : Whereabouts :=
  { t with here := t.waiting.headD [], waiting := t.waiting.tail }

/-- Remembers that the function of this identity was declared here. -/
def declare (t : Whereabouts) (identity : Nat) : Whereabouts :=
  { t with origins := Function.update t.origins identity t.here }

end Whereabouts

/-- The place of the `i`-th node after the one at a place, in the same parent. -/
def Path.after (i : Nat) : Path → Path
  | [] => []
  | k :: p => (k + i) :: p

namespace Whereabouts

def stepEvaluate (e : Expr) (t : Whereabouts) : Whereabouts :=
  match e with
  | .literal _ | .lookup _ _ => t
  | .grouping _ => t.onTo 0
  | .unary _ _ _ | .binary _ _ _ _ | .logical _ _ _ _ | .assign _ _ _ | .call _ _ _ => t.into 0

def stepApply (callee : Value) (args : List Value) (t : Whereabouts) : Whereabouts :=
  match callee with
  | .closure f =>
    if args.length = f.params.length then t.visit (0 :: t.origins f.identity) else t
  | _ => t

def stepGive (v : Value) (next : Awaiting) (t : Whereabouts) : Whereabouts :=
  match next with
  | .outcome => t
  | .operand _ _ _ | .right _ _ _ _ | .assigned _ _ _ | .callee _ _ _ | .argument _ _ _ _ _
  | .discarded _ | .printed _ | .initial _ _ | .given _ => t.back
  | .left _ _ _ _ => t.back.into 1
  | .decision op _ _ => if op.decided v then t.back else t.back.onTo 1
  | .thenBranch _ _ => if v.truthy then t.back.onTo 1 else t.back
  | .branches _ _ _ => t.back.onTo (if v.truthy then 1 else 2)
  | .condition _ _ _ => if v.truthy then t.back.into 1 else t.back

def stepRaise (next : Awaiting) (t : Whereabouts) : Whereabouts :=
  match next with
  | .outcome => t
  | _ => t.back

def stepExecute (s : Stmt) (identity : Nat) (t : Whereabouts) : Whereabouts :=
  match s with
  | .create _ none _ | .giveBack none _ => t
  | .function _ _ _ _ => t.declare identity
  | .expression _ | .output _ | .create _ (some _) _ | .block _ | .ifThen _ _ | .ifElse _ _ _
  | .loop _ _ | .giveBack (some _) _ => t.into 0

def stepFinish (s : Signal) (next : Remaining) (t : Whereabouts) : Whereabouts :=
  match s, next with
  | _, .outcome => t
  | .normal, .statements _ _ => { t.back with here := t.back.here.after 1 }
  | .normal, .round _ _ _ => t.back.into 0
  | _, _ => t.back

def stepAbort (next : Remaining) (t : Whereabouts) : Whereabouts :=
  match next with
  | .outcome => t
  | _ => t.back

/-- Where the run is after a step of the machine `m` in `w`. -/
def step (m : Machine) (w : World) (t : Whereabouts) : Whereabouts :=
  match m with
  | .evaluate e _ => t.stepEvaluate e
  | .arguments _ _ [] _ _ => t
  | .arguments _ done (_ :: _) _ _ => t.into (done.length + 1)
  | .apply callee args _ _ => t.stepApply callee args
  | .give v next => t.stepGive v next
  | .raise _ next => t.stepRaise next
  | .execute s _ => t.stepExecute s w.store.nextIdentity
  | .sequence [] _ => t
  | .sequence (_ :: _) _ => t.visit t.here
  | .finish s next => t.stepFinish s next
  | .abort _ next => t.stepAbort next

end Whereabouts

/-- The node that the machine starts on next, if it starts on one. -/
def Machine.node? : Machine → Option Node
  | .evaluate e _ => some (.expr e)
  | .execute s _ => some (.stmt s)
  | _ => none

/-- The states of a session in a new world that executes statements of the program, in any order and
whether they fail or not, each with the place where it is. -/
inductive Visits (program : List Stmt) : Whereabouts → Session → Prop where
  | start : Visits program .start (.idle .initial)
  | execute {t : Whereabouts} {w : World} {i : Nat} {s : Stmt} (h : Visits program t (.idle w))
      (hs : program[i]? = some s) : Visits program (t.begin [i]) (.busy (.execute s .outcome) w)
  | going {t : Whereabouts} {m m' : Machine} {w w' : World} (h : Visits program t (.busy m w))
      (hs : m.step w = (.going m', w')) : Visits program (t.step m w) (.busy m' w')
  | ended {t : Whereabouts} {m : Machine} {w w' : World} {o : Outcome}
      (h : Visits program t (.busy m w)) (hs : m.step w = (.ended o, w')) :
      Visits program t (.idle w')

theorem Visits.reachable {program : List Stmt} {t : Whereabouts} {σ : Session}
    (h : Visits program t σ) : σ.Reachable := by
  induction h with
  | start => exact .refl
  | execute _ _ ih => exact .tail ih (.execute _)
  | going _ hs ih => exact .tail ih (.going hs)
  | ended _ hs ih => exact .tail ih (.ended hs)

end ClosureLang
