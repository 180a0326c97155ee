import ClosureLang.Store

namespace ClosureLang

/-- Where the lines of a running program go, with the text that has gone there so far. -/
inductive Output where
  /-- They are written to the console. -/
  | console (text : String)
  /-- They are collected in memory. -/
  | buffer (text : String)

namespace Output

/-- Nothing collected yet. -/
def empty : Output := .buffer ""

/-- The text that has gone there. -/
def text : Output → String
  | .console text | .buffer text => text

/-- The text that can be read back: all that was collected, nothing that was written. -/
def collected : Output → String
  | .console _ => ""
  | .buffer text => text

/-- Prints a line; a buffer gets the line first and then its end. -/
def println (o : Output) (line : String) : Output :=
  match o with
  | .console text => .console (text ++ (line ++ "\n"))
  | .buffer text => .buffer ((text ++ line).push '\n')

/-- The same output with more text behind it. -/
def append (o : Output) (more : String) : Output :=
  match o with
  | .console text => .console (text ++ more)
  | .buffer text => .buffer (text ++ more)

/-- The console and a buffer hold the same text. -/
theorem println_eq_append (o : Output) (line : String) :
    o.println line = o.append (line ++ "\n") := by
  cases o with
  | console text => rfl
  | buffer text =>
    refine congrArg buffer ?_
    rw [← String.append_assoc, ← String.append_singleton]
    rfl

@[simp] theorem append_append (o : Output) (more rest : String) :
    (o.append more).append rest = o.append (more ++ rest) := by
  cases o <;> simp [append, String.append_assoc]

@[simp] theorem append_empty (o : Output) : o.append "" = o := by
  cases o <;> simp [append]

end Output

/-- The state of a running program: the store, the current frame, and the output. -/
structure World where
  store : Store
  /-- The frame in which the current statement runs. -/
  scope : FrameId
  output : Output

namespace World

/-- Only the global frame, with the provided functions in it. -/
def initial : World :=
  ⟨(Store.empty.push none []).defineNatives 0, 0, .empty⟩

/-- Prints to `output` from now on. -/
def printingTo (w : World) (output : Output) : World :=
  { w with output }

/-- Runs in the frame `scope`. -/
def within (w : World) (scope : FrameId) : World :=
  { w with scope }

def println (w : World) (line : String) : World :=
  { w with output := w.output.println line }

def bindAt (w : World) (i : FrameId) (name : String) (v : Value) : World :=
  match w with
  | ⟨store, scope, output⟩ => ⟨store.define i name v, scope, output⟩

def define (w : World) (name : String) (v : Value) : World :=
  w.bindAt w.scope name v

/-- Enters a new frame. -/
def push (w : World) (enclosing : FrameId) (bindings : List (String × Value)) : World :=
  match w with
  | ⟨store, _, output⟩ =>
    let scope := store.frames.size
    ⟨store.push (some enclosing) bindings, scope, output⟩

def declare (w : World) (name : String) (params : List String) (body : List Stmt) : World :=
  match w with
  | ⟨store, scope, output⟩ =>
    let (f, store) := store.declare name params body scope
    ⟨store.define scope name (.closure f), scope, output⟩

end World

end ClosureLang
