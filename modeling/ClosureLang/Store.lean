import ClosureLang.Fault
import ClosureLang.Value

namespace ClosureLang

/-- A frame of variables, inside an older frame if it belongs to one. -/
structure Frame where
  enclosing : Option FrameId
  bindings : List (String × Value)

namespace Frame

/-- The bindings with `name` bound to `v`: in the place of an older binding, or at the end. -/
def bind (name : String) (v : Value) : List (String × Value) → List (String × Value)
  | [] => [(name, v)]
  | (n, w) :: rest => if n = name then (n, v) :: rest else (n, w) :: bind name v rest

/-- Whether the frame itself declares a name. -/
def declares (f : Frame) (name : String) : Bool :=
  f.bindings.any fun b => b.1 == name

def value? (f : Frame) (name : String) : Option Value :=
  f.bindings.lookup name

def define (f : Frame) (name : String) (v : Value) : Frame :=
  { f with bindings := bind name v f.bindings }

/-- Parameters bound to arguments pairwise; of equal names the last counts. -/
def bindAll (params : List String) (args : List Value) : List (String × Value) :=
  (params.zip args).foldl (fun bindings p => bind p.1 p.2 bindings) []

end Frame

/-- All frames, and the identity that the next function gets. Frames are never removed, so a
function finds the variables it was declared among for as long as it lives. -/
structure Store where
  frames : Array Frame
  nextIdentity : Nat

namespace Store

def empty : Store := ⟨#[], 0⟩

/-- Creates a frame with the given bindings; its number is the old `frames.size`. -/
def push (s : Store) (enclosing : Option FrameId) (bindings : List (String × Value)) : Store :=
  { s with frames := s.frames.push ⟨enclosing, bindings⟩ }

/-- The nearest frame, from frame `i` outwards, that declares a name. -/
def resolve? (s : Store) (name : String) (i : FrameId) : Option FrameId :=
  match s.frames[i]? with
  | none => none
  | some f =>
    if f.declares name then some i
    else
      match f.enclosing with
      | some j => if j < i then s.resolve? name j else none
      | none => none
termination_by i

def define (s : Store) (i : FrameId) (name : String) (v : Value) : Store :=
  { s with frames := s.frames.modify i (·.define name v) }

/-- The value of a name as seen from frame `i`. -/
def get (s : Store) (i : FrameId) (name : String) (line : Nat) : Except Fault Value :=
  match (s.resolve? name i).bind fun j => s.frames[j]?.bind (·.value? name) with
  | some v => .ok v
  | none => .error (.undefinedVariable name line)

/-- Gives a new value to a name as seen from frame `i`; it must be declared. -/
def assign (s : Store) (i : FrameId) (name : String) (v : Value) (line : Nat) :
    Except Fault Store :=
  match s.resolve? name i with
  | some j => .ok (s.define j name v)
  | none => .error (.undefinedVariable name line)

/-- A new function declared in frame `home`, and the store in which its identity is taken. -/
def declare (s : Store) (name : String) (params : List String) (body : List Stmt)
    (home : FrameId) : Closure × Store :=
  (⟨name, params, body, home, s.nextIdentity⟩, { s with nextIdentity := s.nextIdentity + 1 })

def defineNatives (s : Store) (i : FrameId) : Store :=
  Native.all.foldl (fun s f => s.define i f.name (.native f)) s

end Store

end ClosureLang
