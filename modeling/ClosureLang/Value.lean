import ClosureLang.Tree

namespace ClosureLang

/-- A frame of variables, by the order of creation. -/
abbrev FrameId := Nat

/-- A function that the language provides. -/
inductive Native where
  | add | sqrt
deriving Repr, DecidableEq

/-- A function that a program declared, with the frame of its declaration. It has an identity of its
own: two declarations, or two runs of one, make different functions. -/
structure Closure where
  name : String
  params : List String
  body : List Stmt
  /-- The frame in which the function was declared. -/
  home : FrameId
  identity : Nat

inductive Value where
  | nil
  | bool (b : Bool)
  | number (x : Float)
  | text (s : String)
  | closure (f : Closure)
  | native (f : Native)

namespace Native

def all : List Native := [.add, .sqrt]

/-- The name under which a program finds the function. -/
def name : Native → String
  | .add => "add"
  | .sqrt => "sqrt"

def arity : Native → Nat
  | .add => 2
  | .sqrt => 1

def ofName? (s : String) : Option Native :=
  all.find? fun f => f.name == s

end Native

namespace Value

def ofLiteral : Literal → Value
  | .number x => .number x
  | .text s => .text s
  | .bool b => .bool b
  | .nil => .nil

/-- Nil and `false` do not hold; every other value does. -/
def truthy : Value → Bool
  | .nil => false
  | .bool b => b
  | _ => true

def number? : Value → Option Float
  | .number x => some x
  | _ => none

/-- Values of one type are compared as such, functions by identity; others are never equal. -/
def same : Value → Value → Bool
  | .nil, .nil => true
  | .bool a, .bool b => a == b
  | .number x, .number y => x == y
  | .text s, .text t => s == t
  | .closure f, .closure g => f.identity == g.identity
  | .native f, .native g => f == g
  | _, _ => false

instance : BEq Value := ⟨same⟩

/-- The text that `output` prints. -/
def display : Value → String
  | .nil => "nil"
  | .bool b => if b then "true" else "false"
  | .number x => NumberStyle.display.render x
  | .text s => s
  | .closure f => "<fn " ++ f.name ++ ">"
  | .native f => "<native fn " ++ f.name ++ ">"

/-- Name and number of parameters of a value that can be called. -/
def signature? : Value → Option (String × Nat)
  | .closure f => some (f.name, f.params.length)
  | .native f => some (f.name, f.arity)
  | _ => none

def listing (v : Value) : String :=
  match v with
  | .nil => Literal.nil.listing
  | .bool b => (Literal.bool b).listing
  | .number x => (Literal.number x).listing
  | .text s => (Literal.text s).listing
  | .closure f => "Callable(Function \x7b name: " ++ quote f.name ++ ", arity: " ++
      toString f.params.length ++ ", .. \x7d)"
  | .native f => "Callable(" ++ f.name ++ ")"

end Value

end ClosureLang
