import ClosureLang.Fault
import ClosureLang.Value

namespace ClosureLang

def numberOperands (op : BinaryOp) (left right : Value) (line : Nat) :
    Except Fault (Float × Float) :=
  match left, right with
  | .number x, .number y => .ok (x, y)
  | _, _ => .error (.operandsMustBeNumbers op.symbol line)

/-- Numbers are added; a string takes the text of the other operand. -/
def addValues (left right : Value) (line : Nat) : Except Fault Value :=
  match left, right with
  | .number x, .number y => .ok (.number (x + y))
  | .text _, _ | _, .text _ => .ok (.text (left.display ++ right.display))
  | _, _ => .error (.invalidAddOperands line)

/-- Subtraction, multiplication and division of numbers; a zero of either sign divides nothing. -/
def arithmetic (op : BinaryOp) (left right : Value) (line : Nat) : Except Fault Value := do
  let (x, y) ← numberOperands op left right line
  match op with
  | .sub => .ok (.number (x - y))
  | .mul => .ok (.number (x * y))
  | .div => if y == 0 then .error (.divisionByZero line) else .ok (.number (x / y))
  | _ => .error (.typeError ("Operator '" ++ op.symbol ++ "' is not arithmetic.") line)

/-- How the ordering operators relate two numbers. -/
def ordered (op : BinaryOp) (x y : Float) : Bool :=
  match op with
  | .less => x < y
  | .greater => x > y
  | .lessEqual => x ≤ y
  | .greaterEqual => x ≥ y
  | _ => false

/-- Equality of any two values, or the order of two numbers. -/
def comparison (op : BinaryOp) (left right : Value) (line : Nat) : Except Fault Value :=
  match op with
  | .equal => .ok (.bool (left == right))
  | .notEqual => .ok (.bool (!(left == right)))
  | _ => do
    let (x, y) ← numberOperands op left right line
    .ok (.bool (ordered op x y))

def BinaryOp.apply (op : BinaryOp) (left right : Value) (line : Nat) : Except Fault Value :=
  match op with
  | .add => addValues left right line
  | .sub | .mul | .div => arithmetic op left right line
  | _ => comparison op left right line

def UnaryOp.apply (op : UnaryOp) (v : Value) (line : Nat) : Except Fault Value :=
  match op, v with
  | .not, v => .ok (.bool (!v.truthy))
  | .negate, .number x => .ok (.number (-x))
  | .negate, _ => .error (.operandMustBeNumber op.symbol line)

/-- Whether the left operand is already the answer. -/
def LogicalOp.decided (op : LogicalOp) (left : Value) : Bool :=
  match op with
  | .or => left.truthy
  | .and => !left.truthy

/-- What a provided function gives for its arguments. -/
def Native.apply (f : Native) (args : List Value) (line : Nat) : Except Fault Value :=
  match f, args with
  | .add, [.number x, .number y] => .ok (.number (x + y))
  | .add, _ => .error (.typeError "Arguments to 'add' must be numbers." line)
  | .sqrt, [.number x] => .ok (.number x.sqrt)
  | .sqrt, _ => .error (.typeError "Argument to 'sqrt' must be a number." line)

end ClosureLang
