namespace ClosureLang

/-- Why a program stopped, and on which line. -/
inductive Fault where
  | undefinedVariable (name : String) (line : Nat)
  | operandMustBeNumber (operator : String) (line : Nat)
  | operandsMustBeNumbers (operator : String) (line : Nat)
  | invalidAddOperands (line : Nat)
  | divisionByZero (line : Nat)
  | notCallable (line : Nat)
  | arityMismatch (expected found line : Nat)
  | typeError (details : String) (line : Nat)
deriving Repr, DecidableEq

namespace Fault

def line : Fault → Nat
  | .undefinedVariable _ line => line
  | .operandMustBeNumber _ line => line
  | .operandsMustBeNumbers _ line => line
  | .invalidAddOperands line => line
  | .divisionByZero line => line
  | .notCallable line => line
  | .arityMismatch _ _ line => line
  | .typeError _ line => line

/-- What went wrong, without the line. -/
def details : Fault → String
  | .undefinedVariable name _ => "Undefined variable '" ++ name ++ "'."
  | .operandMustBeNumber operator _ => "Operand must be a number. Operator: '" ++ operator ++ "'"
  | .operandsMustBeNumbers operator _ =>
    "Operands must be numbers. Operator: '" ++ operator ++ "'"
  | .invalidAddOperands _ => "Operands must be two numbers or strings."
  | .divisionByZero _ => "Division by zero."
  | .notCallable _ => "Can only call functions."
  | .arityMismatch expected found _ =>
    "Expected " ++ toString expected ++ " arguments but got " ++ toString found ++ "."
  | .typeError details _ => details

def message (f : Fault) : String :=
  "Error on line " ++ toString f.line ++ ": " ++ f.details

end Fault

end ClosureLang
