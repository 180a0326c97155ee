import ClosureLang.Tree

namespace ClosureLang

/-- Why a declaration was rejected, or what is wrong with one that was kept. -/
inductive SyntaxError where
  | expectedToken (message found : String) (line : Nat)
  | expectedExpression (found : String) (line : Nat)
  | invalidAssignmentTarget (line : Nat)
  | tooManyParameters (max line : Nat)
  | tooManyArguments (max line : Nat)
  | returnOutsideFunction (line : Nat)
deriving Repr, DecidableEq

namespace SyntaxError

def line : SyntaxError → Nat
  | .expectedToken _ _ line => line
  | .expectedExpression _ line => line
  | .invalidAssignmentTarget line => line
  | .tooManyParameters _ line => line
  | .tooManyArguments _ line => line
  | .returnOutsideFunction line => line

def message (e : SyntaxError) : String :=
  "Error on line " ++ toString e.line ++
    match e with
    | .expectedToken message found _ => " at " ++ found ++ ": " ++ message
    | .expectedExpression found _ => " at " ++ found ++ ": Expect expression."
    | .invalidAssignmentTarget _ => " at '=': Invalid assignment target."
    | .tooManyParameters max _ => ": Can't have more than " ++ toString max ++ " parameters."
    | .tooManyArguments max _ => ": Can't have more than " ++ toString max ++ " arguments."
    | .returnOutsideFunction _ => " at 'return': Can't return from top-level code."

end SyntaxError

end ClosureLang
