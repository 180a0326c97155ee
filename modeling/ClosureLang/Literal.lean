import ClosureLang.Number.Style
import ClosureLang.Text.Quoted

namespace ClosureLang

inductive Literal where
  | number (x : Float)
  | text (s : String)
  | bool (b : Bool)
  | nil

namespace Literal

/-- Equality of constants; numbers compare as doubles do, so no NaN equals itself. -/
def same : Literal → Literal → Bool
  | .number x, .number y => x == y
  | .text s, .text t => s == t
  | .bool a, .bool b => a == b
  | .nil, .nil => true
  | _, _ => false

instance : BEq Literal := ⟨same⟩

def listing : Literal → String
  | .number x => "Number(" ++ NumberStyle.listing.render x ++ ")"
  | .text s => "Str(" ++ quote s ++ ")"
  | .bool b => "Bool(" ++ (if b then "true" else "false") ++ ")"
  | .nil => "Nil"

end Literal

end ClosureLang
