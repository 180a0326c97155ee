import ClosureLang.Tree.SyntaxError

namespace ClosureLang

/-- Text with nested parts. -/
inductive Outline where
  | leaf (text : String)
  | field (name : String) (value : Outline)
  /-- Items between an opening and a closing text, each on lines of its own. -/
  | nested (opening closing : String) (items : List Outline)

namespace Outline

mutual

/-- The text of an outline whose first line starts at the column `margin`; each level stands four
columns further in. -/
def render (margin : String) : Outline → String
  | .leaf text => text
  | .field name value => name ++ ": " ++ value.render margin
  | .nested opening closing [] => opening ++ closing
  | .nested opening closing (item :: rest) =>
    opening ++ "\n" ++ renderItem (margin ++ "    ") item ++
      renderItems (margin ++ "    ") rest ++ margin ++ closing

def renderItem (margin : String) (item : Outline) : String :=
  margin ++ item.render margin ++ ",\n"

def renderItems (margin : String) : List Outline → String
  | [] => ""
  | item :: rest => renderItem margin item ++ renderItems margin rest

end

def text (s : String) : Outline := .leaf (quote s)

def line (n : Nat) : Outline := .field "line" (.leaf (toString n))

/-- Named fields. -/
def record (name : String) (fields : List Outline) : Outline :=
  .nested (name ++ " \x7b") "\x7d" fields

def wrapped (name : String) (inner : Outline) : Outline :=
  .nested (name ++ "(") ")" [inner]

def list (items : List Outline) : Outline :=
  .nested "[" "]" items

def optional : Option Outline → Outline
  | some inner => wrapped "Some" inner
  | none => .leaf "None"

end Outline

def Literal.outline : Literal → Outline
  | .number x => .wrapped "Number" (.leaf (NumberStyle.listing.render x))
  | .text s => .wrapped "Str" (.text s)
  | .bool b => .wrapped "Bool" (.leaf (if b then "true" else "false"))
  | .nil => .leaf "Nil"

mutual

def Expr.outline : Expr → Outline
  | .literal value => .record "Literal" [.field "value" value.outline]
  | .grouping inner => .record "Grouping" [.field "expr" inner.outline]
  | .unary op operand line =>
    .record "Unary" [.field "op" (.leaf op.name), .field "right" operand.outline, .line line]
  | .binary left op right line =>
    .record "Binary"
      [.field "left" left.outline, .field "op" (.leaf op.name), .field "right" right.outline,
       .line line]
  | .logical left op right line =>
    .record "Logical"
      [.field "left" left.outline, .field "op" (.leaf op.name), .field "right" right.outline,
       .line line]
  | .lookup name line => .record "Variable" [.field "name" (.text name), .line line]
  | .assign name value line =>
    .record "Assign" [.field "name" (.text name), .field "value" value.outline, .line line]
  | .call callee arguments line =>
    .record "Call"
      [.field "callee" callee.outline, .field "arguments" (.list (Expr.outlines arguments)),
       .line line]

def Expr.outlines : List Expr → List Outline
  | [] => []
  | e :: rest => e.outline :: Expr.outlines rest

end

mutual

def Stmt.outline : Stmt → Outline
  | .expression e => .record "Expression" [.field "expr" e.outline]
  | .output e => .record "Output" [.field "expr" e.outline]
  | .create name initial line =>
    .record "Create"
      [.field "name" (.text name), .field "initializer" (.optional (initial.map Expr.outline)),
       .line line]
  | .block body => .record "Block" [.field "statements" (.list (Stmt.outlines body))]
  | .ifThen condition yes =>
    .record "If"
      [.field "condition" condition.outline, .field "then_branch" yes.outline,
       .field "else_branch" (.optional none)]
  | .ifElse condition yes no =>
    .record "If"
      [.field "condition" condition.outline, .field "then_branch" yes.outline,
       .field "else_branch" (.optional (some no.outline))]
  | .loop condition body =>
    .record "While" [.field "condition" condition.outline, .field "body" body.outline]
  | .function name params body line =>
    .wrapped "Function"
      (.record "FunctionDecl"
        [.field "name" (.text name), .field "params" (.list (params.map .text)),
         .field "body" (.list (Stmt.outlines body)), .line line])
  | .giveBack value line =>
    .record "Return" [.field "value" (.optional (value.map Expr.outline)), .line line]

def Stmt.outlines : List Stmt → List Outline
  | [] => []
  | s :: rest => s.outline :: Stmt.outlines rest

end

/-- A statement written out over several lines. -/
def Stmt.listing (s : Stmt) : String :=
  s.outline.render ""

/-- How a listing shows a complaint: its kind and its fields on one line. -/
def SyntaxError.listing (e : SyntaxError) : String :=
  let (name, fields) : String × List (String × String) := match e with
    | .expectedToken message found _ =>
      ("ExpectedToken", [("message", quote message), ("found", quote found)])
    | .expectedExpression found _ => ("ExpectedExpression", [("found", quote found)])
    | .invalidAssignmentTarget _ => ("InvalidAssignmentTarget", [])
    | .tooManyParameters max _ => ("TooManyParameters", [("max", toString max)])
    | .tooManyArguments max _ => ("TooManyArguments", [("max", toString max)])
    | .returnOutsideFunction _ => ("ReturnOutsideFunction", [])
  let texts := (fields ++ [("line", toString e.line)]).map fun f => f.1 ++ ": " ++ f.2
  name ++ " \x7b " ++ ", ".intercalate texts ++ " \x7d"

end ClosureLang
