import ClosureLang.Machine
import ClosureLang.Token.Scan
import ClosureLang.Tree.Builder

namespace ClosureLang

/-- Why a source text did not run to its end. -/
inductive ProgramError where
  | rejected (lexical : List LexicalError) (mistakes : List SyntaxError)
  | fault (f : Fault)

namespace ProgramError

/-- The text of an error; the complaints about a rejected program stand one to a line. -/
def message : ProgramError → String
  | .rejected lexical mistakes =>
    "\n".intercalate (lexical.map LexicalError.message ++ mistakes.map SyntaxError.message)
  | .fault f => f.message

end ProgramError

/-- Runs a source text in a new world: how it ended, and what it printed. Text that is no token is
skipped, and a program with a syntax error does not run at all. -/
def runProgram (steps : Nat) (source : String) : Option (Except ProgramError Unit × Output) :=
  let scanned := scan source
  let parsed := parse scanned.tokens
  if parsed.isOk then
    (World.interpret steps parsed.statements .initial).map fun
      | (.ok (), w) => (.ok (), w.output)
      | (.error f, w) => (.error (.fault f), w.output)
  else some (.error (.rejected scanned.errors parsed.errors), .empty)

/-- What one entry of a session does: it runs whatever could be read of it. -/
structure Entry where
  lexical : List LexicalError
  mistakes : List SyntaxError
  result : Except Fault Unit
  world : World

/-- Runs a source text in a world that earlier entries left behind. -/
def World.enterSource (steps : Nat) (source : String) (w : World) : Option Entry :=
  let scanned := scan source
  let parsed := parse scanned.tokens
  (World.interpret steps parsed.statements w).map fun (result, w) =>
    ⟨scanned.errors, parsed.errors, result, w⟩

end ClosureLang
