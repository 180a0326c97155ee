import ClosureLang.CommandLine

namespace ClosureLang

/-- More steps than a run can take in a lifetime. -/
def lifetimeSteps : Nat := 0x4000000000000000

/-- What the system says about a file that it does not give out. -/
def refusal : IO.Error → ReadFailure
  | .noFileOrDirectory _ code details | .interrupted _ code details
  | .alreadyExists _ code details | .invalidArgument _ code details
  | .permissionDenied _ code details | .resourceExhausted _ code details
  | .inappropriateType _ code details | .noSuchThing _ code details
  | .otherError code details | .resourceBusy code details | .resourceVanished code details
  | .unsupportedOperation code details | .hardwareFault code details
  | .unsatisfiedConstraints code details | .illegalOperation code details
  | .protocolError code details | .timeExpired code details => .refused details code.toNat
  | .unexpectedEof => .refused "Unexpected end of file" 0
  | .userError details => .refused details 0

def readScript (path : String) : IO (Except ReadFailure String) := do
  let bytes := do (← IO.FS.Handle.mk path .read).readBinToEnd
  match ← bytes.toBaseIO with
  | .ok bytes =>
    match String.fromUTF8? bytes with
    | some text => return .ok text
    | none => return .error .notText
  | .error e => return .error (refusal e)

end ClosureLang

open ClosureLang in
def main (args : List String) : IO UInt32 := do
  let text ← match Request.path? args with
    | some path => readScript path
    | none => pure (.error .notText)
  match Report.ofArguments lifetimeSteps (fun _ => text) args with
  | some report =>
    (← IO.getStdout).putStr report.stdout
    (← IO.getStderr).putStr report.stderr
    return UInt32.ofNat report.code
  | none => return 1
