import DeviceShell.Failure
import DeviceShell.Text.Blank

/-! How a failure is shown at the prompt. -/

namespace DeviceShell

/-- Take the words of a sub-command off the front of an argument, as far as they are there. -/
def dropWords : List String → String → String
  | [], rest => rest
  | word :: more, rest =>
    let (first, remainder) := Text.splitWord rest
    if first = word then dropWords more remainder else rest

/-- The part of the argument that a command could not use: what follows the words that the error
names as its sub-command. -/
def UsageError.offender (e : UsageError) (args : String) : String :=
  dropWords ((Text.words e.command).drop 1) (Text.trim args)

/-- What the user sees. A usage error names the part of the argument that was wrong, and shows what
would be right. -/
def Failure.rejection (failure : Failure) (args : String) : String :=
  match failure with
  | .usage e =>
    e.command ++ ": illegal option -- " ++ e.offender args ++ "\r\nusage: " ++ e.command ++ " " ++
      e.usage
  | .exhausted _ | .config _ => failure.message

end DeviceShell
