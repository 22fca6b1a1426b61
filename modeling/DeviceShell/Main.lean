import DeviceShell.Program.Run

/-! The command line: read the configuration file and the input, run, and print. -/

namespace DeviceShell

def faultOf : IO.Error → Program.ReadFault
  | .inappropriateType _ code _ => if code = 21 then .isFolder else .notFolder
  | .invalidArgument _ _ _ => .nameTooLong
  | .permissionDenied _ _ _ => .forbidden
  | _ => .notFound

def contentsOf (path : String) : IO (Except Program.ReadFault Bytes) := do
  try
    return .ok (← IO.FS.readBinFile path).data.toList
  catch fault =>
    return .error (faultOf fault)

def drainStream (stream : IO.FS.Stream) : IO Bytes := do
  let mut all := ByteArray.empty
  repeat
    let more ← stream.read 4096
    if more.isEmpty then break
    all := all ++ more
  return all.data.toList

end DeviceShell

open DeviceShell in
/-- A configuration file may be given as the first argument. -/
def main (args : List String) : IO UInt32 := do
  let config ← match args with
    | [] => pure (.ok {})
    | path :: _ => pure (Program.configOfFile path (← contentsOf path))
  match Program.start config (← drainStream (← IO.getStdin)) with
  | .error .fieldTooWide => return 101
  | .error .endless =>
    repeat IO.sleep 1000
    return 0
  | .ok outcome =>
    (← IO.getStdout).write ⟨outcome.output.toArray⟩
    (← IO.getStderr).putStr outcome.errors
    return outcome.exit
