import DeviceShell.Text.Bytes

/-! The working directory as far as the program looks at it: plain files by name. A path is
followed step by step, and the first step that cannot be taken decides what is wrong. -/

namespace DeviceShell.Program

inductive ReadFault where
  | notFound
  | notFolder
  | isFolder
  | forbidden
  | nameTooLong
  | notText
  deriving DecidableEq, Repr

def ReadFault.text : ReadFault → String
  | .notFound => "No such file or directory (os error 2)"
  | .notFolder => "Not a directory (os error 20)"
  | .isFolder => "Is a directory (os error 21)"
  | .forbidden => "Permission denied (os error 13)"
  | .nameTooLong => "File name too long (os error 36)"
  | .notText => "stream did not contain valid UTF-8"

/-- Files with their names. There are no folders inside. -/
structure Folder where
  files : List (String × Bytes) := []

namespace Folder

/-- Bytes that one name may have. -/
def nameLimit : Nat := 255

/-- Bytes that a whole path may have. -/
def pathLimit : Nat := 4095

def staysPut (step : String) : Bool := step = "." || step.isEmpty

/-- Follow the steps of a path above the folder. The way up never ends, since the topmost folder is
taken as its own parent, and nothing has a name there. -/
def followAbove : List String → ReadFault
  | [] => .isFolder
  | step :: steps =>
    if staysPut step || step = ".." then followAbove steps
    else if nameLimit < step.utf8ByteSize then .nameTooLong
    else .notFound

def follow (folder : Folder) : List String → Except ReadFault Bytes
  | [] => .error .isFolder
  | step :: steps =>
    if staysPut step then folder.follow steps
    else if step = ".." then .error (followAbove steps)
    else if nameLimit < step.utf8ByteSize then .error .nameTooLong
    else
      match folder.files.lookup step with
      | none => .error .notFound
      | some bytes => if steps.isEmpty then .ok bytes else .error .notFolder

/-- The bytes under a path. A path that begins with a slash starts at the topmost folder. -/
def read (folder : Folder) (path : String) : Except ReadFault Bytes :=
  if path.isEmpty then .error .notFound
  else if pathLimit < path.utf8ByteSize then .error .nameTooLong
  else
    match path.splitOn "/" with
    | "" :: steps => .error (followAbove steps)
    | steps => folder.follow steps

end Folder

end DeviceShell.Program
