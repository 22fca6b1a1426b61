import DeviceShell.Json.Token
import DeviceShell.Text.Numeral

/-! Writing JSON without gaps. -/

namespace DeviceShell.Json

/-- A character inside a text: quotes, backslashes and control characters are escaped. -/
def writeChar (c : Char) : List Char :=
  if c = quote ∨ c = backslash then [backslash, c]
  else if c = '\x08' then [backslash, 'b']
  else if c = '\x0c' then [backslash, 'f']
  else if c = '\n' then [backslash, 'n']
  else if c = '\r' then [backslash, 'r']
  else if c = '\t' then [backslash, 't']
  else if c < ' ' then [backslash, 'u'] ++ Text.hexadecimal 4 c.toNat
  else [c]

def writeText (text : String) : List Char :=
  quote :: (text.toList.flatMap writeChar ++ [quote])

def Datum.write : Datum → List Char
  | .natural n => (Text.decimal n.toNat).toList
  | .text t => writeText t

def writeMember (key : String) (datum : Datum) : List Char := writeText key ++ ':' :: datum.write

def writeObject (members : List (String × Datum)) : List Char :=
  openCurly ::
    (List.intercalate [','] (members.map fun m => writeMember m.1 m.2) ++ [closeCurly])

end DeviceShell.Json
