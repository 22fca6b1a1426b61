import DeviceShell.Json.Lexer
import DeviceShell.Json.Outline
import DeviceShell.Json.Written

/-! What is asked of a JSON library. -/

namespace DeviceShell.Json

structure Library where
  /-- The outline of a text, if it is a JSON text. -/
  outline? : String → Option (Option Bracket × List Member)
  /-- The text of an object that has these members, in this order. -/
  writeObject : List (String × Datum) → String

/-- A text is cut into tokens, and these are outlined. Objects are written without gaps. -/
def Library.standard : Library where
  outline? text := (tokens? text).bind Json.outline?
  writeObject members := String.ofList (Json.writeObject members)

end DeviceShell.Json
