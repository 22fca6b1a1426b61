/-! The terminal control sequences in use. -/

namespace DeviceShell.Escape

def clearScreen : String := "\x1b[2J"

def cursorHome : String := "\x1b[H"

/-- Put the cursor at the top left, with the position spelled out. -/
def cursorOrigin : String := "\x1b[0;0f"

def hideCursor : String := "\x1b[?25l"

def showCursor : String := "\x1b[?25h"

def clearLineEnd : String := "\x1b[0K"

def plain : String := "\x1b[0m"

def accent : String := "\x1b[38;5;208m"

/-- Change to one of the terminal's own colours. -/
def colour (number : String) : String := "\x1b[" ++ number ++ "m"

end DeviceShell.Escape
