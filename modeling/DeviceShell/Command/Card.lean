import DeviceShell.Device.Facts
import DeviceShell.Monitor.Share
import DeviceShell.Monitor.Snapshot
import DeviceShell.Terminal.Escape
import DeviceShell.Text.Align

/-! The summary card: a picture of a chip at the left, facts about the device at the right. -/

namespace DeviceShell.Command.Card

def picture : List String :=
  ["   ┌─┴─┴─┴─┴─┴─┐",
   "  ─┤           ├─",
   "  ─┤  ▄▄▄ ▄▄▄  ├─",
   "  ─┤  █ █ █▄▄  ├─",
   "  ─┤  █▄█ ▄▄█  ├─",
   "  ─┤           ├─",
   "   └─┬─┬─┬─┬─┬─┘",
   ""]

/-- The picture's columns, and four more to the facts. -/
def pictureWidth : Nat := (picture.map String.length).foldl max 0 + 4

def fact (heading value : String) : String := heading ++ Escape.plain ++ ": " ++ value

def palette : String :=
  String.join (["30", "31", "32", "33", "34", "35", "36", "37"].map fun number =>
    Escape.colour number ++ "███")

def memory (heap : Monitor.Heap) : String :=
  Text.decimal heap.used.toNat ++ " / " ++ Text.decimal heap.total.toNat ++ " B (" ++
    Text.decimal (Monitor.percent heap.used heap.total).toNat ++ "%)"

/-- What stands at the right, line by line. -/
def facts (device : Facts) (heap : Monitor.Heap) (clock : UInt64) : List String :=
  ["you" ++ Escape.plain ++ "@" ++ Escape.accent ++ device.name,
   Escape.plain ++ Text.repeated (device.name.length + 4) '-',
   fact "OS" ("devcli " ++ device.firmware),
   fact "Host" (device.model ++ " " ++ device.name),
   fact "Kernel" "FreeRTOS",
   fact "Uptime" (Monitor.uptimeOfMillis clock),
   fact "Shell" "devcli",
   fact "Memory" (memory heap),
   "",
   palette]

/-- Both sides of each line, for as many lines as there are facts. -/
def lines : List String → List String → List String
  | _, [] => []
  | picture, fact :: facts =>
    (Escape.accent ++ Text.alignLeft pictureWidth (picture.headD "") ++ fact ++ "\r\n") ::
      lines picture.tail facts

def render (device : Facts) (heap : Monitor.Heap) (clock : UInt64) : String :=
  String.join (lines picture (facts device heap clock)) ++ Escape.plain

end DeviceShell.Command.Card
