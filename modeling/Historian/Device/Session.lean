import Historian.Device.Command

/-!
# Command sessions

A session is a text of commands, one on a line.  Blank lines and the white space
around a command are ignored; every other line has a reply, in order.
-/

namespace Historian.Device

/-- The commands of a session. -/
def commandLines (text : String) : List String :=
  ((Text.splitAt '\n' text.toList).map Text.trim).filterMap fun line =>
    if line.isEmpty then none else some (String.ofList line)

/-- Answers the commands of a list, one after the other. -/
def answerAll (device : Device) (now : Reading) : List String → Device × List Json
  | [] => (device, [])
  | line :: rest =>
      let outcome := device.answer line now
      let (final, replies) := answerAll outcome.device now rest
      (final, outcome.reply :: replies)

/-- Answers the commands of a session. -/
def session (device : Device) (now : Reading) (text : String) : Device × List Json :=
  device.answerAll now (commandLines text)

end Historian.Device
