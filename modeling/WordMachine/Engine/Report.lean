import WordMachine.Engine
import WordMachine.Log.Line

/-!
# What engines report

Each event of an engine is a log line under the engine's name.
-/

namespace WordMachine

def Event.line (name : String) : Event → Log.Line
  | .runStarted length =>
    { level := .debug
      message := name ++ ": run started"
      values := [.fields [("programLength", .number (.ofInt length))]] }
  | .executing pc instruction base =>
    { level := .debug
      message := name ++ " " ++ toString pc ++ ": " ++ instruction.text
      values := [.fields [("relativeBase", .text base.text)]] }
  | .stopped result =>
    let stop : Stop := match result.ending with
      | .halt => .halted
      | .endOfStream => .ended
    { level := .debug
      message := name ++ ": " ++ stop.text
      values := [.fields [("steps", .number (.ofInt result.steps))]] }
  | .faulted pc why =>
    { level := .error
      message := name ++ ": faulted at pc " ++ toString pc
      values := [.fault why] }

def Engine.log (e : Engine) : List Log.Line :=
  e.events.toList.map (Event.line e.name)

end WordMachine
