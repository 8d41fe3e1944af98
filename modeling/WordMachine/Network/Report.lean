import WordMachine.Log.Line
import WordMachine.Network

/-!
# What networks report

A network that has produced a signal says so once.
-/

namespace WordMachine.Network

def finishedLine (wiring : Wiring) (result : NetworkResult) : Log.Line :=
  { level := .debug
    message := "Network finished"
    values := [.fields
      [("signal", .text (Text.ofInteger result.signal)), ("feedback", .bool wiring.feedback)]] }

def log (wiring : Wiring) : Verdict NetworkResult → List Log.Line
  | .finished (.ok result) => [finishedLine wiring result]
  | _ => []

end WordMachine.Network
