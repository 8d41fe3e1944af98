import WordMachine.Device.Console

/-!
# Terminals

A terminal is a console whose lines are typed while the program runs. A request for input shows the
prompt and is left waiting; a line that is typed then gives the reply, unless it is no word.
-/

namespace WordMachine.Console

/-- Consoles without lines of their own as devices. -/
def terminal : Device Console :=
  { request := fun c => (.wait, c.print prompt), emit }

/-- The reply that a typed line gives, if it gives one. -/
def replyTo (line : List Char) : Option Reply :=
  match readLine line with
  | .ok word => some (.value word.toInt)
  | .error _ => none

end WordMachine.Console
