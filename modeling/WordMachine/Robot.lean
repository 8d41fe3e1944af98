import Std.Data.TreeMap
import WordMachine.Device

/-!
# The painting robot

A robot stands on an endless hull of black panels and faces up. It takes commands in turn: first a
colour for the panel it stands on, then a turn to the left or right, after which it moves one panel
ahead. A command that does not exist is refused and changes nothing. Its camera sees the colour of
the panel it stands on.
-/

namespace WordMachine

/-- A panel's place on the hull; `y` grows downwards. -/
structure Point where
  -- Panels to the right of the start.
  x : Int
  -- Panels below the start.
  y : Int
  deriving DecidableEq, Repr

namespace Point

def origin : Point := ⟨0, 0⟩

def add (p q : Point) : Point :=
  ⟨p.x + q.x, p.y + q.y⟩

/-- Points are ordered by rows, from the left in each row. -/
def order : Point → Point → Ordering :=
  compareLex (compareOn Point.y) (compareOn Point.x)

end Point

inductive Color where
  | black | white
  deriving DecidableEq, Repr

namespace Color

def code : Color → Int
  | black => 0
  | white => 1

def ofCode? : Int → Option Color
  | 0 => some black
  | 1 => some white
  | _ => none

end Color

inductive Heading where
  | up | right | down | left
  deriving DecidableEq, Repr

namespace Heading

def step : Heading → Point
  | up => ⟨0, -1⟩
  | right => ⟨1, 0⟩
  | down => ⟨0, 1⟩
  | left => ⟨-1, 0⟩

def turnRight : Heading → Heading
  | up => right
  | right => down
  | down => left
  | left => up

def turnLeft : Heading → Heading
  | up => left
  | left => down
  | down => right
  | right => up

end Heading

inductive Expectation where
  | paint | turn
  deriving DecidableEq, Repr

structure Robot where
  -- The given colour of the panel it started on.
  start : Option Color := none
  -- The last colour of each panel painted.
  paint : Std.TreeMap Point Color Point.order := ∅
  position : Point := Point.origin
  heading : Heading := .up
  expecting : Expectation := .paint

namespace Robot

/-- The colour a panel had before it was painted. -/
def unpainted (r : Robot) (p : Point) : Color :=
  if p = Point.origin then r.start.getD .black else .black

def colorAt (r : Robot) (p : Point) : Color :=
  r.paint.getD p (r.unpainted p)

def paintedCount (r : Robot) : Nat :=
  r.paint.size

def apply (r : Robot) (color : Color) : Robot :=
  { r with paint := r.paint.insert r.position color, expecting := .turn }

def advance (r : Robot) (heading : Heading) : Robot :=
  { r with heading, position := r.position.add heading.step, expecting := .paint }

def command (r : Robot) (value : Int) : Except Fault Robot :=
  match r.expecting with
  | .paint =>
    match Color.ofCode? value with
    | some color => .ok (r.apply color)
    | none => .error (.badColor value)
  | .turn =>
    match value with
    | 0 => .ok (r.advance r.heading.turnLeft)
    | 1 => .ok (r.advance r.heading.turnRight)
    | _ => .error (.badTurn value)

def request (r : Robot) : Reply × Robot :=
  (.value (r.colorAt r.position).code, r)

/-- Takes an emitted value as a command. -/
def emit (value : Int) (r : Robot) : Except Fault Unit × Robot :=
  match r.command value with
  | .ok r => (.ok (), r)
  | .error why => (.error why, r)

def device : Device Robot :=
  { request, emit }

end Robot

end WordMachine
