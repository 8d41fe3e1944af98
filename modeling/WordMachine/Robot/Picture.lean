import WordMachine.Robot

/-!
# Pictures of the hull

A picture shows the smallest box around the panels that are known: those painted, and the one the
robot started on if that panel's colour was given. It is a plain bitmap in which white panels are
`0` and black ones `1`.
-/

namespace WordMachine

structure Box where
  left : Int
  top : Int
  right : Int
  bottom : Int
  deriving DecidableEq, Repr

namespace Box

def single (p : Point) : Box :=
  ⟨p.x, p.y, p.x, p.y⟩

/-- The smallest box around another and one more panel. -/
def extend (b : Box) (p : Point) : Box :=
  ⟨min b.left p.x, min b.top p.y, max b.right p.x, max b.bottom p.y⟩

/-- The smallest box around some panels, if there are any. -/
def around? : List Point → Option Box
  | [] => none
  | p :: rest => some (rest.foldl extend (single p))

def width (b : Box) : Nat :=
  (b.right - b.left + 1).toNat

def height (b : Box) : Nat :=
  (b.bottom - b.top + 1).toNat

end Box

def Color.pixel : Color → Char
  | black => '1'
  | white => '0'

namespace Robot

/-- The panels that a picture has to show. -/
def known (r : Robot) : List Point :=
  -- The start counts once, whether it has been painted or not.
  if r.start.isSome && !r.paint.contains Point.origin then Point.origin :: r.paint.keys
  else r.paint.keys

def row (r : Robot) (b : Box) (y : Int) : String :=
  String.ofList ((List.range b.width).map fun (k : Nat) => (r.colorAt ⟨b.left + k, y⟩).pixel)

/-- The picture in the plain bitmap format: a magic number, the size, and one line per row. -/
def picture (r : Robot) : String :=
  match Box.around? r.known with
  | none => "P1\n0 0\n"
  | some b =>
    let rows := (List.range b.height).map fun (k : Nat) => r.row b (b.top + k)
    let size := toString b.width ++ " " ++ toString b.height
    String.join (("P1" :: size :: rows).map (· ++ "\n"))

end Robot

end WordMachine
