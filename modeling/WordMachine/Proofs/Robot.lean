import Mathlib.Data.Finset.Card
import WordMachine.Robot

/-!
# Where a robot has been and what it has painted

The numbers sent to a robot are a list of commands. Zeros and ones are followed, read as a colour and as
a turn in alternation, and all other numbers are refused. The list alone says everything about the robot
behind it: the turns give the directions, the directions add up to the place, and each colour goes to
the place that the commands before it lead to.

* `Robot.Follows.emit` and `Robot.follows_sent`: one number, and then any list of them, keeps robot and
  commands together;
* `Robot.obeys_sent` puts together what is seen of the robot then.
-/

namespace WordMachine

namespace Robot

/-! ## Commands -/

inductive Side where
  | left | right
  deriving DecidableEq, Repr

/-- A direction after a turn by a right angle. What lies below has the greater `y`. -/
def Side.rotate : Side → Point → Point
  | left, d => ⟨d.y, -d.x⟩
  | right, d => ⟨-d.y, d.x⟩

inductive Command where
  | paint (color : Color)
  | turn (side : Side)
  deriving DecidableEq, Repr

namespace Command

/-- The meaning of a zero or a one as command number `k`, counted from zero: colours and turns take
turns. -/
def ofNumber (k : Nat) (value : Int) : Command :=
  if k % 2 = 0 then .paint (if value = 0 then .black else .white)
  else .turn (if value = 0 then .left else .right)

def among (values : List Int) : List Command :=
  (values.filter fun v => v = 0 ∨ v = 1).mapIdx ofNumber

def color? : Command → Option Color
  | paint color => some color
  | turn _ => none

def side? : Command → Option Side
  | paint _ => none
  | turn side => some side

def due (cs : List Command) : Expectation :=
  if cs.length % 2 = 0 then .paint else .turn

def sides (cs : List Command) : List Side :=
  cs.filterMap side?

/-- The direction after all turns; up before the first. -/
def facing (cs : List Command) : Point :=
  (sides cs).foldl (fun d side => side.rotate d) ⟨0, -1⟩

def legs (cs : List Command) : List Point :=
  ((sides cs).scanl (fun d side => side.rotate d) ⟨0, -1⟩).tail

/-- The place to which the commands lead: one step in the direction after each turn. -/
def place (cs : List Command) : Point :=
  (legs cs).foldl Point.add Point.origin

/-- The colours in order, each with the place to which the commands before it lead. -/
def strokes (cs : List Command) : List (Point × Color) :=
  cs.zipIdx.filterMap fun p => p.1.color?.map fun color => (place (cs.take p.2), color)

def painted (cs : List Command) : List Point :=
  (strokes cs).map Prod.fst

def lastColor? (cs : List Command) (p : Point) : Option Color :=
  (((strokes cs).filter fun stroke => stroke.1 = p).getLast?).map Prod.snd

variable {cs : List Command} {values : List Int} {value : Int} {color : Color} {side : Side} {p : Point}

theorem among_append_of_command (h : value = 0 ∨ value = 1) :
    among (values ++ [value]) = among values ++ [ofNumber (among values).length value] := by
  have hlast : [value].filter (fun v => v = 0 ∨ v = 1) = [value] := by simp [h]
  rw [among, List.filter_append, hlast, List.mapIdx_concat, among, List.length_mapIdx]

/-- A number that is no command is not counted, so colours and turns go on alternating as if it had
not been sent. -/
theorem among_append_of_other (h : ¬ (value = 0 ∨ value = 1)) :
    among (values ++ [value]) = among values := by
  have hlast : [value].filter (fun v => v = 0 ∨ v = 1) = [] := by simp [h]
  rw [among, List.filter_append, hlast, List.append_nil, among]

theorem ofNumber_of_due_paint (h : due cs = .paint) :
    ofNumber cs.length value = .paint (if value = 0 then .black else .white) := by
  have heven : cs.length % 2 = 0 := by
    by_contra hodd
    simp [due, hodd] at h
  simp [ofNumber, heven]

theorem ofNumber_of_due_turn (h : due cs = .turn) :
    ofNumber cs.length value = .turn (if value = 0 then .left else .right) := by
  have hodd : cs.length % 2 ≠ 0 := by
    intro heven
    simp [due, heven] at h
  simp [ofNumber, hodd]

/-- A colour is followed by a turn. -/
theorem due_append_of_paint (h : due cs = .paint) (c : Command) : due (cs ++ [c]) = .turn := by
  unfold due at h ⊢
  rw [List.length_append, List.length_singleton]
  split at h
  · rw [if_neg (by omega)]
  · cases h

/-- A turn is followed by a colour. -/
theorem due_append_of_turn (h : due cs = .turn) (c : Command) : due (cs ++ [c]) = .paint := by
  unfold due at h ⊢
  rw [List.length_append, List.length_singleton]
  split at h
  · cases h
  · rw [if_pos (by omega)]

/-! ## Where commands lead -/

@[simp] theorem sides_append_paint : sides (cs ++ [.paint color]) = sides cs := by
  have hnone : [Command.paint color].filterMap side? = [] := rfl
  rw [sides, List.filterMap_append, hnone, List.append_nil, sides]

@[simp] theorem sides_append_turn : sides (cs ++ [.turn side]) = sides cs ++ [side] := by
  have hside : [Command.turn side].filterMap side? = [side] := rfl
  rw [sides, List.filterMap_append, hside, sides]

@[simp] theorem facing_append_paint : facing (cs ++ [.paint color]) = facing cs := by
  simp [facing]

@[simp] theorem facing_append_turn : facing (cs ++ [.turn side]) = side.rotate (facing cs) := by
  simp [facing]

theorem legs_append_turn : legs (cs ++ [.turn side]) = legs cs ++ [side.rotate (facing cs)] := by
  have hsome : (sides cs).scanl (fun d side => side.rotate d) ⟨0, -1⟩ ≠ [] := by
    simp
  simp [legs, facing, List.scanl_append, List.tail_append_of_ne_nil hsome]

@[simp] theorem place_append_paint : place (cs ++ [.paint color]) = place cs := by
  simp [place, legs]

@[simp] theorem place_append_turn :
    place (cs ++ [.turn side]) = (place cs).add (side.rotate (facing cs)) := by
  simp [place, legs_append_turn]

/-- What has been painted is not changed by a further command. -/
theorem strokes_append (cs : List Command) (c : Command) :
    strokes (cs ++ [c]) = strokes cs ++ (c.color?.map fun color => (place cs, color)).toList := by
  have hearlier : cs.zipIdx.filterMap
      (fun p => p.1.color?.map fun color => (place ((cs ++ [c]).take p.2), color)) = strokes cs := by
    refine List.filterMap_congr fun p hp => ?_
    have hlength : p.2 ≤ cs.length := (List.snd_lt_of_mem_zipIdx hp).le
    rw [List.take_append_of_le_length hlength]
  have hlast : ([c].zipIdx (0 + cs.length)).filterMap
      (fun p => p.1.color?.map fun color => (place ((cs ++ [c]).take p.2), color)) =
        (c.color?.map fun color => (place cs, color)).toList := by
    cases c with
    | paint color => simp [color?]
    | turn side => simp [color?]
  rw [strokes, List.zipIdx_append, List.filterMap_append, hearlier, hlast]

theorem lastColor?_append_paint :
    lastColor? (cs ++ [.paint color]) p = if place cs = p then some color else lastColor? cs p := by
  by_cases hplace : place cs = p
  · simp [lastColor?, strokes_append, color?, hplace]
  · simp [lastColor?, strokes_append, color?, hplace]

@[simp] theorem lastColor?_append_turn : lastColor? (cs ++ [.turn side]) p = lastColor? cs p := by
  simp [lastColor?, strokes_append, color?]

/-- A panel has a last colour exactly if it has been painted. -/
theorem isSome_lastColor?_iff : (lastColor? cs p).isSome = true ↔ p ∈ painted cs := by
  simp only [lastColor?, Option.isSome_map, Option.isSome_iff_ne_none, ne_eq, List.getLast?_eq_none_iff,
    List.filter_eq_nil_iff, decide_eq_true_eq, not_forall, not_not, painted, List.mem_map, exists_prop]

/-- Colours and turns alternate, and a colour comes first. -/
theorem exists_paint_iff (values : List Int) (k : Nat) (h : k < (among values).length) :
    (∃ color, (among values)[k] = .paint color) ↔ k % 2 = 0 := by
  simp only [among, List.getElem_mapIdx, ofNumber]
  split
  · rename_i heven
    simp [heven]
  · rename_i hodd
    simp [hodd]

end Command

/-! ## Robots -/

open Command

variable {r : Robot} {start : Option Color} {cs : List Command} {values : List Int} {value : Int}

instance : Std.TransCmp Point.order :=
  inferInstanceAs (Std.TransCmp (compareLex (compareOn Point.y) (compareOn Point.x)))

/-- Only equal points have the same rank. -/
instance : Std.LawfulEqCmp Point.order where
  eq_of_compare := by
    rintro ⟨x, y⟩ ⟨x', y'⟩ h
    rcases compareLex_eq_eq.mp h with ⟨hy, hx⟩
    have hy' : y = y' := Std.compare_eq_iff_eq.mp hy
    have hx' : x = x' := Std.compare_eq_iff_eq.mp hx
    rw [hx', hy']

/-- The robot to which some numbers have been sent, one after another. -/
def sent (start : Option Color) (values : List Int) : Robot :=
  values.foldl (fun r value => (emit value r).2) { start }

structure Follows (r : Robot) (start : Option Color) (cs : List Command) : Prop where
  start_eq : r.start = start
  expecting_eq : r.expecting = due cs
  heading_eq : r.heading.step = facing cs
  position_eq : r.position = place cs
  paint_eq : ∀ p, r.paint[p]? = lastColor? cs p

/-- Before the first command the robot stands at the origin and looks up. -/
theorem follows_start (start : Option Color) : Follows { start } start [] where
  start_eq := rfl
  expecting_eq := rfl
  heading_eq := rfl
  position_eq := rfl
  paint_eq := fun _ => rfl

theorem Follows.paint (h : r.Follows start cs) (hdue : due cs = .paint) (color : Color) :
    (r.apply color).Follows start (cs ++ [.paint color]) where
  start_eq := h.start_eq
  expecting_eq := (due_append_of_paint hdue _).symm
  heading_eq := h.heading_eq.trans facing_append_paint.symm
  position_eq := h.position_eq.trans place_append_paint.symm
  paint_eq := by
    intro p
    simp only [Robot.apply, Std.TreeMap.getElem?_insert, Std.LawfulEqCmp.compare_eq_iff_eq, h.paint_eq,
      h.position_eq, lastColor?_append_paint]

/-- The heading behind a turn. -/
def Side.heading : Side → Heading → Heading
  | left => Heading.turnLeft
  | right => Heading.turnRight

/-- Turning the heading and turning the direction come to the same. -/
theorem Side.step_heading (side : Side) (heading : Heading) :
    (side.heading heading).step = side.rotate heading.step := by
  cases side <;> cases heading <;> rfl

theorem Follows.turn (h : r.Follows start cs) (hdue : due cs = .turn) (side : Side) :
    (r.advance (side.heading r.heading)).Follows start (cs ++ [.turn side]) where
  start_eq := h.start_eq
  expecting_eq := (due_append_of_turn hdue _).symm
  heading_eq := by simp [advance, Side.step_heading, h.heading_eq]
  position_eq := by simp [advance, Side.step_heading, h.heading_eq, h.position_eq]
  paint_eq := by
    intro p
    rw [lastColor?_append_turn]
    exact h.paint_eq p

/-- A number that is no command changes nothing. -/
theorem emit_of_other (r : Robot) (h : ¬ (value = 0 ∨ value = 1)) :
    emit value r =
      (.error (match r.expecting with | .paint => .badColor value | .turn => .badTurn value), r) := by
  rcases not_or.mp h with ⟨hzero, hone⟩
  have hcolor : Color.ofCode? value = none := by
    unfold Color.ofCode?
    split
    · exact absurd rfl hzero
    · exact absurd rfl hone
    · rfl
  unfold emit command
  cases r.expecting with
  | paint => simp only [hcolor]
  | turn => simp only

/-- A zero or a one is followed as the command that is due. -/
theorem Follows.emit_of_command (h : r.Follows start cs) (hvalue : value = 0 ∨ value = 1) :
    ∃ r' : Robot, emit value r = (.ok (), r') ∧ r'.Follows start (cs ++ [ofNumber cs.length value]) := by
  have hexpecting := h.expecting_eq
  cases hdue : due cs with
  | paint =>
      rw [ofNumber_of_due_paint hdue]
      rw [hdue] at hexpecting
      rcases hvalue with rfl | rfl
      · exact ⟨r.apply .black, by simp only [emit, command, hexpecting, Color.ofCode?], h.paint hdue _⟩
      · exact ⟨r.apply .white, by simp only [emit, command, hexpecting, Color.ofCode?], h.paint hdue _⟩
  | turn =>
      rw [ofNumber_of_due_turn hdue]
      rw [hdue] at hexpecting
      rcases hvalue with rfl | rfl
      · exact ⟨r.advance r.heading.turnLeft, by simp only [emit, command, hexpecting],
          h.turn hdue .left⟩
      · exact ⟨r.advance r.heading.turnRight, by simp only [emit, command, hexpecting],
          h.turn hdue .right⟩

/-- Step lemma: a number is a command and followed, or else refused without a trace. -/
theorem Follows.emit (h : r.Follows start (among values)) (value : Int) :
    (emit value r).2.Follows start (among (values ++ [value])) := by
  by_cases hvalue : value = 0 ∨ value = 1
  · rcases h.emit_of_command hvalue with ⟨r', hemit, hfollows⟩
    rw [hemit, among_append_of_command hvalue]
    exact hfollows
  · rw [emit_of_other r hvalue, among_append_of_other hvalue]
    exact h

/-- The run lemma over everything that has been sent. -/
theorem follows_sent (start : Option Color) (values : List Int) :
    (sent start values).Follows start (among values) := by
  induction values using List.reverseRecOn with
  | nil => exact follows_start start
  | append_singleton values value ih =>
      have hstep : sent start (values ++ [value]) = (Robot.emit value (sent start values)).2 := by
        simp [sent]
      rw [hstep]
      exact ih.emit value

/-- The numbers that a robot follows if they are sent to it one after another. -/
def followed (r : Robot) : List Int → List Int
  | [] => []
  | value :: later =>
    match Robot.emit value r with
    | (.ok (), r) => value :: r.followed later
    | (.error _, r) => r.followed later

theorem emit_eq_ok_iff (r : Robot) (value : Int) :
    (Robot.emit value r).1 = .ok () ↔ value = 0 ∨ value = 1 := by
  constructor
  · intro h
    by_contra hother
    rw [emit_of_other r hother] at h
    cases h
  · intro hvalue
    unfold Robot.emit command
    cases r.expecting <;> rcases hvalue with rfl | rfl <;> rfl

/-- Which numbers are followed does not depend on the robot. -/
theorem followed_eq (r : Robot) (values : List Int) :
    r.followed values = values.filter fun v => v = 0 ∨ v = 1 := by
  induction values generalizing r with
  | nil => rfl
  | cons value later ih =>
      have hiff := r.emit_eq_ok_iff value
      rw [followed]
      split
      · rename_i r' hemit
        rw [hemit] at hiff
        rw [List.filter_cons_of_pos (by simpa using hiff.mp rfl), ih]
      · rename_i why r' hemit
        rw [hemit] at hiff
        have hother : ¬ (value = 0 ∨ value = 1) := fun hvalue => nomatch hiff.mpr hvalue
        rw [List.filter_cons_of_neg (by simpa using hother), ih]

theorem Follows.mem_paint_iff (h : r.Follows start cs) (p : Point) : p ∈ r.paint ↔ p ∈ painted cs := by
  rw [Std.TreeMap.mem_iff_isSome_getElem?, h.paint_eq, isSome_lastColor?_iff]

/-- The start colour is seen only at the origin, and only until it is painted over. -/
theorem Follows.colorAt_eq (h : r.Follows start cs) (p : Point) :
    r.colorAt p =
      (lastColor? cs p).getD (if p = Point.origin then start.getD .black else .black) := by
  rw [colorAt, Std.TreeMap.getD_eq_getD_getElem?, h.paint_eq, unpainted, h.start_eq]

/-- Each panel is counted once, however often it has been painted. -/
theorem Follows.paintedCount_eq (h : r.Follows start cs) :
    r.paintedCount = (painted cs).toFinset.card := by
  have hkeys : r.paint.keys.toFinset = (painted cs).toFinset := by
    ext p
    rw [List.mem_toFinset, List.mem_toFinset, Std.TreeMap.mem_keys, h.mem_paint_iff]
  rw [← hkeys, List.toFinset_card_of_nodup Std.TreeMap.nodup_keys, Std.TreeMap.length_keys]
  rfl

/-- What is seen of a robot to which some numbers have been sent. -/
structure Obeys (r : Robot) (start : Option Color) (values : List Int) : Prop where
  -- The numbers that were followed are the commands.
  followed_eq : ({ start } : Robot).followed values = values.filter fun v => v = 0 ∨ v = 1
  alternate : ∀ k, (h : k < (among values).length) →
    ((∃ color, (among values)[k] = .paint color) ↔ k % 2 = 0)
  expecting_eq : r.expecting = due (among values)
  accepts_iff : ∀ value, (Robot.emit value r).1 = .ok () ↔ value = 0 ∨ value = 1
  -- A number that is refused leaves the robot as it is, with the same kind of command due.
  refuses : ∀ value, ¬ (value = 0 ∨ value = 1) → Robot.emit value r =
    (.error (match due (among values) with | .paint => .badColor value | .turn => .badTurn value), r)
  direction_eq : r.heading.step = facing (among values)
  position_eq : r.position = place (among values)
  colorAt_eq : ∀ p, r.colorAt p =
    (lastColor? (among values) p).getD (if p = Point.origin then start.getD .black else .black)
  request_eq : r.request = (.value (r.colorAt r.position).code, r)
  paintedCount_eq : r.paintedCount = (painted (among values)).toFinset.card

/-- After any numbers a robot is where the turns among them lead, faces the way of the last one, sees
the last colour that went to its panel, or the colour the panel had before, and has painted as many
panels as there are places that colours went to. -/
theorem obeys_sent (start : Option Color) (values : List Int) :
    (sent start values).Obeys start values := by
  have hfollows := follows_sent start values
  exact
    { followed_eq := followed_eq _ values
      alternate := exists_paint_iff values
      expecting_eq := hfollows.expecting_eq
      accepts_iff := emit_eq_ok_iff _
      refuses := fun value hvalue => hfollows.expecting_eq ▸ emit_of_other _ hvalue
      direction_eq := hfollows.heading_eq
      position_eq := hfollows.position_eq
      colorAt_eq := hfollows.colorAt_eq
      request_eq := rfl
      paintedCount_eq := hfollows.paintedCount_eq }

end Robot

end WordMachine
