import Mathlib.Data.List.AList
import WordMachine.Proofs.Device.Coupling
import WordMachine.Proofs.Robot.Picture
import WordMachine.Proofs.Text.Numeral

/-!
# Robots that keep panels by key

A robot can keep its panels under the texts of their coordinates, remember apart from them which keys
have been painted, and count its heading clockwise from up. This is `Robot.Keyed`. No two panels have the
same key (`Point.key_injective`), so such a robot and a `Robot` are the same to whoever steers them and to
whoever looks at them afterwards: `Robot.Keyed.run_alike` and `Robot.Keyed.looks_after`.
-/

namespace WordMachine

/-- The key of a panel: its coordinates with a comma between them. -/
def Point.key (p : Point) : String :=
  Text.ofInteger p.x ++ "," ++ Text.ofInteger p.y

/-- This is why the comma in a key tells where the first coordinate ends. -/
theorem Text.comma_notMem_ofInteger (value : Int) : ',' ∉ (ofInteger value).toList := by
  intro h
  have hcases := (denotes_ofInteger value).digit_or_sign ',' h
  revert hcases
  decide

/-- Panels are never mixed up, however far the robot goes. -/
theorem Point.key_injective : Function.Injective Point.key := by
  rintro ⟨x, y⟩ ⟨x', y'⟩ h
  have hchars : (Text.ofInteger x).toList ++ ',' :: (Text.ofInteger y).toList =
      (Text.ofInteger x').toList ++ ',' :: (Text.ofInteger y').toList := by
    simpa [Point.key] using congrArg String.toList h
  rcases (List.append_cons_inj_of_notMem (Text.comma_notMem_ofInteger x)
    (Text.comma_notMem_ofInteger y)).mp hchars with ⟨hx, -, hy⟩
  rw [Text.ofInteger_injective (String.toList_inj.mp hx),
    Text.ofInteger_injective (String.toList_inj.mp hy)]

namespace Robot

/-! ## Robots with keys -/

structure Panel where
  place : Point
  color : Color
  deriving DecidableEq, Repr

def headings : List Point :=
  [⟨0, -1⟩, ⟨1, 0⟩, ⟨0, 1⟩, ⟨-1, 0⟩]

structure Keyed where
  -- The panels whose colour was given or painted, under their keys.
  panels : AList fun _ : String => Panel := ∅
  -- The keys of the panels painted at least once.
  painted : Finset String := ∅
  current : Point := Point.origin
  headingIndex : Nat := 0
  expecting : Expectation := .paint

namespace Keyed

/-- A robot whose first panel may have a given colour. -/
def start : Option Color → Keyed
  | none => {}
  | some color => { panels := AList.insert Point.origin.key ⟨Point.origin, color⟩ ∅ }

def direction (k : Keyed) : Point :=
  headings.getD k.headingIndex Point.origin

def paintedCount (k : Keyed) : Nat :=
  k.painted.card

def colorAt (k : Keyed) (p : Point) : Color :=
  ((k.panels.lookup p.key).map Panel.color).getD .black

def apply (k : Keyed) (color : Color) : Keyed :=
  { k with
    panels := k.panels.insert k.current.key ⟨k.current, color⟩
    painted := insert k.current.key k.painted
    expecting := .turn }

def advance (k : Keyed) (headingIndex : Nat) : Keyed :=
  let turned := { k with headingIndex }
  { turned with current := k.current.add turned.direction, expecting := .paint }

def emit (value : Int) (k : Keyed) : Except Fault Unit × Keyed :=
  match k.expecting with
  | .paint =>
    match Color.ofCode? value with
    | some color => (.ok (), k.apply color)
    | none => (.error (.badColor value), k)
  | .turn =>
    if value = 0 then (.ok (), k.advance ((k.headingIndex + headings.length - 1) % headings.length))
    else if value = 1 then (.ok (), k.advance ((k.headingIndex + 1) % headings.length))
    else (.error (.badTurn value), k)

def device : Device Keyed where
  request k := (.value (k.colorAt k.current).code, k)
  emit := emit

def places (k : Keyed) : List Point :=
  k.panels.entries.map fun entry => entry.2.place

/-- The least and the greatest coordinates of the panels, if there are any. -/
def box? (k : Keyed) : Option Box := do
  let xs := k.places.map Point.x
  let ys := k.places.map Point.y
  return ⟨← xs.min?, ← ys.min?, ← xs.max?, ← ys.max?⟩

/-- The picture, put together from its lines and an empty one at the end. -/
def render (k : Keyed) : String :=
  match k.box? with
  | none => "P1\n0 0\n"
  | some b =>
    let rows := (List.range b.height).map fun (j : Nat) =>
      String.ofList ((List.range b.width).map fun (i : Nat) =>
        if k.colorAt ⟨b.left + i, b.top + j⟩ = .white then '0' else '1')
    let size := toString b.width ++ " " ++ toString b.height
    "\n".intercalate (["P1", size] ++ rows ++ [""])

end Keyed

/-! ## Side by side -/

/-- The number of turns to the right that lead from up to a heading. -/
def indexOf : Heading → Nat
  | .up => 0
  | .right => 1
  | .down => 2
  | .left => 3

/-- Turning left is turning right three times, which keeps the index a natural number. -/
theorem indexOf_turnLeft (heading : Heading) :
    (indexOf heading + headings.length - 1) % headings.length = indexOf heading.turnLeft := by
  cases heading <;> rfl

theorem indexOf_turnRight (heading : Heading) :
    (indexOf heading + 1) % headings.length = indexOf heading.turnRight := by
  cases heading <;> rfl

def known? (r : Robot) (p : Point) : Option Color :=
  (r.paint[p]?).or (if p = Point.origin then r.start else none)

/-- A panel of which nothing is known is black. -/
theorem colorAt_eq_known? (r : Robot) (p : Point) : r.colorAt p = (r.known? p).getD .black := by
  rw [colorAt, Std.TreeMap.getD_eq_getD_getElem?, known?, unpainted]
  cases r.paint[p]? with
  | some color => rfl
  | none => split <;> rfl

/-- Painting is known of the panel below the robot alone. -/
theorem known?_apply (r : Robot) (color : Color) (p : Point) :
    (r.apply color).known? p = if r.position = p then some color else r.known? p := by
  simp only [known?, apply, Std.TreeMap.getElem?_insert, Std.LawfulEqCmp.compare_eq_iff_eq]
  split <;> rfl

theorem mem_known_iff_known? (r : Robot) (p : Point) : p ∈ r.known ↔ (r.known? p).isSome = true := by
  rw [mem_known_iff, known?, Std.TreeMap.mem_iff_isSome_getElem?]
  by_cases horigin : p = Point.origin <;> simp [horigin, or_comm]

theorem known?_start (given : Option Color) (p : Point) :
    known? { start := given } p = if Point.origin = p then given else none := by
  by_cases horigin : Point.origin = p
  · subst horigin
    rfl
  · simp [known?, horigin, Ne.symm horigin]

/-- The colours of panels are kept under the keys of the panels. -/
def Keeps (panels : AList fun _ : String => Panel) (color? : Point → Option Color) : Prop :=
  ∀ key panel, panels.lookup key = some panel ↔
    key = panel.place.key ∧ color? panel.place = some panel.color

section Keeps

variable {panels : AList fun _ : String => Panel} {color? : Point → Option Color}

theorem keeps_empty : Keeps ∅ fun _ => none := by
  intro key panel
  simp

/-- Keeping one more panel, or keeping it anew. Different panels have different keys. -/
theorem Keeps.insert (h : Keeps panels color?) (p : Point) (color : Color) :
    Keeps (panels.insert p.key ⟨p, color⟩) fun q => if p = q then some color else color? q := by
  rintro key ⟨q, shade⟩
  by_cases hkey : key = p.key
  · subst hkey
    by_cases hplace : p = q
    · subst hplace
      simp
    · have hkeys : p.key ≠ q.key := fun heq => hplace (Point.key_injective heq)
      simp [hplace, hkeys]
  · rw [AList.lookup_insert_ne hkey, h]
    refine and_congr_right fun hplace => ?_
    have hother : p ≠ q := fun heq => hkey (heq ▸ hplace)
    simp [hother]

/-- A key that is some panel's finds that panel. -/
theorem Keeps.lookup_key (h : Keeps panels color?) (p : Point) :
    panels.lookup p.key = (color? p).map (Panel.mk p) := by
  refine Option.ext fun panel => ?_
  rw [h, Option.map_eq_some_iff]
  constructor
  · rintro ⟨hkey, hcolor⟩
    rw [Point.key_injective hkey]
    exact ⟨panel.color, hcolor, rfl⟩
  · rintro ⟨color, hcolor, rfl⟩
    exact ⟨rfl, hcolor⟩

/-- The panels that are kept are those of which a colour is known, in whatever order they are kept. -/
theorem Keeps.mem_places_iff (h : Keeps panels color?) (p : Point) :
    p ∈ panels.entries.map (fun entry => entry.2.place) ↔ (color? p).isSome = true := by
  simp only [List.mem_map, Sigma.exists, Option.isSome_iff_exists]
  constructor
  · rintro ⟨key, panel, hentry, rfl⟩
    exact ⟨panel.color, ((h key panel).mp (AList.mem_lookup_iff.mpr hentry)).2⟩
  · rintro ⟨color, hcolor⟩
    exact ⟨p.key, ⟨p, color⟩, AList.mem_lookup_iff.mp ((h _ _).mpr ⟨rfl, hcolor⟩), rfl⟩

end Keeps

namespace Keyed

variable {k : Keyed} {r : Robot} {color : Color} {value : Int}

/-- The robots have painted alike and stand alike. -/
structure Mirrors (k : Keyed) (r : Robot) : Prop where
  expecting_eq : k.expecting = r.expecting
  current_eq : k.current = r.position
  headingIndex_eq : k.headingIndex = indexOf r.heading
  keeps : Keeps k.panels r.known?
  painted_eq : k.painted = r.paint.keys.toFinset.image Point.key

theorem mirrors_start (given : Option Color) : (start given).Mirrors { start := given } where
  expecting_eq := by cases given <;> rfl
  current_eq := by cases given <;> rfl
  headingIndex_eq := by cases given <;> rfl
  keeps := by
    rw [funext (known?_start given)]
    cases given with
    | none =>
        simp only [ite_self]
        exact keeps_empty
    | some color => exact keeps_empty.insert Point.origin color
  painted_eq := by cases given <;> rfl

theorem Mirrors.colorAt_eq (h : k.Mirrors r) (p : Point) : k.colorAt p = r.colorAt p := by
  rw [colorAt, h.keeps.lookup_key, colorAt_eq_known?, Option.map_map]
  cases r.known? p <;> rfl

/-- A set of keys has as many members as different panels have been painted. -/
theorem Mirrors.paintedCount_eq (h : k.Mirrors r) : k.paintedCount = r.paintedCount := by
  rw [paintedCount, h.painted_eq, Finset.card_image_of_injective _ Point.key_injective,
    List.toFinset_card_of_nodup Std.TreeMap.nodup_keys, Std.TreeMap.length_keys]
  rfl

theorem direction_of_index {heading : Heading} (h : k.headingIndex = indexOf heading) :
    k.direction = heading.step := by
  rw [direction, h]
  cases heading <;> rfl

theorem Mirrors.apply (h : k.Mirrors r) (color : Color) : (k.apply color).Mirrors (r.apply color) where
  expecting_eq := rfl
  current_eq := h.current_eq
  headingIndex_eq := h.headingIndex_eq
  keeps := by
    rw [funext (known?_apply r color), ← h.current_eq]
    exact h.keeps.insert k.current color
  painted_eq := by
    have hkeys : (r.apply color).paint.keys.toFinset = insert r.position r.paint.keys.toFinset := by
      ext p
      rw [List.mem_toFinset, Std.TreeMap.mem_keys, Robot.apply, Std.TreeMap.mem_insert,
        Std.LawfulEqCmp.compare_eq_iff_eq, Finset.mem_insert, List.mem_toFinset, Std.TreeMap.mem_keys,
        eq_comm]
    rw [hkeys, Finset.image_insert, ← h.painted_eq, ← h.current_eq]
    rfl

theorem Mirrors.advance (h : k.Mirrors r) {index : Nat} {heading : Heading}
    (hindex : index = indexOf heading) : (k.advance index).Mirrors (r.advance heading) where
  expecting_eq := rfl
  current_eq := by
    have hdirection : ({ k with headingIndex := index } : Keyed).direction = heading.step :=
      direction_of_index hindex
    rw [Robot.advance, ← hdirection, ← h.current_eq]
    rfl
  headingIndex_eq := hindex
  keeps := h.keeps
  painted_eq := h.painted_eq

/-- A number is followed by both robots or refused by both, for the same reason. -/
theorem Mirrors.emit (h : k.Mirrors r) (value : Int) :
    (emit value k).1 = (Robot.emit value r).1 ∧ (emit value k).2.Mirrors (Robot.emit value r).2 := by
  unfold Keyed.emit Robot.emit Robot.command
  rw [h.expecting_eq]
  cases r.expecting with
  | paint =>
      cases Color.ofCode? value with
      | none => exact ⟨rfl, h⟩
      | some color => exact ⟨rfl, h.apply color⟩
  | turn =>
      by_cases hleft : value = 0
      · subst hleft
        exact ⟨rfl, h.advance (h.headingIndex_eq ▸ indexOf_turnLeft r.heading)⟩
      · by_cases hright : value = 1
        · subst hright
          exact ⟨rfl, h.advance (h.headingIndex_eq ▸ indexOf_turnRight r.heading)⟩
        · simp only [if_neg hleft, if_neg hright]
          exact ⟨trivial, h⟩

/-! ## Pictures -/

/-- The smallest box can be found coordinate by coordinate. -/
theorem foldl_extend_eq (l : List Point) (b : Box) : l.foldl Box.extend b =
    ⟨(l.map Point.x).foldl min b.left, (l.map Point.y).foldl min b.top,
      (l.map Point.x).foldl max b.right, (l.map Point.y).foldl max b.bottom⟩ := by
  induction l generalizing b with
  | nil => rfl
  | cons p l ih => exact ih (b.extend p)

/-- Taking the coordinates apart makes the same box. -/
theorem box?_eq (k : Keyed) : k.box? = Box.around? k.places := by
  unfold box?
  cases k.places with
  | nil => rfl
  | cons p l =>
      simp only [List.map_cons, List.min?_cons', List.max?_cons', Box.around?, foldl_extend_eq]
      rfl

/-- Only least and greatest coordinates are taken, so the order of the panels is no matter. -/
theorem Mirrors.box?_eq (h : k.Mirrors r) : k.box? = Box.around? r.known := by
  rw [Keyed.box?_eq]
  refine Box.around?_congr fun p => ?_
  rw [places, h.keeps.mem_places_iff, mem_known_iff_known?]

/-- The lines of a text end where the next one would begin. -/
theorem intercalate_append_empty (lines : List String) :
    "\n".intercalate (lines ++ [""]) = String.join (lines.map (· ++ "\n")) := by
  induction lines with
  | nil => simp
  | cons line lines ih =>
      rw [List.cons_append, String.intercalate_cons_of_ne_nil (by simp), ih, List.map_cons,
        String.join_cons]

theorem Mirrors.render_eq (h : k.Mirrors r) : k.render = r.picture := by
  have hpixel : ∀ color : Color, (if color = .white then '0' else '1') = color.pixel := by
    intro color
    cases color <;> rfl
  unfold render picture
  rw [h.box?_eq]
  cases Box.around? r.known with
  | none => rfl
  | some b =>
      simp only [h.colorAt_eq, hpixel, intercalate_append_empty]
      rfl

/-! ## Whatever is sent -/

/-- Nothing that can be seen of the robots differs. -/
structure Looks (k : Keyed) (r : Robot) : Prop where
  request_eq : (device.request k).1 = r.request.1
  emit_eq : ∀ value, (emit value k).1 = (Robot.emit value r).1
  position_eq : k.current = r.position
  direction_eq : k.direction = r.heading.step
  paintedCount_eq : k.paintedCount = r.paintedCount
  colorAt_eq : ∀ p, k.colorAt p = r.colorAt p
  render_eq : k.render = r.picture

theorem Mirrors.looks (h : k.Mirrors r) : k.Looks r where
  request_eq := by simp only [device, request, h.colorAt_eq, h.current_eq]
  emit_eq := fun value => (h.emit value).1
  position_eq := h.current_eq
  direction_eq := direction_of_index h.headingIndex_eq
  paintedCount_eq := h.paintedCount_eq
  colorAt_eq := h.colorAt_eq
  render_eq := h.render_eq

/-- After any numbers the two robots look the same. -/
theorem looks_after (given : Option Color) (values : List Int) :
    (values.foldl (fun k value => (emit value k).2) (start given)).Looks (sent given values) := by
  have hmirrors : (values.foldl (fun k value => (emit value k).2) (start given)).Mirrors
      (sent given values) := by
    induction values using List.reverseRecOn with
    | nil => exact mirrors_start given
    | append_singleton values value ih =>
        simpa [sent] using (ih.emit value).2
  exact hmirrors.looks

/-- An engine cannot tell which of the two robots it steers. -/
theorem couples : device.Couples Robot.device Mirrors where
  request _ _ h _ := h
  emit _ _ w h := h.emit w.toInt

/-- A program on one robot sees what it would see on the other. -/
theorem alike (h : k.Mirrors r) : (device.request k).1.Alike (Robot.device.request r).1 := by
  have hrequest : (device.request k).1 = (Robot.device.request r).1 := h.looks.request_eq
  rw [hrequest]
  exact .value rfl

/-- A program that steers the one robot or the other comes to the same, and the robots look the same
when it is through. -/
theorem run_alike (e : Engine) (given : Option Color) (fuel : Nat) :
    (e.run device fuel (start given) = none ∧ e.run Robot.device fuel { start := given } = none) ∨
      ∃ e' k r result, e.run device fuel (start given) = some (e', k, result) ∧
        e.run Robot.device fuel { start := given } = some (e', r, result) ∧ k.Looks r := by
  have hruns := couples.runOn_of_alike (e := e.begin) (fun _ _ h => alike h) (mirrors_start given) fuel
  rcases hruns with hnone | ⟨e', k, r, result, hkeyed, hrobot, hmirrors⟩
  · exact .inl hnone
  · exact .inr ⟨e', k, r, result, hkeyed, hrobot, hmirrors.looks⟩

end Keyed

end Robot

end WordMachine
