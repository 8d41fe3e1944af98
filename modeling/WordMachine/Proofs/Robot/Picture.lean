import WordMachine.Proofs.Robot
import WordMachine.Robot.Picture

/-!
# Pictures show the hull as it is

A picture covers the smallest box around the panels that are known, one character for each panel of the
box, and every white panel lies in it. The box is found by extending it panel by panel
(`Box.bounds_around`), and the rows are its panels in order (`Box.panels`), each shown by its colour.
`Robot.picture_faithful` puts this together for every robot that numbers can lead to.

The first command that is followed paints the start. So once anything has been painted, the colour that
the start was given makes no panel known that is not painted.
-/

namespace WordMachine

/-! ## Boxes -/

namespace Box

variable {b : Box} {p : Point} {l : List Point} {P Q : Point → Prop}

structure Contains (b : Box) (p : Point) : Prop where
  left_le : b.left ≤ p.x
  le_right : p.x ≤ b.right
  top_le : b.top ≤ p.y
  le_bottom : p.y ≤ b.bottom

structure Within (b b' : Box) : Prop where
  left_le : b'.left ≤ b.left
  le_right : b.right ≤ b'.right
  top_le : b'.top ≤ b.top
  le_bottom : b.bottom ≤ b'.bottom

/-- The box is the smallest one around some panels. -/
structure Bounds (b : Box) (P : Point → Prop) : Prop where
  contains : ∀ p, P p → b.Contains p
  least : ∀ b' : Box, (∀ p, P p → b'.Contains p) → b.Within b'

theorem Bounds.congr (h : b.Bounds P) (hiff : ∀ p, Q p ↔ P p) : b.Bounds Q := by
  rw [show Q = P from funext fun p => propext (hiff p)]
  exact h

theorem bounds_single (p : Point) : (single p).Bounds (· = p) where
  contains := by
    rintro _ rfl
    exact ⟨Int.le_refl _, Int.le_refl _, Int.le_refl _, Int.le_refl _⟩
  least := by
    intro b' hb'
    have hp := hb' p rfl
    exact ⟨hp.left_le, hp.le_right, hp.top_le, hp.le_bottom⟩

/-- A box that is extended by a panel stays as small as it can be. -/
theorem Bounds.extend (h : b.Bounds P) (p : Point) : (b.extend p).Bounds fun q => P q ∨ q = p where
  contains := by
    rintro q (hq | rfl)
    · have hinside := h.contains q hq
      exact ⟨Int.le_trans (Int.min_le_left _ _) hinside.left_le,
        Int.le_trans hinside.le_right (Int.le_max_left _ _),
        Int.le_trans (Int.min_le_left _ _) hinside.top_le,
        Int.le_trans hinside.le_bottom (Int.le_max_left _ _)⟩
    · exact ⟨Int.min_le_right _ _, Int.le_max_right _ _, Int.min_le_right _ _, Int.le_max_right _ _⟩
  least := by
    intro b' hb'
    have hwithin := h.least b' fun q hq => hb' q (.inl hq)
    have hp := hb' p (.inr rfl)
    exact ⟨Int.le_min.mpr ⟨hwithin.left_le, hp.left_le⟩, Int.max_le.mpr ⟨hwithin.le_right, hp.le_right⟩,
      Int.le_min.mpr ⟨hwithin.top_le, hp.top_le⟩, Int.max_le.mpr ⟨hwithin.le_bottom, hp.le_bottom⟩⟩

theorem Bounds.foldl_extend (h : b.Bounds P) (l : List Point) :
    (l.foldl Box.extend b).Bounds fun q => P q ∨ q ∈ l := by
  induction l generalizing b P with
  | nil => exact h.congr (by simp)
  | cons p l ih => exact (ih (h.extend p)).congr (by simp [or_assoc])

/-- Every list of panels is covered without a spare row or column. -/
theorem bounds_around (h : around? l = some b) : b.Bounds (· ∈ l) := by
  cases l with
  | nil => cases h
  | cons p l =>
      cases h
      exact ((bounds_single p).foldl_extend l).congr (by simp)

/-- There is only one smallest box. -/
theorem Bounds.unique {b' : Box} (h : b.Bounds P) (h' : b'.Bounds P) : b = b' := by
  rcases h.least b' h'.contains with ⟨hleft, hright, htop, hbottom⟩
  rcases h'.least b h.contains with ⟨hleft', hright', htop', hbottom'⟩
  cases b
  cases b'
  rw [Box.mk.injEq]
  exact ⟨Int.le_antisymm hleft' hleft, Int.le_antisymm htop' htop, Int.le_antisymm hright hright',
    Int.le_antisymm hbottom hbottom'⟩

theorem exists_around (h : p ∈ l) : ∃ b, around? l = some b := by
  cases l with
  | nil => cases h
  | cons q l => exact ⟨_, rfl⟩

/-- The box depends only on which panels are in the list. -/
theorem around?_congr {l' : List Point} (h : ∀ p, p ∈ l ↔ p ∈ l') : around? l = around? l' := by
  cases hl : l with
  | nil =>
      have hl' : l' = [] := List.eq_nil_iff_forall_not_mem.mpr fun p hp => by
        have hmem := (h p).mpr hp
        rw [hl] at hmem
        cases hmem
      rw [hl']
  | cons p rest =>
      have hp : p ∈ l := by simp [hl]
      rcases exists_around hp with ⟨b, hb⟩
      rcases exists_around ((h p).mp hp) with ⟨b', hb'⟩
      rw [← hl, hb, hb', ((bounds_around hb).congr fun q => (h q).symm).unique (bounds_around hb')]

/-- A box that has a panel in it has no negative extent, so its width is that of the coordinates. -/
theorem Contains.width_eq (h : b.Contains p) : (b.width : Int) = b.right - b.left + 1 := by
  have hnonneg : b.left ≤ b.right := Int.le_trans h.left_le h.le_right
  exact Int.toNat_of_nonneg (by omega)

theorem Contains.height_eq (h : b.Contains p) : (b.height : Int) = b.bottom - b.top + 1 := by
  have hnonneg : b.top ≤ b.bottom := Int.le_trans h.top_le h.le_bottom
  exact Int.toNat_of_nonneg (by omega)

/-- The panels of a box, row by row from the top and each row from the left. -/
def panels (b : Box) : List (List Point) :=
  (List.range b.height).map fun (j : Nat) => (List.range b.width).map fun (k : Nat) =>
    ⟨b.left + k, b.top + j⟩

theorem Contains.mem_panels (h : b.Contains p) : p ∈ b.panels.flatten := by
  have hwidth := h.width_eq
  have hheight := h.height_eq
  rcases h with ⟨hleft, hright, htop, hbottom⟩
  have hj : (p.y - b.top).toNat < b.height := by omega
  have hk : (p.x - b.left).toNat < b.width := by omega
  have hx : b.left + ((p.x - b.left).toNat : Int) = p.x := by omega
  have hy : b.top + ((p.y - b.top).toNat : Int) = p.y := by omega
  refine List.mem_flatten.mpr ⟨_, List.mem_map.mpr ⟨_, List.mem_range.mpr hj, rfl⟩, ?_⟩
  refine List.mem_map.mpr ⟨_, List.mem_range.mpr hk, ?_⟩
  rw [hx, hy]

/-- No panel stands in two places. -/
theorem nodup_panels (b : Box) : b.panels.flatten.Nodup := by
  rw [List.nodup_flatten]
  constructor
  · intro row hrow
    rcases List.mem_map.mp hrow with ⟨j, -, rfl⟩
    refine List.Nodup.map ?_ List.nodup_range
    intro k k' heq
    have hx := congrArg Point.x heq
    simp only at hx
    omega
  · rw [panels, List.pairwise_map]
    refine List.nodup_range.imp ?_
    intro j j' hne p hp hp'
    rcases List.mem_map.mp hp with ⟨k, -, rfl⟩
    rcases List.mem_map.mp hp' with ⟨k', -, heq⟩
    have hy := congrArg Point.y heq
    simp only at hy
    omega

end Box

theorem Color.pixel_eq_iff (color : Color) : color.pixel = '0' ↔ color = .white := by
  cases color <;> decide

/-! ## Pictures -/

namespace Robot

open Command

variable {r : Robot} {b : Box} {start : Option Color} {cs : List Command} {p : Point}

def pixels (r : Robot) (b : Box) : List (List Char) :=
  b.panels.map fun row => row.map fun p => (r.colorAt p).pixel

/-- The characters as lines of text behind the magic number and the size. -/
theorem picture_eq (h : Box.around? r.known = some b) :
    r.picture = String.join ("P1\n" :: (toString b.width ++ " " ++ toString b.height ++ "\n") ::
      (r.pixels b).map fun row => String.ofList row ++ "\n") := by
  have hmagic : "P1" ++ "\n" = "P1\n" := rfl
  have hrows : ((List.range b.height).map fun (k : Nat) => r.row b (b.top + k)).map (· ++ "\n") =
      (r.pixels b).map fun row => String.ofList row ++ "\n" := by
    simp [pixels, Box.panels, row, Function.comp_def]
  simp only [picture, h, List.map_cons, hmagic, hrows]

/-- The number of white panels of a box is the number of zeros in its picture. -/
theorem count_pixels (r : Robot) (b : Box) :
    (r.pixels b).flatten.count '0' =
      (b.panels.flatten.filter fun p => r.colorAt p = .white).toFinset.card := by
  have hflat : (r.pixels b).flatten = b.panels.flatten.map fun p => (r.colorAt p).pixel := by
    rw [pixels, ← List.map_flatten]
  rw [List.toFinset_card_of_nodup (b.nodup_panels.filter _), hflat, List.count_eq_countP,
    List.countP_map, List.countP_eq_length_filter]
  congr 2
  funext p
  have hiff := (r.colorAt p).pixel_eq_iff
  simp [hiff, beq_eq_decide]

/-- A panel is known if its colour was given or it has been painted. -/
def Known (start : Option Color) (cs : List Command) (p : Point) : Prop :=
  (p = Point.origin ∧ start.isSome = true) ∨ p ∈ painted cs

/-- A given start colour makes the origin part of the picture, painted or not. -/
theorem mem_known_iff (r : Robot) (p : Point) :
    p ∈ r.known ↔ (p = Point.origin ∧ r.start.isSome = true) ∨ p ∈ r.paint := by
  unfold known
  split
  · rename_i hgiven
    simp only [Bool.and_eq_true] at hgiven
    simp [Std.TreeMap.mem_keys, hgiven.1]
  · rename_i hnot
    rw [Std.TreeMap.mem_keys]
    refine ⟨.inr, ?_⟩
    rintro (⟨rfl, hstart⟩ | hp)
    · rw [Std.TreeMap.mem_iff_contains]
      simpa [hstart] using hnot
    · exact hp

theorem Follows.mem_known_iff (h : r.Follows start cs) : p ∈ r.known ↔ Known start cs p := by
  rw [Robot.mem_known_iff, h.start_eq, h.mem_paint_iff]
  rfl

/-- The box of a picture is the smallest one around the known panels. -/
theorem Follows.bounds_known (h : r.Follows start cs) (hbox : Box.around? r.known = some b) :
    b.Bounds (Known start cs) :=
  (Box.bounds_around hbox).congr fun _ => h.mem_known_iff.symm

/-- White panels are in the picture, since a panel is white only if it was given or painted so. -/
theorem Follows.known_of_white (h : r.Follows start cs) (hwhite : r.colorAt p = .white) :
    Known start cs p := by
  rw [h.colorAt_eq] at hwhite
  cases hlast : lastColor? cs p with
  | some color =>
      have hsome : (lastColor? cs p).isSome = true := by rw [hlast]; rfl
      exact .inr (isSome_lastColor?_iff.mp hsome)
  | none =>
      rw [hlast, Option.getD_none] at hwhite
      split at hwhite
      · rename_i horigin
        cases start with
        | none => cases hwhite
        | some color => exact .inl ⟨horigin, rfl⟩
      · cases hwhite

/-- The first colour goes to the start. -/
theorem origin_mem_painted {values : List Int} (h : p ∈ painted (among values)) :
    Point.origin ∈ painted (among values) := by
  have hlength : 0 < (among values).length := by
    refine List.length_pos_iff.mpr ?_
    intro hnil
    rw [hnil] at h
    cases h
  rcases (exists_paint_iff values 0 hlength).mpr rfl with ⟨color, hcolor⟩
  refine List.mem_map.mpr ⟨(Point.origin, color), List.mem_filterMap.mpr ?_, rfl⟩
  refine ⟨((among values)[0], 0), List.mem_zipIdx_iff_getElem?.mpr (List.getElem?_eq_getElem hlength), ?_⟩
  rw [hcolor]
  rfl

/-- What a picture of a robot shows, where `b` is its box and `rows` are its characters. -/
structure Depicts (r : Robot) (start : Option Color) (cs : List Command) (b : Box)
    (rows : List (List Char)) : Prop where
  bounds : b.Bounds (Known start cs)
  width_eq : (b.width : Int) = b.right - b.left + 1
  height_eq : (b.height : Int) = b.bottom - b.top + 1
  text_eq : r.picture = String.join ("P1\n" :: (toString b.width ++ " " ++ toString b.height ++ "\n") ::
    rows.map fun row => String.ofList row ++ "\n")
  length_rows : rows.length = b.height
  length_row : ∀ row ∈ rows, row.length = b.width
  zero_or_one : ∀ row ∈ rows, ∀ c ∈ row, c = '0' ∨ c = '1'
  zero_iff : ∀ j k, (hj : j < rows.length) → (hk : k < rows[j].length) →
    (rows[j][k] = '0' ↔ r.colorAt ⟨b.left + k, b.top + j⟩ = .white)
  -- Every white panel lies in the box, and there are as many of them as zeros.
  white_inside : ∀ p, r.colorAt p = .white → b.Contains p
  count_zero : ∃ white : Finset Point, (∀ p, p ∈ white ↔ r.colorAt p = .white) ∧
    rows.flatten.count '0' = white.card
  -- Once anything has been painted, the box has no more in it than that calls for.
  bounds_painted : painted cs ≠ [] → b.Bounds (· ∈ painted cs)

theorem Follows.depicts {values : List Int} (h : r.Follows start (among values))
    (hbox : Box.around? r.known = some b) (hp : Known start (among values) p) :
    r.Depicts start (among values) b (r.pixels b) where
  bounds := h.bounds_known hbox
  width_eq := ((h.bounds_known hbox).contains p hp).width_eq
  height_eq := ((h.bounds_known hbox).contains p hp).height_eq
  text_eq := picture_eq hbox
  length_rows := by simp [pixels, Box.panels]
  length_row := by
    simp only [pixels, Box.panels, List.map_map, List.forall_mem_map]
    intro j _
    simp
  zero_or_one := by
    simp only [pixels, List.forall_mem_map]
    intro row _ q _
    cases r.colorAt q with
    | black => exact .inr rfl
    | white => exact .inl rfl
  zero_iff := by
    intro j k hj hk
    simp only [pixels, Box.panels, List.getElem_map, List.getElem_range]
    exact Color.pixel_eq_iff _
  white_inside := fun q hwhite => (h.bounds_known hbox).contains q (h.known_of_white hwhite)
  count_zero := by
    refine ⟨(b.panels.flatten.filter fun p => r.colorAt p = .white).toFinset, ?_, r.count_pixels b⟩
    intro q
    simp only [List.mem_toFinset, List.mem_filter, decide_eq_true_eq, and_iff_right_iff_imp]
    intro hwhite
    exact ((h.bounds_known hbox).contains q (h.known_of_white hwhite)).mem_panels
  bounds_painted := by
    intro hpainted
    rcases List.exists_mem_of_ne_nil _ hpainted with ⟨q, hq⟩
    have horigin := origin_mem_painted hq
    refine (h.bounds_known hbox).congr fun q' => ⟨.inr, ?_⟩
    rintro (⟨rfl, -⟩ | hq')
    · exact horigin
    · exact hq'

/-- A robot's picture is faithful and tight, whatever has been sent to the robot, as soon as a panel is
known. -/
theorem picture_faithful (start : Option Color) (values : List Int)
    (h : ∃ p, Known start (among values) p) :
    ∃ b rows, (sent start values).Depicts start (among values) b rows := by
  rcases h with ⟨p, hp⟩
  have hfollows := follows_sent start values
  rcases Box.exists_around (hfollows.mem_known_iff.mpr hp) with ⟨b, hbox⟩
  exact ⟨b, _, hfollows.depicts hbox hp⟩

/-- A white panel, and a black one to the left of it. The `7` is refused. -/
theorem picture_faithful_pair :
    Known none (among [1, 0, 7, 0, 1]) Point.origin ∧
      (∃ b rows, (sent none [1, 0, 7, 0, 1]).Depicts none (among [1, 0, 7, 0, 1]) b rows) ∧
      (sent none [1, 0, 7, 0, 1]).picture = "P1\n2 1\n10\n" := by
  have hknown : Known none (among [1, 0, 7, 0, 1]) Point.origin := .inr (by decide)
  exact ⟨hknown, picture_faithful none [1, 0, 7, 0, 1] ⟨_, hknown⟩, by decide +kernel⟩

end Robot

end WordMachine
