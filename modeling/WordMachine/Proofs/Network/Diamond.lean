import WordMachine.Proofs.Network.Move

/-!
# Moves of different processes commute

Two processes of a network share at most one channel, and they hold its two ends. So either of them
can still make its move when the other one has made its own, and the order of the two moves does not
matter: `Network.Moves.comm`. It needs no invariant.

From this one square it follows that a network which comes to rest does so in every order, in the
same state, and that each process makes the same moves in all of them (`Network.follow_stuck`,
`Network.stuck_unique`).
-/

namespace WordMachine

/-! ## Two engines -/

namespace Row

variable {row row' r₁ r₂ rest : Row} {c inlet inlet' : Channel Empty} {e e' : Engine} {v : Int}
  {δ : Delivery} {i j : Nat}

/-- Only whoever sends on a channel closes it. -/
theorem Moves.first_eq : Moves i row row' →
    row'.first.closed = row.first.closed ∧ row'.first.name = row.first.name := by
  intro h
  cases h with
  | here passes => exact passes.inlet_eq
  | behind moves => exact ⟨rfl, rfl⟩

/-- Whoever sends on the first channel does not get in the way of an engine. -/
theorem Moves.accept (δ : Delivery) : Moves i row row' →
    Moves i (row.accept δ) (row'.accept δ) := by
  intro h
  cases h with
  | here passes => exact .here (passes.accept δ)
  | behind moves => exact .behind moves

/-- Neither does an engine get in the way of those behind it, or they in its way. -/
theorem Moves.here_comm (hpasses : e.Passes inlet rest.first e' inlet' δ)
    (hmoves : Moves j rest row) :
    Moves (j + 1) (stage inlet' e' (rest.accept δ)) (stage inlet' e' (row.accept δ)) ∧
      Moves 0 (stage inlet e row) (stage inlet' e' (row.accept δ)) := by
  rcases hmoves.first_eq with ⟨hclosed, hname⟩
  refine ⟨?_, ?_⟩
  · exact .behind (hmoves.accept δ)
  · exact .here (hpasses.congr hclosed hname)

/-- Two different engines can move in either order. -/
theorem Moves.comm : i ≠ j → Moves i row r₁ → Moves j row r₂ →
    ∃ r, Moves j r₁ r ∧ Moves i r₂ r := by
  intro hne h₁ h₂
  induction h₁ generalizing j r₂ with
  | here passes =>
      cases h₂ with
      | here passes' => exact absurd rfl hne
      | behind moves => exact ⟨_, Moves.here_comm passes moves⟩
  | @behind e inlet rest rest₁ i moves ih =>
      cases h₂ with
      | here passes => exact ⟨_, (Moves.here_comm passes moves).symm⟩
      | @behind _ _ _ rest₂ j moves' =>
          have hij : i ≠ j := fun h => hne (congrArg Nat.succ h)
          rcases ih hij moves' with ⟨r, hr₁, hr₂⟩
          exact ⟨_, .behind hr₁, .behind hr₂⟩

/-! ## An engine and the observer -/

/-- A value at the end of the row is still there after a move of whoever sends on its first
channel. -/
theorem last_accept (δ : Delivery) : row.last.poll = .value v c →
    ∃ c', (row.accept δ).last.poll = .value v c' ∧
      (row.withLast c).accept δ = (row.accept δ).withLast c' := by
  intro h
  cases row with
  | outlet d => exact ⟨c.accept δ, Channel.poll_accept_value h δ, rfl⟩
  | stage inlet e rest => exact ⟨c, h, rfl⟩

theorem last_accept_of_ended (δ : Delivery) : row.last.poll = .ended →
    (row.accept δ).last.poll = .ended := by
  intro h
  cases row with
  | stage inlet e rest => exact h
  | outlet d =>
      have hsame : d.accept δ = d := Channel.accept_of_ended h δ
      have haccept : (outlet d).accept δ = outlet (d.accept δ) := rfl
      rw [haccept, hsame]
      exact h

theorem first_withLast : row.last.poll = .value v c →
    (row.withLast c).first.closed = row.first.closed ∧
      (row.withLast c).first.name = row.first.name := by
  intro h
  cases row with
  | outlet d => exact ⟨Channel.closed_of_poll_value h, Channel.name_of_poll_value h⟩
  | stage inlet e rest => exact ⟨rfl, rfl⟩

/-- An engine's move and the observer's receiving a value can be made in either order. -/
theorem Moves.withLast : Moves i row row' → row.last.poll = .value v c →
    ∃ c', row'.last.poll = .value v c' ∧ Moves i (row.withLast c) (row'.withLast c') := by
  intro h hpoll
  induction h with
  | @here e e' inlet inlet' rest δ passes =>
      have hlast : rest.last.poll = .value v c := hpoll
      rcases last_accept δ hlast with ⟨c', hpoll', haccept⟩
      rcases first_withLast hlast with ⟨hclosed, hname⟩
      have hmoves := Moves.here (passes.congr hclosed hname)
      rw [haccept] at hmoves
      exact ⟨c', hpoll', hmoves⟩
  | behind moves ih =>
      rcases ih hpoll with ⟨c', hpoll', hmoves⟩
      exact ⟨c', hpoll', .behind hmoves⟩

/-- When the stream has ended for the observer, no engine's move changes that. -/
theorem Moves.last_of_ended : Moves i row row' → row.last.poll = .ended →
    row'.last.poll = .ended := by
  intro h hpoll
  induction h with
  | @here e e' inlet inlet' rest δ passes =>
      have hlast : rest.last.poll = .ended := hpoll
      exact last_accept_of_ended δ hlast
  | behind moves ih => exact ih hpoll

end Row

/-! ## Any two processes -/

namespace Network

variable {n n' n₁ n₂ : Network} {p q : Process} {order begun : List Process} {i : Nat}

theorem Moves.engine_observer_comm : n.Moves (.engine i) n₁ → n.Moves .observer n₂ →
    ∃ n', n₁.Moves .observer n' ∧ n₂.Moves (.engine i) n' := by
  intro h₁ h₂
  rcases h₁ with @⟨_, row, moves⟩
  cases h₂ with
  | @receive v c observing poll =>
      rcases moves.withLast poll with ⟨c', hpoll, hmoves⟩
      have hreceive : Moves { n with row } .observer _ := .receive observing hpoll
      exact ⟨_, hreceive, .engine (hmoves.accept (n.echo v))⟩
  | ended observing poll =>
      have hpoll := moves.last_of_ended poll
      have hended : Moves { n with row } .observer _ := .ended observing hpoll
      exact ⟨_, hended, .engine (moves.accept { final := true })⟩

/-- Moves of two different processes can be made in either order. -/
theorem Moves.comm : p ≠ q → n.Moves p n₁ → n.Moves q n₂ →
    ∃ n', n₁.Moves q n' ∧ n₂.Moves p n' := by
  intro hne h₁ h₂
  cases p with
  | observer =>
      cases q with
      | observer => exact absurd rfl hne
      | engine j =>
          rcases h₂.engine_observer_comm h₁ with ⟨n', hn₂, hn₁⟩
          exact ⟨n', hn₁, hn₂⟩
  | engine i =>
      cases q with
      | observer => exact h₁.engine_observer_comm h₂
      | engine j =>
          rcases h₁ with @⟨_, row₁, moves₁⟩
          rcases h₂ with @⟨_, row₂, moves₂⟩
          have hij : i ≠ j := fun h => hne (congrArg Process.engine h)
          rcases moves₁.comm hij moves₂ with ⟨row, hr₁, hr₂⟩
          exact ⟨{ n with row }, .engine hr₁, .engine hr₂⟩

/-! ## Orders of moves that leave nothing to move -/

theorem Stuck.not_moves : n.Stuck → ¬n.Moves p n' := by
  intro h hmoves
  have hmove := move_of_moves hmoves
  rw [h p] at hmove
  cases hmove

theorem Stuck.eq_nil : n.Stuck → n.follow order = some n' → order = [] ∧ n' = n := by
  intro h hfollow
  cases order with
  | nil => exact ⟨rfl, (Option.some.inj hfollow).symm⟩
  | cons p order =>
      rcases exists_moves_of_follow_cons hfollow with ⟨m, hmoves, -⟩
      exact absurd hmoves h.not_moves

/-- A process that can move does so in every order of moves that leaves nothing to move, and it might
as well have moved first. -/
theorem follow_of_moves : n'.Stuck → n.Moves p n₁ → n.follow order = some n' →
    ∃ rest, (p :: rest).Perm order ∧ n₁.follow rest = some n' := by
  intro hstuck hmoves hfollow
  -- Along the order, until `p` has its turn, its move is carried through one square after another.
  induction order generalizing n n₁ with
  | nil =>
      cases hfollow
      exact absurd hmoves hstuck.not_moves
  | cons q order ih =>
      rcases exists_moves_of_follow_cons hfollow with ⟨n₂, hq, hrest⟩
      by_cases hpq : p = q
      · subst hpq
        have hsame : n₁ = n₂ :=
          Option.some.inj ((move_of_moves hmoves).symm.trans (move_of_moves hq))
        subst hsame
        exact ⟨order, .refl _, hrest⟩
      · rcases hmoves.comm hpq hq with ⟨m, hm₁, hm₂⟩
        rcases ih hm₂ hrest with ⟨rest, hperm, hfollow'⟩
        refine ⟨q :: rest, ?_, ?_⟩
        · exact (List.Perm.swap q p rest).trans (hperm.cons q)
        · rw [follow_cons hm₁]
          exact hfollow'

/-- Whatever moves have been made, they begin an order of moves that ends in the stuck network, and
that order consists of the same moves as any other. -/
theorem follow_stuck : n'.Stuck → n.follow order = some n' → n.follow begun = some n₁ →
    ∃ rest, (begun ++ rest).Perm order ∧ n₁.follow rest = some n' := by
  intro hstuck hfollow hbegun
  induction begun generalizing n order with
  | nil =>
      cases hbegun
      exact ⟨order, .refl _, hfollow⟩
  | cons p begun ih =>
      rcases exists_moves_of_follow_cons hbegun with ⟨m, hmoves, hm⟩
      rcases follow_of_moves hstuck hmoves hfollow with ⟨later, hlater, hfollow'⟩
      rcases ih hfollow' hm with ⟨rest, hperm, hrest⟩
      exact ⟨rest, (hperm.cons p).trans hlater, hrest⟩

/-- If two orders of moves leave nothing to move, they have made the same moves and end in the same
network. -/
theorem stuck_unique : n'.Stuck → n.follow order = some n' → n₁.Stuck →
    n.follow begun = some n₁ → n₁ = n' ∧ begun.Perm order := by
  intro hstuck hfollow hstuck₁ hbegun
  rcases follow_stuck hstuck hfollow hbegun with ⟨rest, hperm, hrest⟩
  rcases hstuck₁.eq_nil hrest with ⟨rfl, rfl⟩
  have hperm' : begun.Perm order := by simpa using hperm
  exact ⟨rfl, hperm'⟩

end Network

end WordMachine
