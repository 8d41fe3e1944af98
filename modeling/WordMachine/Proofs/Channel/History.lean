import WordMachine.Channel

/-!
# Channels over time

Receivers of a channel are served in the order in which they came, and each gets the value that was
sent at its place: the first receive the first value, and so on, whether the value was sent before or
after. Receives for which no value was sent before the channel was closed are told the end of the
stream.

`Use.due` says so of a history of sends, receives and closings, without a channel. `Traffic` follows a
channel through the history, and `Traffic.serves_after` compares the two.
-/

namespace WordMachine

inductive Use where
  | send (value : Int)
  | receive
  | close
  deriving DecidableEq, Repr

namespace Use

/-- The values that are sent before the channel is closed for the first time. -/
def sent : List Use → List Int
  | [] => []
  | send value :: later => value :: sent later
  | receive :: later => sent later
  | close :: _ => []

def receives (uses : List Use) : Nat :=
  uses.count receive

/-- What a receive is due by now, if anything. Receives are numbered from zero, in the order in which
they are called. -/
def due (name : String) (uses : List Use) (i : Nat) : Option (Except Fault Int) :=
  if receives uses ≤ i then none
  else if h : i < (sent uses).length then some (.ok (sent uses)[i])
  else if close ∈ uses then some (.error (.endOfStream name))
  else none

/-- All that receives are due by now, in the order of their numbers. -/
def allDue (name : String) (uses : List Use) : List (Except Fault Int) :=
  ((sent uses).take (receives uses)).map .ok ++
    if close ∈ uses then
      List.replicate (receives uses - (sent uses).length) (.error (.endOfStream name))
    else []

/-- Closing ends what counts as sent: later sends are refused. -/
theorem sent_append (uses later : List Use) :
    sent (uses ++ later) = sent uses ++ if close ∈ uses then [] else sent later := by
  induction uses with
  | nil => rfl
  | cons u uses ih => cases u <;> simp [sent, ih]

@[simp] theorem receives_nil : receives [] = 0 := rfl

@[simp] theorem receives_append (uses later : List Use) :
    receives (uses ++ later) = receives uses + receives later :=
  List.count_append

@[simp] theorem receives_send (v : Int) : receives [send v] = 0 := rfl

@[simp] theorem receives_receive : receives [receive] = 1 := rfl

@[simp] theorem receives_close : receives [close] = 0 := rfl

@[simp] theorem sent_receive (uses : List Use) : sent (uses ++ [receive]) = sent uses := by
  simp [sent_append, sent]

@[simp] theorem sent_close (uses : List Use) : sent (uses ++ [close]) = sent uses := by
  simp [sent_append, sent]

theorem sent_send_of_open {uses : List Use} (hopen : close ∉ uses) (v : Int) :
    sent (uses ++ [send v]) = sent uses ++ [v] := by
  simp [sent_append, hopen, sent]

theorem sent_send_of_closed {uses : List Use} (hclose : close ∈ uses) (v : Int) :
    sent (uses ++ [send v]) = sent uses := by
  simp [sent_append, hclose]

theorem getElem?_allDue (name : String) (uses : List Use) (i : Nat) :
    (allDue name uses)[i]? = due name uses i := by
  unfold allDue due
  by_cases hreceived : receives uses ≤ i
  · rw [if_pos hreceived, List.getElem?_eq_none]
    split <;> simp <;> omega
  rw [if_neg hreceived]
  have hi := Nat.lt_of_not_le hreceived
  by_cases hsent : i < (sent uses).length
  · rw [dif_pos hsent, List.getElem?_append_left (by simp; omega), List.getElem?_map,
      List.getElem?_take_of_lt hi, List.getElem?_eq_getElem hsent]
    rfl
  · rw [dif_neg hsent, List.getElem?_append_right (by simp; omega)]
    by_cases hclose : close ∈ uses
    · rw [if_pos hclose, if_pos hclose, List.getElem?_replicate_of_lt]
      simp
      omega
    · rw [if_neg hclose, if_neg hclose, List.getElem?_nil]

/-- A receive is left waiting only if fewer values have been sent than receives came before it, and
the channel is still open. -/
theorem due_eq_none_iff {name : String} {uses : List Use} {i : Nat} :
    due name uses i = none ↔ receives uses ≤ i ∨ (sent uses).length ≤ i ∧ close ∉ uses := by
  unfold due
  by_cases hreceived : receives uses ≤ i
  · simp [hreceived]
  · by_cases hsent : i < (sent uses).length
    · simp [hreceived, hsent, Nat.not_le_of_lt hsent]
    · simp [hreceived, hsent, Nat.le_of_not_lt hsent]

section

variable {name : String} {uses : List Use}

/-- As long as there are values left, no receive is told the end. -/
theorem allDue_of_le (hleft : receives uses ≤ (sent uses).length) :
    allDue name uses = ((sent uses).take (receives uses)).map .ok := by
  simp [allDue, Nat.sub_eq_zero_of_le hleft]

/-- When all values are taken, the other receives are told the end once the channel is closed. -/
theorem allDue_of_ge (hserved : (sent uses).length ≤ receives uses) :
    allDue name uses = (sent uses).map .ok ++
      if close ∈ uses then
        List.replicate (receives uses - (sent uses).length) (.error (.endOfStream name))
      else [] := by
  rw [allDue, List.take_of_length_le hserved]

end

end Use

/-- A channel whose receives are numbered as they are called, with the answers given by now, oldest
first. -/
structure Traffic where
  channel : Channel Nat
  receives : Nat := 0
  answers : List (Nat × Except Fault Int) := []

namespace Traffic

variable {t : Traffic} {name : String} {uses : List Use}

def start (name : String) : Traffic :=
  { channel := { name } }

def use (t : Traffic) : Use → Traffic
  | .send value =>
    match t.channel.send value with
    | .ok (channel, taker?) =>
      { t with channel, answers := t.answers ++ (taker?.map fun i => (i, .ok value)).toList }
    | .error _ => t
  | .receive =>
    let (channel, answer?) := t.channel.receive t.receives
    { channel, receives := t.receives + 1
      answers := t.answers ++ (answer?.map fun r => (t.receives, r)).toList }
  | .close =>
    let (channel, waiting) := t.channel.close
    { t with channel
             answers := t.answers ++ waiting.map fun i => (i, .error (.endOfStream channel.name)) }

def after (t : Traffic) (uses : List Use) : Traffic :=
  uses.foldl use t

/-! ## One use -/

section

variable {v : Int} {i : Nat} {rest : List Nat} {later : List Int}

theorem use_send_of_closed (hclosed : t.channel.closed = true) (v : Int) : t.use (.send v) = t := by
  simp [use, Channel.send, hclosed]

/-- A value is buffered only when nobody waits for it. -/
theorem use_send_of_nobody (hopen : t.channel.closed = false) (hwaiting : t.channel.waiting = [])
    (v : Int) :
    t.use (.send v) =
      { t with channel := { t.channel with buffer := t.channel.buffer ++ [v] } } := by
  simp [use, Channel.send, hopen, hwaiting]

/-- A value goes straight to whoever has waited longest, past the buffer. -/
theorem use_send_of_waiting (hopen : t.channel.closed = false)
    (hwaiting : t.channel.waiting = i :: rest) (v : Int) :
    t.use (.send v) =
      { t with channel := { t.channel with waiting := rest }
               answers := t.answers ++ [(i, .ok v)] } := by
  simp [use, Channel.send, hopen, hwaiting]

theorem use_receive_of_value (hbuffer : t.channel.buffer = v :: later) :
    t.use .receive =
      { channel := { t.channel with buffer := later }
        receives := t.receives + 1
        answers := t.answers ++ [(t.receives, .ok v)] } := by
  simp [use, Channel.receive, Channel.poll, hbuffer]

/-- The end is seen only behind the last buffered value. -/
theorem use_receive_of_ended (hbuffer : t.channel.buffer = [])
    (hclosed : t.channel.closed = true) :
    t.use .receive =
      { t with receives := t.receives + 1
               answers := t.answers ++ [(t.receives, .error (.endOfStream t.channel.name))] } := by
  simp [use, Channel.receive, Channel.poll, hbuffer, hclosed]

theorem use_receive_of_empty (hbuffer : t.channel.buffer = [])
    (hopen : t.channel.closed = false) :
    t.use .receive =
      { t with channel := { t.channel with waiting := t.channel.waiting ++ [t.receives] }
               receives := t.receives + 1 } := by
  simp [use, Channel.receive, Channel.poll, hbuffer, hopen]

theorem use_close_of_closed (hclosed : t.channel.closed = true) : t.use .close = t := by
  simp [use, Channel.close, hclosed]

/-- Closing wakes all who wait, in the order in which they came. -/
theorem use_close_of_open (hopen : t.channel.closed = false) :
    t.use .close =
      { t with
        channel := { t.channel with closed := true, waiting := [] }
        answers := t.answers ++
          t.channel.waiting.map fun i => (i, .error (.endOfStream t.channel.name)) } := by
  simp [use, Channel.close, hopen]

end

/-! ## What every use keeps -/

/-- Where a channel stands after a history. Either values are left for which nobody has come, or
receives for which nothing was sent. -/
structure Accounts (name : String) (uses : List Use) (t : Traffic) : Prop where
  name_eq : t.channel.name = name
  closed_eq : t.channel.closed = decide (.close ∈ uses)
  receives_eq : t.receives = Use.receives uses
  buffer_eq : t.channel.buffer = (Use.sent uses).drop (Use.receives uses)
  waiting_eq : t.channel.waiting =
    if .close ∈ uses then []
    else List.range' (Use.sent uses).length (Use.receives uses - (Use.sent uses).length)
  answers_eq : t.answers = (Use.allDue name uses).mapIdx Prod.mk

theorem accounts_start (name : String) : (start name).Accounts name [] :=
  ⟨rfl, rfl, rfl, rfl, rfl, rfl⟩

/-- Of a history only counts what is sent and received, and whether the channel is closed. -/
theorem Accounts.congr (h : t.Accounts name uses) {uses' : List Use}
    (hsent : Use.sent uses' = Use.sent uses) (hreceives : Use.receives uses' = Use.receives uses)
    (hclose : .close ∈ uses' ↔ .close ∈ uses) : t.Accounts name uses' where
  name_eq := h.name_eq
  closed_eq := by simp only [h.closed_eq, hclose]
  receives_eq := by rw [h.receives_eq, hreceives]
  buffer_eq := by rw [h.buffer_eq, hsent, hreceives]
  waiting_eq := by simp only [h.waiting_eq, hsent, hreceives, hclose]
  answers_eq := by simp only [h.answers_eq, Use.allDue, hsent, hreceives, hclose]

/-- A value that is sent goes to the longest waiting receive, or else into the buffer. -/
theorem Accounts.send (h : t.Accounts name uses) (v : Int) :
    (t.use (.send v)).Accounts name (uses ++ [.send v]) := by
  have hclosed := h.closed_eq
  have hbuffer := h.buffer_eq
  have hwaiting := h.waiting_eq
  have hanswers := h.answers_eq
  by_cases hclose : Use.close ∈ uses
  · rw [use_send_of_closed (by simp [hclosed, hclose])]
    exact h.congr (Use.sent_send_of_closed hclose v) (by simp) (by simp)
  · have hopen : t.channel.closed = false := by simp [hclosed, hclose]
    have hsent := Use.sent_send_of_open hclose v
    by_cases hleft : Use.receives uses ≤ (Use.sent uses).length
    · have hleft' : Use.receives uses ≤ (Use.sent uses).length + 1 := Nat.le_succ_of_le hleft
      rw [use_send_of_nobody hopen (by simp [hwaiting, hleft])]
      refine ⟨h.name_eq, by simpa using hclosed, by simpa using h.receives_eq, ?_, ?_, ?_⟩
      · simp [hbuffer, hsent, List.drop_append_of_le_length hleft]
      · simp [hwaiting, hsent, hclose, hleft, hleft']
      · rw [hanswers, Use.allDue_of_le hleft, Use.allDue_of_le (by simpa [hsent] using hleft')]
        simp [hsent, List.take_append_of_le_length hleft]
    · have hserved : (Use.sent uses).length + 1 ≤ Use.receives uses := Nat.lt_of_not_le hleft
      have hfirst : t.channel.waiting = (Use.sent uses).length ::
          List.range' ((Use.sent uses).length + 1)
            (Use.receives uses - ((Use.sent uses).length + 1)) := by
        have hrest : Use.receives uses - (Use.sent uses).length =
            Use.receives uses - ((Use.sent uses).length + 1) + 1 := by omega
        rw [hwaiting, if_neg hclose, hrest, List.range'_succ]
      rw [use_send_of_waiting hopen hfirst]
      refine ⟨h.name_eq, by simpa using hclosed, by simpa using h.receives_eq, ?_, ?_, ?_⟩
      · simp [hbuffer, hsent, List.drop_eq_nil_of_le, Nat.le_of_succ_le hserved, hserved]
      · simp [hsent, hclose]
      · rw [hanswers, Use.allDue_of_ge (Nat.le_of_succ_le hserved),
          Use.allDue_of_ge (by simpa [hsent] using hserved)]
        simp [hsent, hclose]

/-- A receive gets the oldest value that is left, or is told the end, or waits behind the others. -/
theorem Accounts.receive (h : t.Accounts name uses) :
    (t.use .receive).Accounts name (uses ++ [.receive]) := by
  have hclosed := h.closed_eq
  have hbuffer := h.buffer_eq
  have hwaiting := h.waiting_eq
  have hanswers := h.answers_eq
  have hreceives := h.receives_eq
  by_cases hleft : Use.receives uses < (Use.sent uses).length
  · rw [List.drop_eq_getElem_cons hleft] at hbuffer
    rw [use_receive_of_value hbuffer]
    refine ⟨h.name_eq, by simpa using hclosed, by simpa using hreceives, ?_, ?_, ?_⟩
    · simp
    · simp [hwaiting, Nat.sub_eq_zero_of_le, Nat.le_of_lt hleft, Nat.succ_le_of_lt hleft]
    · rw [hanswers, Use.allDue_of_le (Nat.le_of_lt hleft),
        Use.allDue_of_le (by simpa using Nat.succ_le_of_lt hleft), Use.receives_append,
        Use.receives_receive, Use.sent_receive, List.take_succ_eq_append_getElem hleft,
        List.map_append, List.mapIdx_append, List.length_map, List.length_take_of_le (Nat.le_of_lt hleft),
        hreceives]
      simp
  · have hserved : (Use.sent uses).length ≤ Use.receives uses := Nat.le_of_not_lt hleft
    have hmore : Use.receives uses + 1 - (Use.sent uses).length =
        Use.receives uses - (Use.sent uses).length + 1 := by omega
    have hlast : (Use.sent uses).length + (Use.receives uses - (Use.sent uses).length) =
        Use.receives uses := by omega
    rw [List.drop_eq_nil_of_le hserved] at hbuffer
    by_cases hclose : Use.close ∈ uses
    · rw [use_receive_of_ended hbuffer (by simp [hclosed, hclose])]
      refine ⟨h.name_eq, by simpa using hclosed, by simpa using hreceives, ?_, ?_, ?_⟩
      · simp [hbuffer, List.drop_eq_nil_of_le, Nat.le_succ_of_le hserved]
      · simp [hwaiting, hclose]
      · rw [hanswers, Use.allDue_of_ge hserved,
          Use.allDue_of_ge (by simpa using Nat.le_succ_of_le hserved)]
        simp [hclose, hmore, List.replicate_succ', ← List.append_assoc, hreceives, hlast, h.name_eq]
    · rw [use_receive_of_empty hbuffer (by simp [hclosed, hclose])]
      refine ⟨h.name_eq, by simpa using hclosed, by simpa using hreceives, ?_, ?_, ?_⟩
      · simp [hbuffer, List.drop_eq_nil_of_le, Nat.le_succ_of_le hserved]
      · simp [hwaiting, hclose, hmore, hreceives, List.range'_concat, hlast]
      · rw [hanswers, Use.allDue_of_ge hserved,
          Use.allDue_of_ge (by simpa using Nat.le_succ_of_le hserved)]
        simp [hclose]

/-- Numbering the same answers for all. -/
theorem mapIdx_replicate {α : Type} (n first : Nat) (a : α) :
    (List.replicate n a).mapIdx (fun i => Prod.mk (i + first)) =
      (List.range' first n).map fun i => (i, a) := by
  apply List.ext_getElem
  · simp
  · intro i h h'
    simp [Nat.add_comm]

/-- Closing a channel tells all who wait, and closing it again does nothing. -/
theorem Accounts.close (h : t.Accounts name uses) :
    (t.use .close).Accounts name (uses ++ [.close]) := by
  have hclosed := h.closed_eq
  have hwaiting := h.waiting_eq
  have hanswers := h.answers_eq
  by_cases hclose : Use.close ∈ uses
  · rw [use_close_of_closed (by simp [hclosed, hclose])]
    exact h.congr (by simp) (by simp) (by simp [hclose])
  · rw [use_close_of_open (by simp [hclosed, hclose])]
    refine ⟨h.name_eq, by simp, by simpa using h.receives_eq, by simpa using h.buffer_eq, by simp, ?_⟩
    rcases Nat.le_total (Use.receives uses) (Use.sent uses).length with hleft | hserved
    · rw [hanswers, Use.allDue_of_le hleft, Use.allDue_of_le (by simpa using hleft)]
      simp [hwaiting, hclose, Nat.sub_eq_zero_of_le hleft]
    · rw [hanswers, Use.allDue_of_ge hserved, Use.allDue_of_ge (by simpa using hserved),
        if_neg hclose, if_pos (by simp), List.append_nil, List.mapIdx_append, List.length_map,
        mapIdx_replicate]
      simp [hwaiting, hclose, h.name_eq]

/-- The induction step over a history, one case per use and per state of the channel. -/
theorem Accounts.use (h : t.Accounts name uses) (u : Use) :
    (t.use u).Accounts name (uses ++ [u]) := by
  cases u with
  | send v => exact h.send v
  | receive => exact h.receive
  | close => exact h.close

theorem Accounts.after (h : t.Accounts name uses) (later : List Use) :
    (t.after later).Accounts name (uses ++ later) := by
  induction later generalizing t uses with
  | nil =>
      rw [List.append_nil]
      exact h
  | cons u later ih =>
      have hnext := ih (h.use u)
      rw [List.append_assoc] at hnext
      exact hnext

/-! ## What receivers see -/

/-- How a channel serves its receivers by the end of a history. -/
structure Serves (name : String) (uses : List Use) (t : Traffic) : Prop where
  -- A receive has been answered with what it is due, and not at all as long as it is due nothing.
  answered_iff : ∀ i r, (i, r) ∈ t.answers ↔ Use.due name uses i = some r
  waiting_iff : ∀ i, i ∈ t.channel.waiting ↔ i < Use.receives uses ∧ Use.due name uses i = none
  -- Receives are answered once each, in the order of their calls.
  once : t.answers.map Prod.fst = List.range t.answers.length
  size_eq : t.channel.size = (Use.sent uses).length - Use.receives uses
  either : t.channel.buffer = [] ∨ t.channel.waiting = []
  closed_iff : t.channel.closed = true ↔ .close ∈ uses
  nobody : t.channel.closed = true → t.channel.waiting = []
  accepts : .close ∉ uses → ∀ v, ∃ c taker?, t.channel.send v = .ok (c, taker?)
  refuses : .close ∈ uses →
    ∀ v, t.channel.send v = .error (.channelClosed name) ∧ t.use (.send v) = t
  closes_once : (t.use .close).use .close = t.use .close

/-- Who waits can be told from the history alone. -/
theorem Accounts.waiting_iff (h : t.Accounts name uses) (i : Nat) :
    i ∈ t.channel.waiting ↔ i < Use.receives uses ∧ Use.due name uses i = none := by
  rw [h.waiting_eq, Use.due_eq_none_iff]
  by_cases hclose : Use.close ∈ uses
  · simp [hclose]
  · simp only [hclose, if_false, List.mem_range'_1, not_false_eq_true, and_true]
    omega

/-- Buffered values are values for which nobody has come, so then nobody waits. -/
theorem Accounts.either (h : t.Accounts name uses) :
    t.channel.buffer = [] ∨ t.channel.waiting = [] := by
  rw [h.buffer_eq, h.waiting_eq]
  rcases Nat.le_total (Use.sent uses).length (Use.receives uses) with hserved | hleft
  · exact .inl (List.drop_eq_nil_of_le hserved)
  · exact .inr (by simp [Nat.sub_eq_zero_of_le hleft])

theorem Accounts.serves (h : t.Accounts name uses) : t.Serves name uses where
  answered_iff := by
    intro i r
    rw [h.answers_eq, ← Use.getElem?_allDue, List.mem_mapIdx, List.getElem?_eq_some_iff]
    constructor
    · rintro ⟨j, hj, hpair⟩
      cases hpair
      exact ⟨hj, rfl⟩
    · rintro ⟨hi, rfl⟩
      exact ⟨i, hi, rfl⟩
  waiting_iff := h.waiting_iff
  once := by
    rw [h.answers_eq]
    apply List.ext_getElem <;> simp
  size_eq := by
    rw [Channel.size, h.buffer_eq, List.length_drop]
  either := h.either
  closed_iff := by simp [h.closed_eq]
  nobody := by
    intro hclosed
    have hclose : Use.close ∈ uses := by simpa [h.closed_eq] using hclosed
    rw [h.waiting_eq, if_pos hclose]
  accepts := by
    intro hclose v
    have hopen : t.channel.closed = false := by simp [h.closed_eq, hclose]
    cases hwaiting : t.channel.waiting <;> simp [Channel.send, hopen, hwaiting]
  refuses := by
    intro hclose v
    have hclosed : t.channel.closed = true := by simp [h.closed_eq, hclose]
    refine ⟨?_, use_send_of_closed hclosed v⟩
    simp [Channel.send, hclosed, h.name_eq]
  closes_once := by
    have hclosed : (t.use .close).channel.closed = true := by
      rw [h.close.closed_eq]
      simp
    exact use_close_of_closed hclosed

/-- A channel is first-in first-out. After any history of sends, receives and closings, receive number
`i` has got value number `i` of those sent before the first closing; it has been told the end if there
is no such value and the channel is closed; and otherwise it waits. Values are buffered as far as they
outnumber the receives, never while a receive waits, and none waits on a closed channel. A closed
channel refuses values, unchanged, and closing it again does nothing. -/
theorem serves_after (name : String) (uses : List Use) :
    ((start name).after uses).Serves name uses :=
  ((accounts_start name).after uses).serves

/-- Two come early: one gets the value, one the end, and so does one who comes late. -/
example :
    ((start "channel").after
        [.receive, .receive, .send 5, .close, .send 6, .receive, .close]).answers =
      [(0, .ok 5), (1, .error (.endOfStream "channel")), (2, .error (.endOfStream "channel"))] := by
  rfl

end Traffic

end WordMachine
