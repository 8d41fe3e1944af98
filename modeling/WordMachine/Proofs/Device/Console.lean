import WordMachine.Proofs.Device.Bindings
import WordMachine.Proofs.Image.Written
import WordMachine.Proofs.Text.Lines
import WordMachine.Proofs.Text.Trim

/-!
# Requests on a console

A request on a console reads lines up to the first that holds a word. `Console.Holds` says which lines
do, and `Console.Hears` what a request comes to: the reply, what is printed, and the lines left for the
next one. From there every number of requests is accounted for: `Console.hears_words`.
-/

namespace WordMachine.Console

variable {line : List Char} {lines rest : List (List Char)} {w : Word} {c : Console} {r : Reply}
  {said : List String}

/-! ## Lines with a word -/

def Holds (line : List Char) (w : Word) : Prop :=
  ∃ before numeral after, line = before ++ numeral ++ after ∧ Text.Blanks before ∧
    Text.Blanks after ∧ Text.Denotes numeral w.toInt

theorem readLine_eq_ok_iff : readLine line = .ok w ↔ Holds line w := by
  rw [readLine, Word.read_eq_ok_iff]
  constructor
  · intro hdenotes
    rcases (Text.trim_eq_iff.mp rfl).1 with ⟨before, after, hline, hbefore, hafter⟩
    exact ⟨before, Text.trim line, after, hline, hbefore, hafter, hdenotes⟩
  · rintro ⟨before, numeral, after, hline, hbefore, hafter, hdenotes⟩
    have hsolid : ∀ c ∈ numeral, c.toNat ∉ Text.blankCodes := by
      intro c hc hblank
      have hnone := Image.isSeparator_of_denotes hdenotes c hc
      rw [(Image.isSeparator_iff c).mpr (.inr hblank)] at hnone
      cases hnone
    have htrim : Text.trim line = numeral :=
      Text.trim_eq_iff.mpr ⟨⟨before, after, hline, hbefore, hafter⟩,
        fun c hc => hsolid c (List.mem_of_head? hc), fun c hc => hsolid c (List.mem_of_getLast? hc)⟩
    rw [htrim]
    exact hdenotes

theorem not_holds_of_error {why : Word.Misread} (h : readLine line = .error why) :
    ∀ w, ¬ Holds line w := by
  intro w hw
  rw [readLine_eq_ok_iff.mpr hw] at h
  cases h

def misreadings (lines : List (List Char)) : Nat :=
  lines.countP fun line => (readLine line).toOption.isNone

theorem misreadings_cons_of_holds (h : Holds line w) (lines : List (List Char)) :
    misreadings (line :: lines) = misreadings lines := by
  simp [misreadings, readLine_eq_ok_iff.mpr h, Except.toOption]

/-- A line without a word is one of those that are counted. -/
theorem misreadings_append {bad : List (List Char)} (h : ∀ line ∈ bad, ∀ w, ¬ Holds line w)
    (lines : List (List Char)) : misreadings (bad ++ lines) = bad.length + misreadings lines := by
  have hbad : misreadings bad = bad.length := by
    refine List.countP_eq_length.mpr fun line hline => ?_
    cases hread : readLine line with
    | ok w => exact absurd (readLine_eq_ok_iff.mp hread) (h line hline w)
    | error why => rfl
  rw [misreadings, List.countP_append]
  exact congrArg (· + misreadings lines) hbad

/-! ## One request -/

/-- A request on a console with some lines left, its reply, what it prints, and what lines are left after
it. It prompts once, and reads on with a request to try again after each line without a word. -/
inductive Hears : List (List Char) → Reply → List String → List (List Char) → Prop where
  | word {bad rest : List (List Char)} {line : List Char} {w : Word}
      (misread : ∀ line ∈ bad, ∀ w, ¬ Holds line w) (holds : Holds line w) :
      Hears (bad ++ line :: rest) (.value w.toInt) (prompt :: List.replicate bad.length retry) rest
  | ended {bad : List (List Char)} (misread : ∀ line ∈ bad, ∀ w, ¬ Holds line w) :
      Hears bad (.endOfStream "console") (prompt :: List.replicate bad.length retry) []

/-- A line without a word costs a request to try again. -/
theorem Hears.cons (h : Hears lines r (prompt :: said) rest) (hline : ∀ w, ¬ Holds line w) :
    Hears (line :: lines) r (prompt :: retry :: said) rest := by
  have hcons {bad : List (List Char)} (misread : ∀ line ∈ bad, ∀ w, ¬ Holds line w) :
      ∀ l ∈ line :: bad, ∀ w, ¬ Holds l w := List.forall_mem_cons.mpr ⟨hline, misread⟩
  cases h with
  | word misread holds => exact .word (hcons misread) holds
  | ended misread => exact .ended (hcons misread)

theorem listen_hears (printed : Array String) (lines : List (List Char)) :
    ∃ said, Hears lines (listen printed lines).1 (prompt :: said) (listen printed lines).2.lines ∧
      (listen printed lines).2.printed.toList = printed.toList ++ said := by
  induction lines generalizing printed with
  | nil => exact ⟨[], .ended (by rintro line ⟨⟩), (List.append_nil _).symm⟩
  | cons line rest ih =>
      cases hline : readLine line with
      | ok w =>
          simp only [listen, hline]
          have hnone : ∀ l ∈ ([] : List (List Char)), ∀ w, ¬ Holds l w := by rintro l ⟨⟩
          exact ⟨[], .word hnone (readLine_eq_ok_iff.mp hline), (List.append_nil _).symm⟩
      | error why =>
          simp only [listen, hline]
          rcases ih (printed.push retry) with ⟨said, hhears, hprinted⟩
          refine ⟨retry :: said, hhears.cons (not_holds_of_error hline), ?_⟩
          rw [hprinted, Array.toList_push, List.append_assoc]
          rfl

theorem request_hears (c : Console) :
    ∃ said, Hears c.lines c.request.1 said c.request.2.lines ∧
      c.request.2.printed.toList = c.printed.toList ++ said := by
  rcases listen_hears (c.printed.push prompt) c.lines with ⟨said, hhears, hprinted⟩
  refine ⟨prompt :: said, hhears, ?_⟩
  rw [request, hprinted, Array.toList_push, List.append_assoc]
  rfl

theorem Hears.count_prompt (h : Hears lines r said rest) : said.count prompt = 1 := by
  have hother : retry ≠ prompt := by decide
  cases h <;> simp [List.count_replicate, hother]

/-- Every line without a word that is read is answered. -/
theorem Hears.count_retry (h : Hears lines r said rest) :
    said.count retry + misreadings rest = misreadings lines := by
  have hother : prompt ≠ retry := by decide
  cases h with
  | word misread holds =>
      rw [misreadings_append misread, misreadings_cons_of_holds holds]
      simp [hother]
  | @ended bad misread =>
      have hall := misreadings_append misread []
      rw [List.append_nil] at hall
      simp [hother, hall]

/-- A request that finds no word reads all that is left. -/
theorem Hears.rest_eq_nil {source : String} (h : Hears lines (.endOfStream source) said rest) :
    rest = [] := by
  cases h
  rfl

/-! ## Requests one after another -/

def asked (c : Console) : Nat → Console
  | 0 => c
  | k + 1 => (c.asked k).request.2

theorem words_asked (c : Console) (k : Nat) : words (c.asked k).lines = (words c.lines).drop k := by
  induction k with
  | zero => rfl
  | succ k ih =>
      rcases listen_eq ((c.asked k).printed.push prompt) (c.asked k).lines with
        ⟨c', hlisten, htail, -⟩
      have hnext : c.asked (k + 1) = c' := congrArg Prod.snd hlisten
      rw [hnext, htail, ih, List.tail_drop]

/-- A request gets the next word that is left. -/
theorem request_asked (c : Console) (k : Nat) :
    (c.asked k).request.1 =
      match (words c.lines)[k]? with
      | some w => .value w.toInt
      | none => .endOfStream "console" := by
  rcases listen_eq ((c.asked k).printed.push prompt) (c.asked k).lines with ⟨c', hlisten, -, -⟩
  have hreply : (c.asked k).request.1 = reply (words (c.asked k).lines) :=
    congrArg Prod.fst hlisten
  rw [hreply, words_asked, ← List.head?_drop]
  cases (words c.lines).drop k <;> rfl

theorem count_prompt_asked (text : String) (k : Nat) :
    ((ofText text).asked k).printed.toList.count prompt = k := by
  induction k with
  | zero => rfl
  | succ k ih =>
      rcases ((ofText text).asked k).request_hears with ⟨said, hhears, hprinted⟩
      rw [asked, hprinted, List.count_append, ih, hhears.count_prompt]

/-- What has not been answered yet is still to be read. -/
theorem count_retry_asked (text : String) (k : Nat) :
    ((ofText text).asked k).printed.toList.count retry +
      misreadings ((ofText text).asked k).lines = misreadings (Text.lines text.toList) := by
  induction k with
  | zero => exact Nat.zero_add _
  | succ k ih =>
      rcases ((ofText text).asked k).request_hears with ⟨said, hhears, hprinted⟩
      rw [asked, hprinted, List.count_append, Nat.add_assoc, hhears.count_retry, ih]

theorem lines_asked_of_length_lt {k : Nat} (h : (words c.lines).length < k) :
    (c.asked k).lines = [] := by
  cases k with
  | zero => cases h
  | succ k =>
      have hended := c.request_asked k
      rw [List.getElem?_eq_none (Nat.le_of_lt_succ h)] at hended
      rcases (c.asked k).request_hears with ⟨said, hhears, -⟩
      rw [hended] at hhears
      exact hhears.rest_eq_nil

/-- The input from a console is the stream of the words on its lines. A text has one list of lines, by
the rules; a line counts if a numeral of a word stands on it with nothing but blanks around. The request
with number `k` is replied to with word number `k`, and once there is none left with the end of the
stream, also when asked again. It reads on from where the one before stopped, to the next line that
holds a word or to the end, prompts once, and answers each line without a word that it reads. So after
requests that reach the end nothing is left, and as many lines have been answered as have no word. -/
theorem hears_words (text : String) :
    ∃ lines, (∀ lines', Text.Lined text.toList lines' ↔ lines' = lines) ∧
      (∀ line w, readLine line = .ok w ↔ Holds line w) ∧
      ((ofText text).asked 0).lines = lines ∧ ((ofText text).asked 0).printed = #[] ∧
      ∀ k,
        ((ofText text).asked k).request.1 =
          (match (words lines)[k]? with
          | some w => .value w.toInt
          | none => .endOfStream "console") ∧
        (∃ said,
          Hears ((ofText text).asked k).lines ((ofText text).asked k).request.1 said
            ((ofText text).asked (k + 1)).lines ∧
          ((ofText text).asked (k + 1)).printed.toList =
            ((ofText text).asked k).printed.toList ++ said) ∧
        ((words lines).length < k → ((ofText text).asked k).lines = [] ∧
          ((ofText text).asked k).printed.toList.count prompt = k ∧
          ((ofText text).asked k).printed.toList.count retry = misreadings lines) := by
  refine ⟨Text.lines text.toList, fun _ => Text.lined_iff, fun _ _ => readLine_eq_ok_iff, rfl, rfl, ?_⟩
  intro k
  refine ⟨(ofText text).request_asked k, ((ofText text).asked k).request_hears, ?_⟩
  intro hk
  have hdone : ((ofText text).asked k).lines = [] := lines_asked_of_length_lt hk
  have hcount := count_retry_asked text k
  rw [hdone] at hcount
  exact ⟨hdone, count_prompt_asked text k, hcount⟩

/-- A blank line and one that is no numeral stand before a number, one out of range behind it. The second
request finds the end and a third one finds it again; by then three lines have been answered. -/
theorem hears_words_two :
    ((ofText "\r\nfive\r 5\t\n9223372036854775808").asked 0).request.1 = .value 5 ∧
      ((ofText "\r\nfive\r 5\t\n9223372036854775808").asked 2).request.1 = .endOfStream "console" ∧
      ((ofText "\r\nfive\r 5\t\n9223372036854775808").asked 3).printed.toList.count retry = 3 := by
  rcases hears_words "\r\nfive\r 5\t\n9223372036854775808" with ⟨lines, hlines, -, -, -, hasked⟩
  have hread : Text.lines "\r\nfive\r 5\t\n9223372036854775808".toList = lines :=
    (hlines _).mp (Text.lined_iff.mpr rfl)
  have hwords : words lines = [5] := by
    rw [← hread]
    decide
  have hbad : misreadings lines = 3 := by
    rw [← hread]
    decide
  have hfirst := (hasked 0).1
  have hsecond := (hasked 2).1
  have hall := ((hasked 3).2.2 (by rw [hwords]; decide)).2.2
  rw [hwords] at hfirst hsecond
  exact ⟨hfirst, hsecond, hall.trans hbad⟩

end WordMachine.Console
