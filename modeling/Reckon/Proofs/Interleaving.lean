/-
  Reckon — clients that share a cache.

  Clients ask a cache for values in turns, each one request after another.  A
  request takes two turns of its client: in the first one the cache hands out
  the formula, from looking it up to storing it, and in the second one the
  client computes the value by itself.  Whatever happens to the cache between
  them, in turns of others, makes no difference:

  * `cache_after`: the cache goes through the calls that reach it (`calls`);
  * `outcomes_turn`: a turn changes nothing in what the requests of a client
    come to, whether they have been answered or not;
  * `answers_after`: the answers of a client depend on its own turns only;
  * `mem_wanted_after`: a text that was wanted has been asked for or still is;
  * `order_independent` puts this together.
-/
import Reckon.Proofs.Contents
import Reckon.Proofs.Identity

namespace Reckon

/-! ## Clients -/

/-- A request for a value: the text of a formula, and the values of its
    variables. -/
abbrev Query := String × Valuation

/-- What a request comes to without a cache. -/
def Query.outcome (r : Query) : Except Error Binary64 :=
  Formula.parse r.1 >>= fun f => f.evaluate r.2

/-- A client of a cache. -/
structure Client where
  /-- the requests that it has not made -/
  todo : List Query
  /-- what it was handed out and has not computed the value of -/
  held : Option (Except Error Shared × Valuation)
  /-- what its requests came to -/
  answers : List (Except Error Binary64)

namespace Client

/-- The text that a client asks for in its next turn, if it does. -/
def asks? (c : Client) : Option String :=
  match c.held, c.todo with
  | none, r :: _ => some r.1
  | _, _ => none

/-- The answer to a request for which a formula was handed out, or the error
    that there was none. -/
def answer (x : Except Error Shared) (v : Valuation) : Except Error Binary64 :=
  x >>= fun s => s.formula.evaluate v

/-- A client behind a turn, where `get` says what is handed out for a text. -/
def next (c : Client) (get : String → Except Error Shared) : Client :=
  match c.held, c.todo with
  | some (x, v), _ => { c with held := none, answers := c.answers ++ [answer x v] }
  | none, (text, v) :: todo => { c with todo, held := some (get text, v) }
  | none, [] => c

/-- What the requests of a client come to, those that it was answered and those
    to come. -/
def outcomes (c : Client) : List (Except Error Binary64) :=
  c.answers ++ (c.held.map fun (x, v) => answer x v).toList ++ c.todo.map Query.outcome

/-- The turns that a client has made use of. -/
def steps (c : Client) : Nat :=
  2 * c.answers.length + c.held.toList.length

variable {get : String → Except Error Shared}

/-- **A turn does not change what requests come to**, if what is handed out is
    what is read. -/
theorem outcomes_next (hget : ∀ text, (get text).map Shared.formula = Formula.parse text)
    (c : Client) : (c.next get).outcomes = c.outcomes := by
  obtain ⟨todo, held, answers⟩ := c
  cases held with
  | some held => simp [next, outcomes]
  | none =>
    cases todo with
    | nil => rfl
    | cons r todo =>
      have hanswer : answer (get r.1) r.2 = r.outcome := by
        rw [Query.outcome, ← hget, answer]
        cases get r.1 <;> rfl
      simp [next, outcomes, hanswer]

theorem length_outcomes (c : Client) :
    c.outcomes.length = c.answers.length + c.held.toList.length + c.todo.length := by
  cases h : c.held with
  | none => simp [outcomes, h]
  | some held =>
    simp [outcomes, h]
    omega

theorem steps_le (c : Client) : c.steps ≤ 2 * c.outcomes.length := by
  rw [steps, length_outcomes]
  omega

/-- A turn is made use of as long as there are requests. -/
theorem steps_next (c : Client) :
    (c.next get).steps = min (c.steps + 1) (2 * c.outcomes.length) := by
  rw [length_outcomes]
  obtain ⟨todo, held, answers⟩ := c
  cases held with
  | some held =>
    simp only [next, steps, List.length_append, List.length_singleton, Option.toList_some,
      Option.toList_none, List.length_nil]
    omega
  | none =>
    cases todo with
    | nil => simp [next, steps]
    | cons r todo =>
      simp only [next, steps, Option.toList_some, Option.toList_none, List.length_nil,
        List.length_cons]
      omega

theorem todo_next (c : Client) :
    c.todo.map Prod.fst = c.asks?.toList ++ (c.next get).todo.map Prod.fst := by
  obtain ⟨todo, held, answers⟩ := c
  cases held with
  | some held => rfl
  | none => cases todo <;> rfl

/-- The answers are the first outcomes, one for every two turns. -/
theorem answers_eq_take (c : Client) : c.answers = c.outcomes.take (c.steps / 2) := by
  have hheld : c.held.toList.length ≤ 1 := by cases c.held <;> simp
  have hlength : c.steps / 2 = c.answers.length := by
    rw [steps]
    omega
  rw [hlength, outcomes, List.append_assoc, List.take_left]

/-- A client that has made use of two turns for each request has made all of
    them. -/
theorem todo_eq_nil {c : Client} (h : c.steps = 2 * c.outcomes.length) : c.todo = [] := by
  rw [steps, length_outcomes] at h
  exact List.eq_nil_of_length_eq_zero (by omega)

end Client

/-! ## Sessions -/

/-- A cache and the clients that share it. -/
structure Session (ι : Type) where
  cache : Cache
  clients : ι → Client
  /-- the events of the cache -/
  journal : List Event

/-- Whose turn it is. -/
inductive Turn (ι : Type) where
  | client (i : ι)
  /-- somebody clears the cache -/
  | clear
deriving DecidableEq

namespace Session

variable {ι : Type}

/-- A session at its start. -/
def start (c : Cache) (requests : ι → List Query) : Session ι :=
  ⟨c, fun i => ⟨requests i, none, []⟩, []⟩

/-- The call that reaches the cache in a turn, if one does. -/
def call? (s : Session ι) : Turn ι → Option Call
  | .client i => (s.clients i).asks?.map .get
  | .clear => some .clear

variable [DecidableEq ι]

/-- A session behind a turn. -/
def turn (s : Session ι) (t : Turn ι) : Session ι where
  cache := s.cache.after (s.call? t).toList
  clients := match t with
    | .client i =>
      Function.update s.clients i ((s.clients i).next fun text => (s.cache.get text).1.outcome)
    | .clear => s.clients
  journal := s.journal ++ s.cache.journal (s.call? t).toList

/-- A session behind a list of turns. -/
def after (s : Session ι) (turns : List (Turn ι)) : Session ι :=
  turns.foldl turn s

/-- The calls that reach the cache in a list of turns. -/
def calls (s : Session ι) : List (Turn ι) → List Call
  | [] => []
  | t :: ts => (s.call? t).toList ++ (s.turn t).calls ts

variable {s : Session ι} {turns : List (Turn ι)}

/-! ## The cache -/

/-- **The cache goes through the calls that reach it**, and so do its events. -/
theorem cache_after (s : Session ι) (turns : List (Turn ι)) :
    (s.after turns).cache = s.cache.after (s.calls turns) ∧
      (s.after turns).journal = s.journal ++ s.cache.journal (s.calls turns) := by
  induction turns generalizing s with
  | nil => exact ⟨rfl, (List.append_nil _).symm⟩
  | cons t turns ih =>
    obtain ⟨hcache, hjournal⟩ := ih (s.turn t)
    constructor
    · rw [calls, Cache.after_append]
      exact hcache
    · rw [calls, Cache.journal_append, ← List.append_assoc]
      exact hjournal

/-- Clients only ask for texts, and nobody clears in their turns. -/
theorem eq_of_mem_calls {call : Call} (h : call ∈ s.calls turns) :
    (∃ text, call = .get text) ∨ call = .clear ∧ .clear ∈ turns := by
  induction turns generalizing s with
  | nil => cases h
  | cons t turns ih =>
    rcases List.mem_append.1 h with h | h
    · cases t with
      | clear =>
        obtain rfl : call = .clear := by simpa [call?] using h
        exact .inr ⟨rfl, List.mem_cons_self ..⟩
      | client i =>
        obtain ⟨text, -, rfl⟩ : ∃ text, _ ∧ Call.get text = call := by simpa [call?] using h
        exact .inl ⟨text, rfl⟩
    · exact (ih h).imp_right fun ⟨hcall, hclear⟩ => ⟨hcall, List.mem_cons_of_mem _ hclear⟩

theorem clear_not_mem_calls (h : .clear ∉ turns) : .clear ∉ s.calls turns := by
  intro hmem
  obtain ⟨text, htext⟩ | ⟨-, hclear⟩ := eq_of_mem_calls hmem
  · cases htext
  · exact h hclear

/-! ## The answers -/

theorem clients_turn (s : Session ι) (t : Turn ι) (i : ι) :
    (s.turn t).clients i =
      if t = .client i then (s.clients i).next fun text => (s.cache.get text).1.outcome
      else s.clients i := by
  cases t with
  | clear => rfl
  | client j =>
    by_cases h : j = i
    · subst h
      simp [turn]
    · simp [turn, h, Function.update_of_ne (Ne.symm h)]

/-- **A turn changes nothing in what requests come to.** -/
theorem outcomes_turn (h : s.cache.Sound) (t : Turn ι) (i : ι) :
    ((s.turn t).clients i).outcomes = (s.clients i).outcomes := by
  rw [clients_turn]
  split
  · exact Client.outcomes_next h.get_outcome _
  · rfl

theorem steps_turn (s : Session ι) (t : Turn ι) (i : ι) :
    ((s.turn t).clients i).steps =
      min ((s.clients i).steps + if t = .client i then 1 else 0)
        (2 * (s.clients i).outcomes.length) := by
  rw [clients_turn]
  split
  · exact Client.steps_next _
  · exact (min_eq_left (Client.steps_le _)).symm

/-- **A run.**  Requests come to what they came to before, and each turn of a
    client is made use of as long as it has requests. -/
theorem outcomes_steps_after (h : s.cache.Sound) (turns : List (Turn ι)) (i : ι) :
    ((s.after turns).clients i).outcomes = (s.clients i).outcomes ∧
      ((s.after turns).clients i).steps = min ((s.clients i).steps + turns.count (.client i))
        (2 * (s.clients i).outcomes.length) := by
  induction turns generalizing s with
  | nil => exact ⟨rfl, (min_eq_left (Client.steps_le _)).symm⟩
  | cons t turns ih =>
    obtain ⟨houtcomes, hsteps⟩ := ih (s := s.turn t) (h.after _)
    rw [outcomes_turn h] at houtcomes hsteps
    refine ⟨houtcomes, hsteps.trans ?_⟩
    rw [steps_turn, List.count_cons]
    simp only [beq_iff_eq]
    split <;> omega

section Start

variable {c : Cache} {requests : ι → List Query}

theorem outcomes_steps_start (h : c.Sound) (turns : List (Turn ι)) (i : ι) :
    (((start c requests).after turns).clients i).outcomes = (requests i).map Query.outcome ∧
      (((start c requests).after turns).clients i).steps =
        min (turns.count (.client i)) (2 * (requests i).length) := by
  obtain ⟨houtcomes, hsteps⟩ := outcomes_steps_after (s := start c requests) h turns i
  have hstart : ((start c requests).clients i).outcomes = (requests i).map Query.outcome := by
    simp [start, Client.outcomes]
  have hnone : ((start c requests).clients i).steps = 0 := rfl
  rw [hstart] at houtcomes hsteps
  rw [hnone, Nat.zero_add, List.length_map] at hsteps
  exact ⟨houtcomes, hsteps⟩

/-- **The answers of a client** depend on its own turns and requests only. -/
theorem answers_after (h : c.Sound) (requests : ι → List Query) (turns : List (Turn ι)) (i : ι) :
    (((start c requests).after turns).clients i).answers =
      ((requests i).take (turns.count (.client i) / 2)).map Query.outcome := by
  obtain ⟨houtcomes, hsteps⟩ := outcomes_steps_start h turns i
  rw [Client.answers_eq_take, houtcomes, hsteps, List.map_take, List.take_eq_take_iff,
    List.length_map]
  omega

/-- A client that had two turns for each request has nothing left to ask for. -/
theorem todo_after (h : c.Sound) {i : ι}
    (hdone : 2 * (requests i).length ≤ turns.count (.client i)) :
    (((start c requests).after turns).clients i).todo = [] := by
  obtain ⟨houtcomes, hsteps⟩ := outcomes_steps_start h turns i
  refine Client.todo_eq_nil ?_
  rw [hsteps, houtcomes, List.length_map, min_eq_right hdone]

end Start

/-! ## Wanted texts -/

/-- The texts that clients have still to ask for. -/
def wanted (s : Session ι) : Set String :=
  {text | ∃ i, text ∈ (s.clients i).todo.map Prod.fst}

theorem mem_wanted_turn (s : Session ι) (t : Turn ι) (text : String) :
    text ∈ s.wanted ↔ s.call? t = some (.get text) ∨ text ∈ (s.turn t).wanted := by
  cases t with
  | clear => simp [wanted, call?, clients_turn]
  | client j =>
    have hcall : s.call? (.client j) = some (.get text) ↔ (s.clients j).asks? = some text := by
      simp [call?]
    have hself : text ∈ (s.clients j).todo.map Prod.fst ↔ (s.clients j).asks? = some text ∨
        text ∈ ((s.turn (.client j)).clients j).todo.map Prod.fst := by
      rw [clients_turn, if_pos rfl, ← Option.mem_toList, ← List.mem_append, ← Client.todo_next]
    have hother (i : ι) (hi : i ≠ j) : (s.turn (.client j)).clients i = s.clients i := by
      rw [clients_turn, if_neg fun h => hi (Turn.client.inj h).symm]
    rw [hcall]
    constructor
    · rintro ⟨i, hi⟩
      rcases eq_or_ne i j with rfl | hij
      · exact (hself.1 hi).imp_right fun hi => ⟨i, hi⟩
      · exact .inr ⟨i, by rwa [hother i hij]⟩
    · rintro (hasks | ⟨i, hi⟩)
      · exact ⟨j, hself.2 (.inl hasks)⟩
      · rcases eq_or_ne i j with rfl | hij
        · exact ⟨i, hself.2 (.inr hi)⟩
        · exact ⟨i, by rwa [hother i hij] at hi⟩

/-- **A text that was wanted** has been asked for or still is. -/
theorem mem_wanted_after (s : Session ι) (turns : List (Turn ι)) (text : String) :
    text ∈ s.wanted ↔ .get text ∈ s.calls turns ∨ text ∈ (s.after turns).wanted := by
  induction turns generalizing s with
  | nil => simp [calls, after]
  | cons t turns ih =>
    rw [mem_wanted_turn s t, ih, calls, List.mem_append, Option.mem_toList, or_assoc]
    rfl

/-- **What has been asked for** when all clients have had their turns. -/
theorem mem_calls_iff {c : Cache} (h : c.Sound) {requests : ι → List Query}
    (hdone : ∀ i, 2 * (requests i).length ≤ turns.count (.client i)) (text : String) :
    .get text ∈ (start c requests).calls turns ↔ ∃ i, ∃ r ∈ requests i, r.1 = text := by
  have hnone : text ∉ ((start c requests).after turns).wanted := by
    rintro ⟨i, hi⟩
    rw [todo_after h (hdone i)] at hi
    cases hi
  have hwanted := mem_wanted_after (start c requests) turns text
  rw [or_iff_left hnone] at hwanted
  rw [← hwanted]
  simp [wanted, start]

end Session

/-! ## Contents -/

namespace Cache

/-- **The room is used up** by as many of the texts as there is room for, where
    some of them were there before. -/
theorem length_keep {o : Cache.Options} (henabled : o.enabled = true) {n : Nat}
    (hcapacity : o.capacity = some n) {before texts : List String} (hfirst : before <+: texts)
    (hnodup : texts.Nodup) {wanted : Set String}
    (hbefore : ∀ text ∈ o.keep before, text ∈ wanted) (hwanted : ∀ text ∈ wanted, text ∈ texts)
    (hnew : ∀ text ∈ texts, text ∈ before ∨ text ∈ wanted) :
    (o.keep texts).length = min n wanted.ncard := by
  have hkeep (l : List String) : o.keep l = l.take n := by rw [Options.keep, henabled, hcapacity]
  have hcard {l : List String} (hl : l.Nodup) : {text | text ∈ l}.ncard = l.length := by
    rw [← List.coe_toFinset, Set.ncard_coe_finset, List.toFinset_card_of_nodup hl]
  rw [hkeep, List.length_take]
  rcases le_or_gt before.length n with hroom | hfull
  · have hall : wanted = {text | text ∈ texts} := by
      ext text
      refine ⟨hwanted text, fun hmem => (hnew text hmem).elim (fun hold => ?_) id⟩
      refine hbefore text ?_
      rwa [hkeep, List.take_of_length_le hroom]
    rw [hall, hcard hnodup]
  · -- there was no room from the beginning
    have hsubset : {text | text ∈ before.take n} ⊆ wanted := by
      intro text hmem
      refine hbefore text ?_
      rwa [hkeep]
    have hfinite : wanted.Finite := (List.finite_toSet texts).subset hwanted
    have hle := Set.ncard_le_ncard hsubset hfinite
    have hsublist := (List.take_sublist n before).trans hfirst.sublist
    rw [hcard (hnodup.sublist hsublist), List.length_take, min_eq_left hfull.le] at hle
    rw [min_eq_left (hfull.le.trans hfirst.length_le), min_eq_left hle]

section Contents

variable {ι : Type} {requests : ι → List Query}

/-- The texts that are stored at the start, and those that are requested and
    can be read. -/
def wantedTexts (c : Cache) (requests : ι → List Query) : Set String :=
  {text | c.contains text = true ∨
    (∃ i, ∃ r ∈ requests i, r.1 = text) ∧ (Formula.parse text).isOk = true}

theorem mem_wantedTexts {c : Cache} {text : String} :
    text ∈ wantedTexts c requests ↔ c.contains text = true ∨
      (∃ i, ∃ r ∈ requests i, r.1 = text) ∧ (Formula.parse text).isOk = true :=
  Iff.rfl

variable [DecidableEq ι] {o : Options} {history : List Call} {turns : List (Turn ι)}

/-- **The texts that can be read**, of all that were asked for before and in a
    session without clearing: those that could be read before, and those that
    are requested. -/
theorem mem_readable_session
    (hdone : ∀ i, 2 * (requests i).length ≤ turns.count (.client i)) (text : String) :
    text ∈ readable (sinceClear history ++
        (Session.start ((new o).after history) requests).calls turns) ↔
      text ∈ readable (sinceClear history) ∨
        (∃ i, ∃ r ∈ requests i, r.1 = text) ∧ (Formula.parse text).isOk = true := by
  have hasked : (∃ call ∈ (Session.start ((new o).after history) requests).calls turns,
      call.text? = some text) ↔ ∃ i, ∃ r ∈ requests i, r.1 = text := by
    rw [← Session.mem_calls_iff ((Sound.new o).after history) hdone]
    constructor
    · rintro ⟨call, hcall, htext⟩
      obtain ⟨t, rfl⟩ | ⟨rfl, -⟩ := Session.eq_of_mem_calls hcall
      · cases htext
        exact hcall
      · cases htext
    · exact fun hcall => ⟨_, hcall, rfl⟩
  rw [mem_readable, mem_readable, ← or_and_right, ← hasked]
  simp only [List.mem_append, or_and_right, exists_or]

theorem texts_session (hclear : .clear ∉ turns) :
    ((Session.start ((new o).after history) requests).after turns).cache.texts =
      o.keep (readable (sinceClear history ++
        (Session.start ((new o).after history) requests).calls turns)) := by
  rw [(Session.cache_after _ _).1, Session.start, ← after_append, texts_after, stored,
    sinceClear_append _ (Session.clear_not_mem_calls hclear)]

end Contents

/-- **The order of turns does not matter.**  Let clients share a cache in any
    state and take turns in any order, with others that clear it.  Then each
    client is answered one request for every two of its turns, and with what the
    request comes to in a new cache.  If the cache is enabled and not cleared,
    and its capacity is not limited, no text is built twice, and when all
    requests have been answered, the texts in it are those that it had at the
    start and those that were requested and can be read.  If the capacity is
    limited, the number of texts in it is the number of these texts then, or
    the capacity if that is less. -/
theorem order_independent {ι : Type} [DecidableEq ι] (o : Options) (history : List Call)
    (requests : ι → List Query) (turns : List (Turn ι)) :
    let c := (new o).after history
    let s := (Session.start c requests).after turns
    (∀ i, (s.clients i).answers = ((requests i).take (turns.count (.client i) / 2)).map fun r =>
      ((new o).evaluate r.1 r.2).1.outcome) ∧
    (o.enabled = true → .clear ∉ turns →
      (o.capacity = none → ∀ text, s.journal.countP (Event.builds text) ≤ 1) ∧
      ((∀ i, 2 * (requests i).length ≤ turns.count (.client i)) →
        (o.capacity = none →
          ∀ text, s.cache.contains text = true ↔ text ∈ wantedTexts c requests) ∧
        ∀ n, o.capacity = some n → s.cache.size = min n (wantedTexts c requests).ncard)) := by
  intro c s
  have hsound : c.Sound := (Sound.new o).after history
  have hoptions : c.options = o := options_after ..
  have hstart : c.texts = o.keep (readable (sinceClear history)) := texts_after o history
  refine ⟨fun i => ?_, fun henabled hclear => ⟨fun hcapacity text => ?_, fun hdone => ⟨?_, ?_⟩⟩⟩
  · refine (Session.answers_after hsound requests turns i).trans ?_
    exact List.map_congr_left fun r _ => ((Sound.new o).evaluate_outcome r.1 r.2).symm
  · have hcalls := Session.clear_not_mem_calls (s := Session.start c requests) hclear
    have hbuilds := countP_journal (c := c) (by rw [hoptions, henabled])
      (by rw [hoptions, hcapacity]) hcalls text
    have hjournal : s.journal = c.journal _ := (Session.cache_after _ _).2
    rw [hjournal]
    split at hbuilds <;> split at hbuilds <;> omega
  · intro hcapacity text
    have hkeep (texts : List String) : o.keep texts = texts := by
      rw [Options.keep, henabled, hcapacity]
    have hmem : s.cache.contains text = true ↔ text ∈ s.cache.texts := contains_iff
    have hold : c.contains text = true ↔ text ∈ c.texts := contains_iff
    rw [hmem, texts_session hclear, hkeep, mem_readable_session hdone, mem_wantedTexts,
      hold, hstart, hkeep]
  · intro n hcapacity
    rw [size_eq_length, texts_session hclear]
    refine length_keep henabled hcapacity (readable_isPrefix _ _) (nodup_eraseDups _)
      (fun text hmem => ?_) (fun text hmem => ?_) fun text hmem => ?_
    · rw [← hstart] at hmem
      exact .inl (contains_iff.2 hmem)
    · refine (mem_readable_session hdone text).2 (hmem.imp_left fun hold => ?_)
      have hold : text ∈ c.texts := contains_iff.1 hold
      rw [hstart] at hold
      exact (o.keep_isPrefix _).subset hold
    · exact ((mem_readable_session hdone text).1 hmem).imp_right .inr

/-- Two clients that ask for one text at once, and for one that cannot be read. -/
theorem order_independent_two_clients :
    let requests : Bool → List Query :=
      fun i => bif i then [("x", .empty), ("(", .empty)] else [("x", .empty)]
    let turns : List (Turn Bool) := [.client true, .client false, .client false, .client true,
      .client true, .client true]
    let s (capacity : Option Nat) : Session Bool :=
      (Session.start ((new ⟨true, capacity⟩).after [.get "y"]) requests).after turns
    ((s none).clients false).answers = [.error (.incorrect (.unset "x"))] ∧
    (s none).journal.countP (Event.builds "x") ≤ 1 ∧
    (s none).cache.contains "x" = true ∧
    (s (some 1)).cache.size =
      min 1 (wantedTexts ((new ⟨true, some 1⟩).after [.get "y"]) requests).ncard := by
  intro requests turns s
  have hdone : ∀ i, 2 * (requests i).length ≤ turns.count (.client i) := by decide
  have hclear : .clear ∉ turns := by decide
  have hx : Formula.parse "x" = .ok (.leaf (.var "x")) := by cbv
  have halone : ((new ⟨true, none⟩).evaluate "x" .empty).1.outcome =
      .error (.incorrect (.unset "x")) := by cbv
  obtain ⟨hanswers, hrest⟩ := order_independent ⟨true, none⟩ [.get "y"] requests turns
  obtain ⟨hbuilds, hcontents⟩ := hrest rfl hclear
  obtain ⟨-, hlimited⟩ := order_independent ⟨true, some 1⟩ [.get "y"] requests turns
  have hcount : turns.count (.client false) / 2 = 1 := by decide
  refine ⟨?_, hbuilds rfl "x", ?_, ((hlimited rfl hclear).2 hdone).2 1 rfl⟩
  · refine (hanswers false).trans ?_
    rw [hcount]
    exact congrArg (fun x => [x]) halone
  · refine ((hcontents hdone).1 rfl "x").2 (.inr ⟨⟨false, ("x", .empty), ?_, rfl⟩, ?_⟩)
    · exact List.mem_singleton_self _
    · rw [hx]
      rfl

end Cache

end Reckon
