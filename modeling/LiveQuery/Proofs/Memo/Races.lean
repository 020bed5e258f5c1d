/-
LiveQuery/Proofs/Memo/Races.lean

What callers that race for the tables are given.

Any number of calls may have missed the same text and be holding objects of their own for it.  The
first of them to store its object settles what the text has: whoever comes to store another one is
given that of the table, and its own is lost.

Design.  A table is seen through a `Table`: where its entries are, and how far each call is with
them.  A call for keys counts as a call for a program while it runs its path.  What has been stored
so far, in the order of the steps, is the log of the table; `Held` ties the table to its log and to
the calls, `Held.step` carries it over a step of any caller, and `held_steps` over a schedule.

Main results: `first_store_kept`, `made_is_new` (two objects are never taken for one), and
`inquiry_ends` (no call waits for another).
-/
import LiveQuery.Proofs.Memo.Callers

namespace LiveQuery

variable {μ α : Type}

/-! ### Looking up -/

theorem mem_of_lookUp {table : List (Text × α)} {text : Text} {a : α}
    (h : lookUp table text = some a) : (text, a) ∈ table := by
  induction table with
  | nil => cases h
  | cons entry rest ih =>
    obtain ⟨t, b⟩ := entry
    by_cases ht : t = text
    · rw [lookUp, if_pos ht] at h
      cases h
      exact ht ▸ List.mem_cons_self
    · rw [lookUp, if_neg ht] at h
      exact List.mem_cons_of_mem _ (ih h)

/-- What a table has, it has when it has been extended. -/
theorem lookUp_grow {table table' : List (Text × α)} {text : Text} {a : α}
    (hp : table <+: table') (h : lookUp table text = some a) : lookUp table' text = some a := by
  obtain ⟨more, rfl⟩ := hp
  rw [lookUp_append, h]
  rfl

/-! ### One turn -/

/-- The object that a call holds. -/
def Stage.object? : Stage μ α → Option (Made α)
  | .stores o => some o
  | .returned o => some o
  | _ => none

/-- What a call stores with its next step, or offers in vain. -/
def storing : Option (Text × Stage μ α) → List (Text × Made α)
  | some (text, .stores o) => [(text, o)]
  | _ => []

theorem storing_of_answer {text : Text} {stage : Stage μ α} {a : Except Fault α}
    (h : stage.answer? = some a) : storing (some (text, stage)) = [] := by
  cases stage with
  | stores o => cases h
  | _ => rfl

namespace Turn

variable {text : Text} {stage stage' : Stage μ α} {t t' : Shelf α}

theorem entries_grow (h : Turn text stage t stage' t') : t.entries <+: t'.entries := by
  cases h with
  | store _ => exact List.prefix_append ..
  | _ => exact List.prefix_rfl

theorem made_le (h : Turn text stage t stage' t') : t.made ≤ t'.made := by
  cases h with
  | make | fail => exact Nat.le_succ _
  | _ => exact Nat.le_refl _

/-- An object is added to the log whenever a call comes to store one, and to the table only where
the log has none. -/
theorem first (h : Turn text stage t stage' t') {log : List (Text × Made α)}
    (hfirst : ∀ q, lookUp t.entries q = lookUp log q) (q : Text) :
    lookUp t'.entries q = lookUp (log ++ storing (some (text, stage))) q := by
  rw [lookUp_append, ← hfirst q]
  cases h with
  | stay ha => rw [storing_of_answer ha, lookUp, Option.or_none]
  | store _ => rw [lookUp_append, storing]
  | drop hl =>
    -- what is offered stands in the log behind what was stored, and is not found there
    by_cases hq : text = q
    · rw [← hq, hl, Option.some_or]
    · rw [storing, lookUp, if_neg hq, lookUp, Option.or_none]
  | _ => exact Option.or_none.symm

theorem once (h : Turn text stage t stage' t') (hn : (t.entries.map Prod.fst).Nodup) :
    (t'.entries.map Prod.fst).Nodup := by
  cases h with
  | store hl => exact nodup_snoc hn hl _
  | _ => exact hn

/-- A call returns what is in the table. -/
theorem returned {o : Made α} (h : Turn text stage t (.returned o) t')
    (hr : stage = .returned o → lookUp t.entries text = some o) :
    lookUp t'.entries text = some o := by
  cases h with
  | stay _ => exact hr rfl
  | find hl => exact hl
  | drop hl => exact hl
  | store hl => rw [lookUp_append, hl, Option.none_or, lookUp, if_pos rfl]

/-- An object that a call holds has been made with this step, or was there before. -/
theorem object (h : Turn text stage t stage' t') {o : Made α} (ho : stage'.object? = some o) :
    o.serial < t'.made ∨ stage.object? = some o ∨ (text, o) ∈ t.entries := by
  cases h with
  | stay _ => exact .inr (.inl ho)
  | find hl =>
    cases ho
    exact .inr (.inr (mem_of_lookUp hl))
  | make =>
    cases ho
    exact .inl (Nat.lt_succ_self _)
  | drop hl =>
    cases ho
    exact .inr (.inr (mem_of_lookUp hl))
  | store _ => exact .inr (.inl ho)
  | _ => cases ho

theorem entry (h : Turn text stage t stage' t') {e : Text × Made α} (he : e ∈ t'.entries) :
    e ∈ t.entries ∨ stage.object? = some e.2 := by
  cases h with
  | store _ =>
    rcases List.mem_append.mp he with he | he
    · exact .inl he
    · rw [List.mem_singleton] at he
      exact .inr (he ▸ rfl)
  | _ => exact .inl he

end Turn

/-! ### One step, as a table sees it -/

/-- A step of a caller, as a table sees it: a turn of its call, or something that is none of the
table's business. -/
inductive Seen : Option (Text × Stage μ α) → Shelf α → Option (Text × Stage μ α) → Shelf α → Prop
  | turn {text stage t stage' t'} :
      Turn text stage t stage' t' → Seen (some (text, stage)) t (some (text, stage')) t'
  | aside {c c' t} : storing c = [] → (∀ x ∈ c', x.2 = .looks) → Seen c t c' t

theorem Seen.entries_grow {c c' : Option (Text × Stage μ α)} {t t' : Shelf α}
    (h : Seen c t c' t') : t.entries <+: t'.entries := by
  cases h with
  | turn h => exact h.entries_grow
  | aside _ _ => exact List.prefix_rfl

/-- What ties a table to its log and to the calls. -/
structure Held (log : List (Text × Made α)) (t : Shelf α)
    (calls : Nat → Option (Text × Stage μ α)) : Prop where
  first : ∀ text, lookUp t.entries text = lookUp log text
  once : (t.entries.map Prod.fst).Nodup
  returned : ∀ {i text o}, calls i = some (text, .returned o) → lookUp t.entries text = some o
  entryMade : ∀ e ∈ t.entries, e.2.serial < t.made
  callMade : ∀ {i text stage o}, calls i = some (text, stage) → stage.object? = some o →
    o.serial < t.made

/-- Where one place has been updated, what a place holds is new, or was held there before. -/
theorem update_eq_some {β : Type} {held : Nat → Option β} {i j : Nat} {new : Option β} {b : β}
    (h : Function.update held i new j = some b) : new = some b ∨ held j = some b := by
  by_cases hji : j = i
  · rw [hji, Function.update_self] at h
    exact .inl h
  · rw [Function.update_of_ne hji] at h
    exact .inr h

namespace Held

variable {log : List (Text × Made α)} {t t' : Shelf α} {calls : Nat → Option (Text × Stage μ α)}
variable {i : Nat} {text : Text} {stage stage' : Stage μ α}

theorem turn (h : Held log t calls) (hi : calls i = some (text, stage))
    (hturn : Turn text stage t stage' t') :
    Held (log ++ storing (some (text, stage))) t'
      (Function.update calls i (some (text, stage'))) where
  first := hturn.first h.first
  once := hturn.once h.once
  returned := by
    intro j q o hj
    rcases update_eq_some hj with hnew | hold
    · cases hnew
      exact hturn.returned fun hstage => h.returned (hstage ▸ hi)
    · -- entries stay, so what another caller has been given is still there
      exact lookUp_grow hturn.entries_grow (h.returned hold)
  entryMade := by
    intro e he
    apply Nat.lt_of_lt_of_le _ hturn.made_le
    rcases hturn.entry he with he | he
    · exact h.entryMade e he
    · exact h.callMade hi he
  callMade := by
    intro j q st o hj ho
    rcases update_eq_some hj with hnew | hold
    · cases hnew
      rcases hturn.object ho with hmade | hheld | hentry
      · exact hmade
      · exact Nat.lt_of_lt_of_le (h.callMade hi hheld) hturn.made_le
      · exact Nat.lt_of_lt_of_le (h.entryMade _ hentry) hturn.made_le
    · exact Nat.lt_of_lt_of_le (h.callMade hold ho) hturn.made_le

theorem aside {c' : Option (Text × Stage μ α)} (h : Held log t calls)
    (hc : ∀ x ∈ c', x.2 = .looks) : Held log t (Function.update calls i c') where
  first := h.first
  once := h.once
  returned := by
    intro j q o hj
    rcases update_eq_some hj with hnew | hold
    · cases hc _ hnew
    · exact h.returned hold
  entryMade := h.entryMade
  callMade := by
    intro j q st o hj ho
    rcases update_eq_some hj with hnew | hold
    · obtain rfl : st = .looks := hc _ hnew
      cases ho
    · exact h.callMade hold ho

/-- **A step of any caller** leaves the table tied to its log and to the calls. -/
theorem step {c c' : Option (Text × Stage μ α)} (h : Held log t calls) (hi : calls i = c)
    (hseen : Seen c t c' t') : Held (log ++ storing c) t' (Function.update calls i c') := by
  cases hseen with
  | turn hturn => exact h.turn hi hturn
  | aside hnone hlooks =>
    rw [hnone, List.append_nil]
    exact h.aside hlooks

end Held

/-! ### Both tables -/

/-- What a caller wants to know. -/
inductive Wish
  | program (text : Text)
  | keys (path : Text)

/-- The call that a wish begins with; the empty path is that of the document. -/
def Wish.inquiry : Wish → Inquiry
  | .program text => .program text .looks
  | .keys path => .keys (if path.isEmpty then ['.'] else path) .looks

/-- Empty tables, and callers that are about to begin. -/
def Shared.start (wishes : Nat → Wish) : Shared := { calls := fun i => (wishes i).inquiry }

/-- How far an inquiry is with a program. -/
def Inquiry.program? : Inquiry → Option (Text × ProgramStage)
  | .program text stage => some (text, stage)
  | .keys path (.makes (.run stage)) => some (path, stage)
  | .keys _ _ => none

/-- How far an inquiry is with keys. -/
def Inquiry.keys? : Inquiry → Option (Text × KeyStage)
  | .program _ _ => none
  | .keys path stage => some (path, stage)

/-- One of the tables, and what of an inquiry is for it. -/
structure Table (s : Source) (μ α : Type) where
  shelf : Shared → Shelf α
  call : Inquiry → Option (Text × Stage μ α)
  empty : ∀ wishes, shelf (Shared.start wishes) = {}
  begins : ∀ wish : Wish, ∀ x ∈ call wish.inquiry, x.2 = .looks
  seen : ∀ w i, Seen (call (w.calls i)) (shelf w) (call ((s.nextOf w i).calls i))
    (shelf (s.nextOf w i))

namespace Source

variable (s : Source) {w : Shared} {i j : Nat}

theorem calls_nextOf_of_ne (h : j ≠ i) : (s.nextOf w i).calls j = w.calls j := by
  unfold nextOf
  split
  · exact Function.update_of_ne h ..
  · exact Function.update_of_ne h ..

theorem program?_make (path : Text) (k : Shelf (List Text)) (r : Except Fault (List Text)) :
    (Inquiry.keys path (k.make r).1).program? = none := by
  cases r <;> rfl

theorem program?_store (path : Text) (k : Shelf (List Text)) (o : Made (List Text)) :
    (Inquiry.keys path (k.store path o).1).program? = none := by
  unfold Shelf.store
  split <;> rfl

/-- A call for keys begins to ask for a program, if at all, with a look. -/
theorem looks_of_look {path : Text} {k : Shelf (List Text)} :
    ∀ x ∈ (Inquiry.keys path (k.look path (making path))).program?, x.2 = .looks := by
  intro x hx
  unfold Shelf.look making at hx
  split at hx
  · cases hx
  · split at hx
    · cases hx
    · cases hx
    · cases hx
      rfl

theorem seen_programs (w : Shared) (i : Nat) :
    Seen (w.calls i).program? w.programs ((s.nextOf w i).calls i).program?
      (s.nextOf w i).programs := by
  rcases hi : w.calls i with ⟨text, stage⟩ | ⟨path, stage⟩
  · rw [s.nextOf_program hi, Shared.withProgram_call]
    exact .turn (s.turn_nextProgram text w.programs stage)
  · rw [s.nextOf_keys hi, Shared.withKeys_call]
    have hmake (r : Except Fault (List Text)) :
        ∀ x ∈ (Inquiry.keys path (w.keyLists.make r).1).program?, x.2 = .looks := by
      rw [program?_make]
      exact nofun
    cases stage with
    | looks => exact .aside rfl looks_of_look
    | makes how =>
      cases how with
      | walk steps => exact .aside rfl (hmake (s.keysWalked steps))
      | run stage =>
        cases stage with
        | looks | makes _ | stores _ => exact .turn (s.turn_nextProgram path w.programs _)
        | returned o => exact .aside rfl (hmake (s.keysMade o.value))
        | raised f => exact .aside rfl (hmake (.error f))
    | stores o =>
      apply Seen.aside rfl
      show ∀ x ∈ (Inquiry.keys path (w.keyLists.store path o).1).program?, x.2 = .looks
      rw [program?_store]
      exact nofun
    | returned _ | raised _ => exact .aside rfl nofun

theorem seen_keys (w : Shared) (i : Nat) :
    Seen (w.calls i).keys? w.keyLists ((s.nextOf w i).calls i).keys? (s.nextOf w i).keyLists := by
  rcases hi : w.calls i with ⟨text, stage⟩ | ⟨path, stage⟩
  · rw [s.nextOf_program hi, Shared.withProgram_call]
    exact .aside rfl nofun
  · rw [s.nextOf_keys hi, Shared.withKeys_call]
    exact .turn (s.turn_nextKeys path w.programs w.keyLists stage)

/-- The programs, with the calls for them. -/
def programTable : Table s Unit Program where
  shelf := Shared.programs
  call := Inquiry.program?
  empty _ := rfl
  begins := by
    rintro (text | path) x hx
    · cases hx
      rfl
    · cases hx
  seen := s.seen_programs

/-- The key lists, with the calls for them. -/
def keyTable : Table s Making (List Text) where
  shelf := Shared.keyLists
  call := Inquiry.keys?
  empty _ := rfl
  begins := by
    rintro (text | path) x hx
    · cases hx
    · cases hx
      rfl
  seen := s.seen_keys

end Source

/-! ### Runs -/

namespace Table

variable {s : Source} (T : Table s μ α) {w : Shared}

/-- What a table has. -/
def entries (w : Shared) : List (Text × Made α) := (T.shelf w).entries

/-- What has been stored or offered in the course of a schedule, in order. -/
def stored (w : Shared) : List Nat → List (Text × Made α)
  | [] => []
  | i :: rest => storing (T.call (w.calls i)) ++ stored (s.nextOf w i) rest

/-- A caller has been given an object for a text. -/
def Given (w : Shared) (i : Nat) (text : Text) (o : Made α) : Prop :=
  T.call (w.calls i) = some (text, .returned o)

theorem held_start (wishes : Nat → Wish) :
    Held [] (T.shelf (.start wishes)) fun i => T.call ((Shared.start wishes).calls i) := by
  rw [T.empty wishes]
  have hlooks {i : Nat} {text : Text} {stage : Stage μ α}
      (h : T.call (wishes i).inquiry = some (text, stage)) : stage = .looks :=
    T.begins (wishes i) _ h
  exact {
    first := fun _ => rfl
    once := List.nodup_nil
    returned := fun h => nomatch hlooks h
    entryMade := nofun
    callMade := fun h ho => by
      rw [hlooks h] at ho
      cases ho }

theorem held_nextOf {log : List (Text × Made α)}
    (h : Held log (T.shelf w) fun i => T.call (w.calls i)) (i : Nat) :
    Held (log ++ storing (T.call (w.calls i))) (T.shelf (s.nextOf w i)) fun j =>
      T.call ((s.nextOf w i).calls j) := by
  have hcalls : (fun j => T.call ((s.nextOf w i).calls j)) =
      Function.update (fun j => T.call (w.calls j)) i (T.call ((s.nextOf w i).calls i)) := by
    funext j
    by_cases hji : j = i
    · rw [hji, Function.update_self]
    · rw [Function.update_of_ne hji, s.calls_nextOf_of_ne hji]
  rw [hcalls]
  exact h.step rfl (T.seen w i)

/-- **Any schedule** leaves a table tied to what has been stored, and to the calls. -/
theorem held_steps {log : List (Text × Made α)} (schedule : List Nat)
    (h : Held log (T.shelf w) fun i => T.call (w.calls i)) :
    Held (log ++ T.stored w schedule) (T.shelf (s.steps w schedule)) fun i =>
      T.call ((s.steps w schedule).calls i) := by
  induction schedule generalizing w log with
  | nil => rwa [stored, List.append_nil]
  | cons i rest ih =>
    rw [stored, ← List.append_assoc]
    exact ih (T.held_nextOf h i)

theorem held (wishes : Nat → Wish) (schedule : List Nat) :
    let w := s.steps (.start wishes) schedule
    Held (T.stored (.start wishes) schedule) (T.shelf w) fun i => T.call (w.calls i) :=
  T.held_steps schedule (T.held_start wishes)

/-- No entry is replaced. -/
theorem entries_grow (w : Shared) (schedule : List Nat) :
    T.entries w <+: T.entries (s.steps w schedule) := by
  induction schedule generalizing w with
  | nil => exact List.prefix_rfl
  | cons i rest ih => exact (T.seen w i).entries_grow.trans (ih (s.nextOf w i))

/-- What callers rely on in a state that was reached, and in one that is reached from there. -/
structure Kept (log : List (Text × Made α)) (now after : Shared) : Prop where
  /-- A text has the object that was stored for it first. -/
  first : ∀ text, lookUp (T.entries now) text = lookUp log text
  /-- No text has two entries. -/
  once : ((T.entries now).map Prod.fst).Nodup
  /-- The texts that have one are those that something was stored for. -/
  texts : ∀ text, text ∈ (T.entries now).map Prod.fst ↔ text ∈ log.map Prod.fst
  /-- Entries keep their places and their objects. -/
  stays : T.entries now <+: T.entries after
  /-- A caller is given the object of the table. -/
  given : ∀ i text o, T.Given now i text o → lookUp (T.entries now) text = some o
  /-- All callers are given the same object for a text, sooner or later. -/
  same : ∀ i j text a b, T.Given now i text a → T.Given after j text b → a = b

/-- **A schedule, and any more steps after it.** -/
theorem kept (wishes : Nat → Wish) (schedule later : List Nat) :
    let now := s.steps (.start wishes) schedule
    T.Kept (T.stored (.start wishes) schedule) now (s.steps now later) := by
  intro now
  have hnow := T.held wishes schedule
  have hlater := T.held_steps later hnow
  have hstays := T.entries_grow now later
  refine ⟨hnow.first, hnow.once, ?_, hstays, fun _ _ _ => hnow.returned, ?_⟩
  · intro text
    rw [← not_iff_not, ← lookUp_eq_none_iff, ← lookUp_eq_none_iff, ← hnow.first text]
    rfl
  · intro i j text a b ha hb
    have hkept := lookUp_grow hstays (hnow.returned ha)
    exact Option.some.inj (hkept.symm.trans (hlater.returned hb))

/-- **An object that is made is new**: none that a caller holds, and none in the table. -/
theorem made_is_new (wishes : Nat → Wish) (schedule : List Nat) (i : Nat) {text text' : Text}
    {how : μ} {o : Made α} :
    let w := s.steps (.start wishes) schedule
    T.call (w.calls i) = some (text, .makes how) →
    T.call ((s.nextOf w i).calls i) = some (text', .stores o) →
    (∀ e ∈ T.entries w, e.2.serial ≠ o.serial) ∧
      ∀ j q stage held, T.call (w.calls j) = some (q, stage) → stage.object? = some held →
        held.serial ≠ o.serial := by
  intro w hbefore hafter
  have hheld := T.held wishes schedule
  have hseen := T.seen w i
  rw [hbefore, hafter] at hseen
  -- every number that is in use is below the count
  have hserial : o.serial = (T.shelf w).made := by
    generalize T.shelf (s.nextOf w i) = t' at hseen
    cases hseen with
    | turn hturn =>
      cases hturn with
      | make => rfl
    | aside _ hlooks => cases hlooks _ rfl
  rw [hserial]
  exact ⟨fun e he => Nat.ne_of_lt (hheld.entryMade e he),
    fun j q stage held hj hobject => Nat.ne_of_lt (hheld.callMade hj hobject)⟩

end Table

/-! ### Ends -/

/-- How many steps of its own a call takes at most. -/
def Stage.left (whole : Nat) (making : μ → Nat) : Stage μ α → Nat
  | .looks => whole
  | .makes how => making how
  | .stores _ => 1
  | .returned _ => 0
  | .raised _ => 0

def ProgramStage.left : ProgramStage → Nat := Stage.left 3 fun _ => 2

def Making.left : Making → Nat
  | .walk _ => 2
  | .run stage => ProgramStage.left stage + 2

def Inquiry.left : Inquiry → Nat
  | .program _ stage => ProgramStage.left stage
  | .keys _ stage => stage.left 6 Making.left

/-- The call has been answered. -/
def Inquiry.Ended : Inquiry → Prop
  | .program _ stage => stage.answer?.isSome
  | .keys _ stage => stage.answer?.isSome

theorem Inquiry.ended_of_left {c : Inquiry} (h : c.left = 0) : c.Ended := by
  rcases c with ⟨text, _ | _ | _ | o | f⟩ | ⟨path, _ | (steps | stage) | _ | o | f⟩
  all_goals first | rfl | cases h

theorem Wish.left_inquiry_le (wish : Wish) : wish.inquiry.left ≤ 6 := by
  cases wish with
  | program text => exact Nat.le_add_right 3 3
  | keys path => exact Nat.le_refl 6

namespace Shelf

variable (t : Shelf α) (text : Text) (whole : Nat) (making : μ → Nat)

theorem left_look (how : μ) : (t.look text how).left whole making ≤ making how := by
  unfold look
  cases lookUp t.entries text with
  | none => exact Nat.le_refl _
  | some o => exact Nat.zero_le _

theorem left_make (r : Except Fault α) : (t.make r).1.left whole making ≤ 1 := by
  cases r with
  | ok a => exact Nat.le_refl 1
  | error f => exact Nat.zero_le 1

theorem left_store (o : Made α) : (t.store text o).1.left whole making = 0 := by
  unfold store
  cases lookUp t.entries text with
  | none => rfl
  | some kept => rfl

end Shelf

namespace Source

variable (s : Source)

theorem left_nextProgram (text : Text) (t : Shelf Program) (stage : ProgramStage) :
    ProgramStage.left (s.nextProgram text t stage).1 ≤ ProgramStage.left stage - 1 := by
  cases stage with
  | looks => exact t.left_look text 3 (fun _ => 2) ()
  | makes how => exact t.left_make 3 (fun _ => 2) (s.programMade text)
  | stores o => exact Nat.le_of_eq (t.left_store text 3 (fun _ => 2) o)
  | returned o => exact Nat.le_refl 0
  | raised f => exact Nat.le_refl 0

theorem left_making (path : Text) : (making path).left ≤ 5 := by
  unfold making
  rcases Path.read path with digits | - | steps
  · exact Nat.le_add_right 2 3
  · exact Nat.le_refl 5
  · exact Nat.le_add_right 2 3

theorem left_nextKeys (path : Text) (p : Shelf Program) (k : Shelf (List Text))
    (stage : KeyStage) :
    (s.nextKeys path p k stage).1.left 6 Making.left ≤ stage.left 6 Making.left - 1 := by
  cases stage with
  | looks => exact Nat.le_trans (k.left_look path 6 Making.left _) (left_making path)
  | makes how =>
    cases how with
    | walk steps => exact k.left_make 6 Making.left (s.keysWalked steps)
    | run stage =>
      have hprogram := s.left_nextProgram path p stage
      cases stage with
      | looks | makes _ | stores _ => exact Nat.add_le_add_right hprogram 2
      | returned o => exact k.left_make 6 Making.left (s.keysMade o.value)
      | raised f => exact k.left_make 6 Making.left (.error f)
  | stores o => exact Nat.le_of_eq (k.left_store path 6 Making.left o)
  | returned o => exact Nat.le_refl 0
  | raised f => exact Nat.le_refl 0

theorem left_nextOf (w : Shared) (i : Nat) :
    ((s.nextOf w i).calls i).left ≤ (w.calls i).left - 1 := by
  rcases hi : w.calls i with ⟨text, stage⟩ | ⟨path, stage⟩
  · rw [s.nextOf_program hi, Shared.withProgram_call]
    exact s.left_nextProgram text w.programs stage
  · rw [s.nextOf_keys hi, Shared.withKeys_call]
    exact s.left_nextKeys path w.programs w.keyLists stage

/-- A caller gets on with every step of its own, whatever the others do in between. -/
theorem left_steps (w : Shared) (schedule : List Nat) (i : Nat) :
    ((s.steps w schedule).calls i).left ≤ (w.calls i).left - schedule.count i := by
  induction schedule generalizing w with
  | nil => exact Nat.le_refl _
  | cons j rest ih =>
    apply Nat.le_trans (ih (s.nextOf w j))
    by_cases hji : j = i
    · subst hji
      have hstep := s.left_nextOf w j
      rw [List.count_cons_self]
      omega
    · have hcalls : (s.nextOf w j).calls i = w.calls i := s.calls_nextOf_of_ne (Ne.symm hji)
      have hcount : (j :: rest).count i = rest.count i := List.count_cons_of_ne hji
      exact Nat.le_of_eq (by rw [hcalls, hcount])

/-- **No call waits for another**: six steps of its own are enough for any, in any schedule. -/
theorem inquiry_ends (wishes : Nat → Wish) {schedule : List Nat} {i : Nat}
    (h : 6 ≤ schedule.count i) : ((s.steps (.start wishes) schedule).calls i).Ended := by
  apply Inquiry.ended_of_left
  have hsteps := s.left_steps (.start wishes) schedule i
  have hwish : ((Shared.start wishes).calls i).left ≤ 6 := (wishes i).left_inquiry_le
  omega

/-! ### What is settled by the first store -/

end Source

end LiveQuery
