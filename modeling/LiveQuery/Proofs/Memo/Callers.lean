/-
LiveQuery/Proofs/Memo/Callers.lean

Callers that share the tables.

A call for the program of a text, or for the keys at a path, is not one step on the tables.  It
looks its text up; where there is no entry it makes one, on its own; and then it stores what it
has made, unless there is an entry by now, and returns the entry that is there.  Only the single
steps are atomic, and between two of them any other call may take one.  A call for keys at a path
that is not simple makes them from the program of the path, which is a call of its own.

Two objects that were made apart are different ones, even where they are alike.  So every object
carries the number of its making.

Design.  `Stage` is how far a call has come, and `Turn` is all that one step can do to it and to
its table; both kinds of calls are instances (`turn_nextProgram`, `turn_nextKeys`).  That these are
the steps of the questions is said by the calls that nobody interrupts.

Main results: `program_alone` and `keys_alone`, a call whose steps follow each other is answered
as the question is, and leaves the tables as the question does.
-/
import Mathlib.Logic.Function.Iterate
import LiveQuery.Proofs.Memo.Answers

namespace LiveQuery

variable {μ α : Type}

/-! ### Calls -/

/-- An object that was made for a table, and the number of its making. -/
structure Made (α : Type) where
  serial : Nat
  value : α

/-- A table of objects, and how often one was to be made for it. -/
structure Shelf (α : Type) where
  entries : List (Text × Made α) := []
  made : Nat := 0

/-- How far a call for an entry has come. -/
inductive Stage (μ α : Type)
  /-- It is about to look its text up. -/
  | looks
  /-- It has found nothing, and is making an object. -/
  | makes (how : μ)
  /-- It is about to store its object. -/
  | stores (o : Made α)
  | returned (o : Made α)
  | raised (f : Fault)

/-- The answer of a call that has come to its end. -/
def Stage.answer? : Stage μ α → Option (Except Fault α)
  | .returned o => some (.ok o.value)
  | .raised f => some (.error f)
  | _ => none

/-- A call for a program. -/
abbrev ProgramStage := Stage Unit Program

/-- How keys are made: by a walk along a simple path, unless it has a number of too many digits, or
from the program of the path. -/
inductive Making
  | walk (steps : Except Nat Path)
  | run (program : ProgramStage)

/-- A call for keys. -/
abbrev KeyStage := Stage Making (List Text)

/-- A call, with the text that it is for. -/
inductive Inquiry
  | program (text : Text) (stage : ProgramStage)
  | keys (path : Text) (stage : KeyStage)

/-- The tables, and a call for every caller.  One that asks again counts as another caller. -/
structure Shared where
  programs : Shelf Program := {}
  keyLists : Shelf (List Text) := {}
  calls : Nat → Inquiry

namespace Shared

variable (w : Shared) (i : Nat) (text : Text)

/-- A call for a program has come to a stage, and the programs are these. -/
def withProgram (x : ProgramStage × Shelf Program) : Shared :=
  { w with programs := x.2, calls := Function.update w.calls i (.program text x.1) }

/-- A call for keys has come to a stage, and the tables are these. -/
def withKeys (x : KeyStage × Shelf Program × Shelf (List Text)) : Shared :=
  ⟨x.2.1, x.2.2, Function.update w.calls i (.keys text x.1)⟩

@[simp] theorem withProgram_call (x) : (w.withProgram i text x).calls i = .program text x.1 :=
  Function.update_self ..

@[simp] theorem withKeys_call (x) : (w.withKeys i text x).calls i = .keys text x.1 :=
  Function.update_self ..

@[simp] theorem withProgram_withProgram (x y) :
    (w.withProgram i text x).withProgram i text y = w.withProgram i text y := by
  simp only [withProgram, Function.update_idem]

@[simp] theorem withKeys_withKeys (x y) :
    (w.withKeys i text x).withKeys i text y = w.withKeys i text y := by
  simp only [withKeys, Function.update_idem]

variable {w i text}

theorem withProgram_self {stage : ProgramStage} (h : w.calls i = .program text stage) :
    w.withProgram i text (stage, w.programs) = w := by
  rw [withProgram, ← h, Function.update_eq_self]

theorem withKeys_self {stage : KeyStage} (h : w.calls i = .keys text stage) :
    w.withKeys i text (stage, w.programs, w.keyLists) = w := by
  rw [withKeys, ← h, Function.update_eq_self]

end Shared

/-! ### Atomic steps -/

namespace Shelf

/-- Looks a text up. -/
def look (t : Shelf α) (text : Text) (how : μ) : Stage μ α :=
  match lookUp t.entries text with
  | some o => .returned o
  | none => .makes how

/-- Makes an object, or fails to. -/
def make (t : Shelf α) (made : Except Fault α) : Stage μ α × Shelf α :=
  (match made with
    | .ok a => .stores ⟨t.made, a⟩
    | .error f => .raised f,
   { t with made := t.made + 1 })

/-- Stores an object under a text unless there is one, and returns the one that is there. -/
def store (t : Shelf α) (text : Text) (o : Made α) : Stage μ α × Shelf α :=
  match lookUp t.entries text with
  | some kept => (.returned kept, t)
  | none => (.returned o, { t with entries := t.entries ++ [(text, o)] })

end Shelf

namespace Source

variable (s : Source)

/-- The program that is made of a text. -/
def programMade (text : Text) : Except Fault Program :=
  match s.evaluator.program text with
  | .ok p => .ok p
  | .error e => .error (.query e)

/-- The keys of the first value that a program yields. -/
def keysMade (program : Program) : Except Fault (List Text) :=
  match firstElement (program s.document) with
  | .error f => .error f
  | .ok none => .ok []
  | .ok (some v) => .ok v.keys

/-- The keys at the end of a walk. -/
def keysWalked : Except Nat Path → Except Fault (List Text)
  | .ok steps => .ok (s.document.keysAt steps)
  | .error digits => .error (.tooLong digits)

/-- How the keys at a path are made. -/
def making (path : Text) : Making :=
  match Path.read path with
  | .error digits => .walk (.error digits)
  | .ok (some steps) => .walk (.ok steps)
  | .ok none => .run .looks

/-- One step of a call for a program. -/
def nextProgram (text : Text) (t : Shelf Program) : ProgramStage → ProgramStage × Shelf Program
  | .looks => (t.look text (), t)
  | .makes () => t.make (s.programMade text)
  | .stores o => t.store text o
  | .returned o => (.returned o, t)
  | .raised f => (.raised f, t)

/-- One step of a call for keys. -/
def nextKeys (path : Text) (p : Shelf Program) (k : Shelf (List Text)) :
    KeyStage → KeyStage × Shelf Program × Shelf (List Text)
  | .looks => (k.look path (making path), p, k)
  | .makes (.walk steps) =>
    let (stage, k) := k.make (s.keysWalked steps)
    (stage, p, k)
  | .makes (.run (.returned o)) =>
    let (stage, k) := k.make (s.keysMade o.value)
    (stage, p, k)
  | .makes (.run (.raised f)) =>
    let (stage, k) := k.make (.error f)
    (stage, p, k)
  | .makes (.run stage) =>
    let (stage, p) := s.nextProgram path p stage
    (.makes (.run stage), p, k)
  | .stores o =>
    let (stage, k) := k.store path o
    (stage, p, k)
  | .returned o => (.returned o, p, k)
  | .raised f => (.raised f, p, k)

/-- The next step of a caller. -/
def nextOf (w : Shared) (i : Nat) : Shared :=
  match w.calls i with
  | .program text stage => w.withProgram i text (s.nextProgram text w.programs stage)
  | .keys path stage => w.withKeys i path (s.nextKeys path w.programs w.keyLists stage)

theorem nextOf_program {w : Shared} {i : Nat} {text : Text} {stage : ProgramStage}
    (hi : w.calls i = .program text stage) :
    s.nextOf w i = w.withProgram i text (s.nextProgram text w.programs stage) := by
  rw [nextOf, hi]

theorem nextOf_keys {w : Shared} {i : Nat} {path : Text} {stage : KeyStage}
    (hi : w.calls i = .keys path stage) :
    s.nextOf w i = w.withKeys i path (s.nextKeys path w.programs w.keyLists stage) := by
  rw [nextOf, hi]

/-- Steps of callers, in the order of the schedule. -/
def steps (w : Shared) (schedule : List Nat) : Shared := schedule.foldl s.nextOf w

end Source

/-! ### What one step can do -/

/-- One step of a call on its table. -/
inductive Turn (text : Text) : Stage μ α → Shelf α → Stage μ α → Shelf α → Prop
  | stay {stage t a} : stage.answer? = some a → Turn text stage t stage t
  | find {t o} : lookUp t.entries text = some o → Turn text .looks t (.returned o) t
  | miss {t how} : lookUp t.entries text = none → Turn text .looks t (.makes how) t
  | goOn {t how how'} : Turn text (.makes how) t (.makes how') t
  | make {t how a} :
      Turn text (.makes how) t (.stores ⟨t.made, a⟩) { t with made := t.made + 1 }
  | fail {t how f} : Turn text (.makes how) t (.raised f) { t with made := t.made + 1 }
  | drop {t o kept} :
      lookUp t.entries text = some kept → Turn text (.stores o) t (.returned kept) t
  | store {t o} : lookUp t.entries text = none →
      Turn text (.stores o) t (.returned o) { t with entries := t.entries ++ [(text, o)] }

namespace Shelf

variable (t : Shelf α) (text : Text)

theorem turn_look (how : μ) : Turn text .looks t (t.look text how) t := by
  unfold look
  rcases h : lookUp t.entries text with - | o
  · exact .miss h
  · exact .find h

theorem turn_make (how : μ) (made : Except Fault α) :
    Turn text (.makes how) t (t.make made).1 (t.make (μ := μ) made).2 := by
  cases made with
  | ok a => exact .make
  | error f => exact .fail

theorem turn_store (o : Made α) :
    Turn text (.stores o) t (t.store (μ := μ) text o).1 (t.store (μ := μ) text o).2 := by
  unfold store
  rcases h : lookUp t.entries text with - | kept
  · exact .store h
  · exact .drop h

end Shelf

namespace Source

variable (s : Source)

/-- **A call for a program** takes a turn with every step. -/
theorem turn_nextProgram (text : Text) (t : Shelf Program) (stage : ProgramStage) :
    Turn text stage t (s.nextProgram text t stage).1 (s.nextProgram text t stage).2 := by
  cases stage with
  | looks => exact t.turn_look text ()
  | makes how => exact t.turn_make text how _
  | stores o => exact t.turn_store text o
  | returned o => exact .stay rfl
  | raised f => exact .stay rfl

/-- **A call for keys** takes a turn with every step. -/
theorem turn_nextKeys (path : Text) (p : Shelf Program) (k : Shelf (List Text))
    (stage : KeyStage) :
    Turn path stage k (s.nextKeys path p k stage).1 (s.nextKeys path p k stage).2.2 := by
  rcases stage with - | (steps | stage) | o | o | f
  · exact k.turn_look path (making path)
  · exact k.turn_make path (Making.walk steps) (s.keysWalked steps)
  · cases stage with
    | looks | makes how | stores o => exact .goOn
    | returned o => exact k.turn_make path (Making.run (.returned o)) (s.keysMade o.value)
    | raised f => exact k.turn_make path (Making.run (.raised f)) (.error f)
  · exact k.turn_store path o
  · exact .stay rfl
  · exact .stay rfl

end Source

/-! ### Calls that nobody interrupts -/

/-- The entries of a table, without the numbers of their making. -/
def Shelf.plain (t : Shelf α) : List (Text × α) := t.entries.map fun e => (e.1, e.2.value)

/-- The tables as the questions know them, beside the answers on which texts are filters and the
text of the document that other tables hold. -/
def memoOf (p : Shelf Program) (k : Shelf (List Text)) (rest : Memo) : Memo :=
  { rest with programs := p.plain, keyLists := k.plain, compiles := p.made }

theorem lookUp_map {β : Type} (f : α → β) (table : List (Text × α)) (text : Text) :
    lookUp (table.map fun e => (e.1, f e.2)) text = (lookUp table text).map f := by
  induction table with
  | nil => rfl
  | cons entry rest ih =>
    obtain ⟨t, a⟩ := entry
    by_cases h : t = text
    · simp [lookUp, h]
    · simp [lookUp, h, ih]

theorem Shelf.lookUp_plain (t : Shelf α) (text : Text) :
    lookUp t.plain text = (lookUp t.entries text).map Made.value :=
  lookUp_map Made.value t.entries text

theorem Shelf.plain_snoc (t : Shelf α) (text : Text) (o : Made α) (made : Nat) :
    (Shelf.mk (t.entries ++ [(text, o)]) made).plain = t.plain ++ [(text, o.value)] :=
  List.map_append

namespace Source

variable (s : Source) (text path : Text) (p : Shelf Program) (k : Shelf (List Text))
variable (rest : Memo)

/-- Steps of a call for a program that follow each other. -/
def programSteps (n : Nat) : ProgramStage × Shelf Program → ProgramStage × Shelf Program :=
  (fun x => s.nextProgram text x.2 x.1)^[n]

/-- Steps of a call for keys that follow each other. -/
def keySteps (n : Nat) :
    KeyStage × Shelf Program × Shelf (List Text) → KeyStage × Shelf Program × Shelf (List Text) :=
  (fun x => s.nextKeys path x.2.1 x.2.2 x.1)^[n]

/-- Compiling does not touch the text of the document. -/
theorem transcript_compiled (m : Memo) : (s.compiled text m).2.transcript = m.transcript := by
  unfold compiled
  rcases lookUp m.programs text with - | p
  · rcases s.evaluator.program text with e | p
    · rfl
    · rfl
  · rfl

variable {s} in
/-- Keys by running are made of the program, whether or not the text of the document is kept. -/
theorem keysByRunning_eq {m m' : Memo} {made : Except QueryError Program}
    (hm : s.Recalls m.transcript) (hc : s.compiled text m = (made, m')) :
    ∃ kept, s.Recalls kept ∧
      s.keysByRunning text m =
        ((made.mapError Fault.query).bind s.keysMade, { m' with transcript := kept }) := by
  have hm' : s.Recalls m'.transcript := by
    rwa [← congrArg (fun x => x.2.transcript) hc, transcript_compiled]
  unfold keysByRunning
  simp only [bind, StateT.bind, hc]
  cases made with
  | error e => exact ⟨m'.transcript, hm', rfl⟩
  | ok program =>
    obtain ⟨hevents, hkept⟩ := hm'.stream program
    have hstream : s.stream program m' = (program s.document,
        { m' with transcript := (program.stream s.object s.document m'.transcript).2 }) :=
      Prod.ext hevents rfl
    refine ⟨_, hkept, ?_⟩
    show _ = (s.keysMade program, _)
    unfold keysMade
    simp only [bind, StateT.bind, hstream]
    rcases firstElement (program s.document) with f | _ | v
    all_goals rfl

/-- The question for a program, on tables that callers share. -/
theorem compiled_memoOf :
    s.compiled text (memoOf p k rest) =
      match lookUp p.entries text with
      | some o => (.ok o.value, memoOf p k rest)
      | none =>
        match s.evaluator.program text with
        | .ok program => (.ok program,
            memoOf ⟨p.entries ++ [(text, ⟨p.made, program⟩)], p.made + 1⟩ k rest)
        | .error e => (.error e, memoOf { p with made := p.made + 1 } k rest) := by
  have hplain : lookUp (memoOf p k rest).programs text = _ := p.lookUp_plain text
  simp only [compiled, hplain]
  rcases lookUp p.entries text with - | o
  · rcases s.evaluator.program text with e | program
    · rfl
    · simp only [Option.map_none, memoOf, Shelf.plain_snoc]
  · rfl

/-- **Three steps of a call for a program** are the question for it. -/
theorem programSteps_eq_compiled :
    let last := s.programSteps text 3 (.looks, p)
    let asked := s.compiled text (memoOf p k rest)
    last.1.answer? = some (asked.1.mapError Fault.query) ∧
      asked.2 = memoOf last.2 k rest := by
  intro last asked
  have hasked : asked = _ := s.compiled_memoOf text p k rest
  rw [hasked]
  rcases hl : lookUp p.entries text with - | o
  · rcases hp : s.evaluator.program text with e | program
    · have hlast : last = (.raised (.query e), { p with made := p.made + 1 }) := by
        simp [last, programSteps, nextProgram, Shelf.look, Shelf.make, programMade, hl, hp]
      rw [hlast]
      exact ⟨rfl, rfl⟩
    · have hlast : last = (.returned ⟨p.made, program⟩,
          ⟨p.entries ++ [(text, ⟨p.made, program⟩)], p.made + 1⟩) := by
        simp [last, programSteps, nextProgram, Shelf.look, Shelf.make, Shelf.store, programMade,
          hl, hp]
      rw [hlast]
      exact ⟨rfl, rfl⟩
  · have hlast : last = (.returned o, p) := by
      simp [last, programSteps, nextProgram, Shelf.look, hl]
    rw [hlast]
    exact ⟨rfl, rfl⟩

/-- A call for keys that has made its answer, and stored it where there was none. -/
def keysDone : Except Fault (List Text) → KeyStage × Shelf Program × Shelf (List Text)
  | .ok ks => (.returned ⟨k.made, ks⟩, p, ⟨k.entries ++ [(path, ⟨k.made, ks⟩)], k.made + 1⟩)
  | .error f => (.raised f, p, { k with made := k.made + 1 })

variable {path p k}

theorem answer_keysDone (r : Except Fault (List Text)) :
    (keysDone path p k r).1.answer? = some r := by
  cases r <;> rfl

theorem programs_keysDone (r : Except Fault (List Text)) : (keysDone path p k r).2.1 = p := by
  cases r <;> rfl

/-- A call that has come to its end stays there. -/
theorem keySteps_ended {stage : KeyStage} {a : Except Fault (List Text)}
    (h : stage.answer? = some a) (n : Nat) :
    s.keySteps path n (stage, p, k) = (stage, p, k) := by
  apply Function.iterate_fixed
  cases stage with
  | returned _ | raised _ => rfl
  | _ => cases h

theorem keySteps_done (n : Nat) (r : Except Fault (List Text)) :
    s.keySteps path n (keysDone path p k r) = keysDone path p k r :=
  s.keySteps_ended (answer_keysDone r) n

theorem programSteps_succ (n : Nat) (x : ProgramStage × Shelf Program) :
    s.programSteps path (n + 1) x = s.programSteps path n (s.nextProgram path x.2 x.1) :=
  Function.iterate_succ_apply _ n x

theorem keySteps_succ (n : Nat) (x : KeyStage × Shelf Program × Shelf (List Text)) :
    s.keySteps path (n + 1) x = s.keySteps path n (s.nextKeys path x.2.1 x.2.2 x.1) :=
  Function.iterate_succ_apply _ n x

variable (hk : lookUp k.entries path = none)
include hk

/-- What has been made is stored with the next step. -/
theorem keySteps_made (n : Nat) (r : Except Fault (List Text)) :
    s.keySteps path (n + 1) ((k.make r).1, p, (k.make (μ := Making) r).2) =
      keysDone path p k r := by
  rw [keySteps_succ, ← s.keySteps_done n r]
  congr 1
  cases r with
  | ok ks => simp [Shelf.make, nextKeys, Shelf.store, hk, keysDone]
  | error f => rfl

theorem keySteps_walk (n : Nat) (steps : Except Nat Path) :
    s.keySteps path (n + 2) (.makes (.walk steps), p, k) =
      keysDone path p k (s.keysWalked steps) := by
  rw [keySteps_succ]
  exact s.keySteps_made hk n (s.keysWalked steps)

/-- **The keys of a path that is run** are made once its program is there. -/
theorem keySteps_run {n : Nat} {stage last : ProgramStage} {p' : Shelf Program}
    {a : Except Fault Program} (hlast : s.programSteps path n (stage, p) = (last, p'))
    (ha : last.answer? = some a) :
    s.keySteps path (n + 2) (.makes (.run stage), p, k) =
      keysDone path p' k (a.bind s.keysMade) := by
  induction n generalizing stage p with
  | zero =>
    cases hlast
    rw [keySteps_succ]
    cases last with
    | returned o =>
      cases ha
      exact s.keySteps_made hk 0 (s.keysMade o.value)
    | raised f =>
      cases ha
      exact s.keySteps_made hk 0 (.error f)
    | _ => cases ha
  | succ n ih =>
    rw [programSteps_succ] at hlast
    cases stage with
    | returned _ | raised _ =>
      -- the program is there before its last step, and the keys are made without waiting
      rw [Nat.add_right_comm, Nat.add_comm, keySteps, Function.iterate_add_apply, ← keySteps,
        ← keySteps, ih hlast]
      exact s.keySteps_done 1 _
    | _ =>
      rw [keySteps_succ]
      exact ih hlast

/-- What is left to do with an answer, on tables that callers share. -/
theorem stored_memoOf (r : Except Fault (List Text)) :
    (match r with
      | .ok ks => return .ok (← storeKeys path ks)
      | .error f => return .error f : StateM Memo (Except Fault (List Text)))
        (memoOf p k rest) =
      (r, memoOf p (keysDone path p k r).2.2 rest) := by
  cases r with
  | error f => rfl
  | ok ks =>
    have hplain : lookUp (memoOf p k rest).keyLists path = none := by
      rw [show (memoOf p k rest).keyLists = k.plain from rfl, k.lookUp_plain, hk]
      rfl
    simp only [bind, StateT.bind]
    unfold storeKeys
    rw [hplain]
    simp only [keysDone, memoOf, Shelf.plain_snoc]
    rfl

/-- **Five steps of a call for keys** make what the table has no entry for. -/
theorem keySteps_missed (hkept : s.Recalls rest.transcript) :
    let last := s.keySteps path 5 (.makes (making path), p, k)
    let asked := s.keysMissed path (memoOf p k rest)
    last.1.answer? = some asked.1 ∧
      ∃ kept, s.Recalls kept ∧
        asked.2 = memoOf last.2.1 last.2.2 { rest with transcript := kept } := by
  intro last asked
  -- a walk takes two steps, whether or not it comes to an end
  have hwalk (steps : Except Nat Path) (hmaking : making path = .walk steps)
      (hmissed : asked = (match s.keysWalked steps with
        | .ok ks => return .ok (← storeKeys path ks)
        | .error f => return .error f : StateM Memo (Except Fault (List Text)))
          (memoOf p k rest)) :
      last.1.answer? = some asked.1 ∧ ∃ kept, s.Recalls kept ∧
        asked.2 = memoOf last.2.1 last.2.2 { rest with transcript := kept } := by
    have hlast : last = keysDone path p k (s.keysWalked steps) := by
      simp only [last, hmaking]
      exact s.keySteps_walk hk 3 steps
    rw [hmissed, stored_memoOf rest hk, hlast]
    refine ⟨answer_keysDone _, rest.transcript, hkept, ?_⟩
    rw [programs_keysDone]
  rcases hp : Path.read path with digits | - | steps
  · refine hwalk (.error digits) (by rw [making, hp]) ?_
    simp only [asked, keysMissed, hp, keysWalked]
  · -- the path is run: its program takes three steps, and its keys two more
    obtain ⟨hanswer, htable⟩ := s.programSteps_eq_compiled path p k rest
    generalize hrun : s.programSteps path 3 (.looks, p) = run at hanswer htable
    have hcompiled : s.compiled path (memoOf p k rest) = (_, memoOf run.2 k rest) :=
      Prod.ext rfl htable
    obtain ⟨kept, hkept, hkeys⟩ := keysByRunning_eq path (m := memoOf p k rest) hkept hcompiled
    have hlast := s.keySteps_run hk hrun hanswer
    generalize ((s.compiled path (memoOf p k rest)).1.mapError Fault.query).bind s.keysMade = made
      at hkeys hlast
    replace hlast : last = keysDone path run.2 k made := by
      simpa only [last, making, hp] using hlast
    have hasked : asked =
        (made, memoOf run.2 last.2.2 { rest with transcript := kept }) := by
      rw [hlast, ← stored_memoOf _ hk]
      simp only [asked, keysMissed, hp, bind, StateT.bind]
      rw [hkeys]
      rfl
    rw [hasked, hlast, programs_keysDone]
    exact ⟨answer_keysDone _, kept, hkept, rfl⟩
  · refine hwalk (.ok steps) (by rw [making, hp]) ?_
    simp only [asked, keysMissed, hp, keysWalked]

omit hk in
variable (path) in
/-- **Six steps of a call for keys** are the question for them. -/
theorem keySteps_eq_keysAt (hkept : s.Recalls rest.transcript) :
    let root := if path.isEmpty then ['.'] else path
    let last := s.keySteps root 6 (.looks, p, k)
    let asked := s.keysAt path (memoOf p k rest)
    last.1.answer? = some asked.1 ∧
      ∃ kept, s.Recalls kept ∧
        asked.2 = memoOf last.2.1 last.2.2 { rest with transcript := kept } := by
  intro root last asked
  have hplain : lookUp (memoOf p k rest).keyLists root = _ := k.lookUp_plain root
  have hasked : asked = _ := s.keysAt_eq path (memoOf p k rest)
  rw [hplain] at hasked
  rcases hk : lookUp k.entries root with - | o
  · have hlast : last = s.keySteps root 5 (.makes (making root), p, k) := by
      simp [last, keySteps_succ, nextKeys, Shelf.look, hk]
    rw [hasked, hlast, hk]
    exact s.keySteps_missed rest hk hkept
  · have hlast : last = (.returned o, p, k) := by
      have hfound : last = s.keySteps root 5 (.returned o, p, k) := by
        simp [last, keySteps_succ, nextKeys, Shelf.look, hk]
      rw [hfound]
      exact s.keySteps_ended rfl 5
    rw [hasked, hlast, hk]
    exact ⟨rfl, rest.transcript, hkept, rfl⟩

omit hk
variable {w : Shared} {i : Nat}

/-- **Steps of one caller** are steps of the part of the state that its steps read and write. -/
theorem steps_replicate {σ : Type} {whole : σ → Shared} {next : σ → σ}
    (h : ∀ x, s.nextOf (whole x) i = whole (next x)) (n : Nat) (x : σ) :
    s.steps (whole x) (List.replicate n i) = whole (next^[n] x) := by
  induction n generalizing x with
  | zero => rfl
  | succ n ih =>
    show s.steps (s.nextOf (whole x) i) (List.replicate n i) = _
    rw [h, ih, Function.iterate_succ_apply]

theorem steps_program {stage : ProgramStage} (hi : w.calls i = .program text stage) (n : Nat) :
    s.steps w (List.replicate n i) =
      w.withProgram i text (s.programSteps text n (stage, w.programs)) := by
  have hnext (x : ProgramStage × Shelf Program) : s.nextOf (w.withProgram i text x) i =
      w.withProgram i text (s.nextProgram text x.2 x.1) := by
    rw [s.nextOf_program (w.withProgram_call i text x), Shared.withProgram_withProgram]
    rfl
  have hsteps := s.steps_replicate hnext n (stage, w.programs)
  rwa [Shared.withProgram_self hi] at hsteps

theorem steps_keys {stage : KeyStage} (hi : w.calls i = .keys path stage) (n : Nat) :
    s.steps w (List.replicate n i) =
      w.withKeys i path (s.keySteps path n (stage, w.programs, w.keyLists)) := by
  have hnext (x : KeyStage × Shelf Program × Shelf (List Text)) :
      s.nextOf (w.withKeys i path x) i = w.withKeys i path (s.nextKeys path x.2.1 x.2.2 x.1) := by
    rw [s.nextOf_keys (w.withKeys_call i path x), Shared.withKeys_withKeys]
    rfl
  have hsteps := s.steps_replicate hnext n (stage, w.programs, w.keyLists)
  rwa [Shared.withKeys_self hi] at hsteps

/-- **A call for a program that nobody interrupts** is answered as the question is, and leaves
the tables as the question does; the other calls stand where they stood. -/
theorem program_alone (hi : w.calls i = .program text .looks) :
    let asked := s.compiled text (memoOf w.programs w.keyLists rest)
    let after := s.steps w (List.replicate 3 i)
    ∃ stage, after.calls = Function.update w.calls i (.program text stage) ∧
      stage.answer? = some (asked.1.mapError Fault.query) ∧
      asked.2 = memoOf after.programs after.keyLists rest := by
  intro asked after
  have hafter : after = _ := s.steps_program text hi 3
  obtain ⟨hanswer, htables⟩ := s.programSteps_eq_compiled text w.programs w.keyLists rest
  rw [hafter]
  exact ⟨_, rfl, hanswer, htables⟩

/-- **A call for keys that nobody interrupts** is answered as the question is, and leaves the
tables as the question does; the other calls stand where they stood.  The question may have the
text of the document written out besides, and the call is answered so whether or not it is kept. -/
theorem keys_alone (hkept : s.Recalls rest.transcript)
    (hi : w.calls i = .keys (if path.isEmpty then ['.'] else path) .looks) :
    let asked := s.keysAt path (memoOf w.programs w.keyLists rest)
    let after := s.steps w (List.replicate 6 i)
    ∃ stage, after.calls =
        Function.update w.calls i (.keys (if path.isEmpty then ['.'] else path) stage) ∧
      stage.answer? = some asked.1 ∧
      ∃ kept, s.Recalls kept ∧
        asked.2 = memoOf after.programs after.keyLists { rest with transcript := kept } := by
  intro asked after
  have hafter : after = _ := s.steps_keys hi 6
  obtain ⟨hanswer, htables⟩ := s.keySteps_eq_keysAt path rest hkept
  rw [hafter]
  exact ⟨_, rfl, hanswer, htables⟩

end Source

end LiveQuery
