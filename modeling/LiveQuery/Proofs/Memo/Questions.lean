/-
LiveQuery/Proofs/Memo/Questions.lean

Runs of questions on one set of tables: executing, compiling, looking keys up, finding a context,
suggesting, in any order and with any failures on the way.

Main result: `ask_transparent`, every question of a run is answered as on empty tables, nothing
that was stored is removed or changed, and nothing is stored for what has failed.
-/
import LiveQuery.Proofs.Memo.Answers

namespace LiveQuery

/-- A question to an evaluator and a document. -/
inductive Question
  | execute (text : Text) (token : Token)
  | compiled (text : Text)
  | keysAt (path : Text)
  | context (text : Text)
  | suggest (text : Text)
  | keysAfterBar (left right : Text)
  deriving DecidableEq, Repr

/-- What a question is answered with. -/
inductive Answer
  /-- How a run ended, and whether its token is cancelled. -/
  | ran (ending : Except Fault Outcome × Bool)
  | program (p : Except QueryError Program)
  | keys (ks : Except Fault (List Text))
  | context (c : Context)
  | offer (o : List Text × Context)

namespace Source

variable (s : Source)

/-- Asks a question of the tables. -/
def ask : Question → StateM Memo Answer
  | .execute text token => return .ran (← s.execute text token)
  | .compiled text => return .program (← s.compiled text)
  | .keysAt path => return .keys (← s.keysAt path)
  | .context text => return .context (← s.context text)
  | .suggest text => return .offer (← s.suggest text)
  | .keysAfterBar left right => return .keys (← s.keysAfterBar left right)

/-- Asks questions one after the other. -/
def askAll (qs : List Question) : StateM Memo (List Answer) := qs.mapM s.ask

/-- The answer to a question, without any table. -/
def answerTo : Question → Answer
  | .execute text token => .ran (s.ending text token)
  | .compiled text => .program (s.evaluator.program text)
  | .keysAt path => .keys (s.keysOf path)
  | .context text => .context (s.contextOf text)
  | .suggest text => .offer (s.suggestionsFor text)
  | .keysAfterBar left right => .keys (s.keysBehind left right)

theorem ask_answers (q : Question) : Answers s (s.ask q) (s.answerTo q) := by
  cases q with
  | execute text token => exact .bind (s.execute_answers text token) (.pure _)
  | compiled text => exact .bind (s.compiled_answers text) (.pure _)
  | keysAt path => exact .bind (s.keysAt_answers path) (.pure _)
  | context text => exact .bind (s.context_answers text) (.pure _)
  | suggest text => exact .bind (s.suggest_answers text) (.pure _)
  | keysAfterBar left right => exact .bind (s.keysAfterBar_answers left right) (.pure _)

theorem askAll_answers (qs : List Question) : Answers s (s.askAll qs) (qs.map s.answerTo) := by
  unfold askAll
  induction qs with
  | nil => exact .pure _
  | cons q rest ih =>
    rw [List.mapM_cons, List.map_cons]
    exact .bind (s.ask_answers q) (.bind ih (.pure _))

/-! ### What is stored -/

variable {s} {m : Memo}

/-- A path at which the keys cannot be had has no key list. -/
theorem lookUp_keyLists_of_error (hm : m.Coherent s) {path : Text} {f : Fault}
    (h : s.keysOf path = .error f) : lookUp m.keyLists path = none := by
  rcases hl : lookUp m.keyLists path with - | ks
  · rfl
  · have hks : s.keysOf path = .ok ks := hm.keyLists hl
    rw [h] at hks
    cases hks

/-- A text that is no program has none in the tables. -/
theorem lookUp_programs_of_error (hm : m.Coherent s) {text : Text} {e : QueryError}
    (h : s.evaluator.program text = .error e) : lookUp m.programs text = none := by
  rcases hl : lookUp m.programs text with - | p
  · rfl
  · have hp : s.evaluator.program text = .ok p := hm.programs hl
    rw [h] at hp
    cases hp

/-- **The tables are transparent.**  After any questions, each is answered as on empty tables.
A further question is answered so as well; it adds entries behind those there were, and
afterwards there is no key list for a path at which the keys cannot be had, and no program for a
text that is none. -/
theorem ask_transparent (s : Source) (qs : List Question) (q : Question) :
    let m := (s.askAll qs {}).2
    let m' := (s.ask q m).2
    (s.askAll qs {}).1 = qs.map (fun q => (s.ask q {}).1) ∧
    (s.ask q m).1 = (s.ask q {}).1 ∧
    m.Extends m' ∧
    (∀ path f, (s.keysAt path {}).1 = .error f → lookUp m'.keyLists path = none) ∧
    (∀ text e, (s.compiled text {}).1 = .error e → lookUp m'.programs text = none) := by
  intro m m'
  obtain ⟨hall, hm, -⟩ := s.askAll_answers qs {} (Memo.coherent_empty s)
  obtain ⟨hq, hm', hext⟩ := s.ask_answers q m hm
  have hfresh : (fun q => (s.ask q {}).1) = s.answerTo := funext fun q => (s.ask_answers q).eq_fresh
  refine ⟨by rw [hall, hfresh], by rw [hq, (s.ask_answers q).eq_fresh], hext, ?_, ?_⟩
  · intro path f h
    exact lookUp_keyLists_of_error hm' ((s.keysAt_answers path).eq_fresh ▸ h)
  · intro text e h
    exact lookUp_programs_of_error hm' ((s.compiled_answers text).eq_fresh ▸ h)

end Source

end LiveQuery
