/-
LiveQuery/Proofs/Memo/Compilations.lean

What the evaluator has compiled, and why.

The tables count compilations, but not the calls that make them: one question may ask for several
programs, ask of several texts whether they are filters, and go on when a call has failed.  `Makes`
says which calls an action makes on given tables, with what came of each of them; it follows the
program of the action down to the operations on the tables, of which only two can compile.

Design.  Each call is settled at once: it costs a compilation only if the tables have missed it, and
then it leaves an entry or has failed (`Memo.Recorded`).  These accounts are added up along the
program (`Memo.Recorded.trans`, `Makes.recorded`), so that the balance holds after any questions.

Main result: `compiles_balance`.
-/
import LiveQuery.Proofs.Memo.Questions

namespace LiveQuery

/-- A call to the tables, and what came of it. -/
inductive Memo.Call
  /-- The program of a text was asked for: whether the tables had none, and the answer. -/
  | program (text : Text) (missed : Bool) (answer : Except QueryError Program)
  /-- It was asked whether a text is a filter: whether the tables did not know. -/
  | validity (text : Text) (missed : Bool)

namespace Memo.Call

/-- Whether the call has compiled a text.  The trivial filters are known without it. -/
def hasCompiled : Memo.Call → Bool
  | program _ missed _ => missed
  | validity text missed => missed && !Evaluator.isTrivial text

/-- What it costs to find out whether a text is a filter. -/
theorem cost_eq (text : Text) : Evaluator.cost text = [validity text true].countP hasCompiled := by
  rw [List.countP_singleton, Evaluator.cost, hasCompiled]
  cases Evaluator.isTrivial text with
  | true => rfl
  | false => rfl

/-- Whether the call has failed with a parse error. -/
def isRefused : Memo.Call → Bool
  | program _ _ (.error (.parse _)) => true
  | _ => false

/-- The text that the call has compiled to a program to run. -/
def compiled? : Memo.Call → Option Text
  | program text true (.ok _) => some text
  | _ => none

/-- The text that the call has asked the evaluator about. -/
def checked? : Memo.Call → Option Text
  | validity text true => some text
  | _ => none

end Memo.Call

variable {α β : Type} {s : Source}

/-! ### The calls of an action -/

/-- The calls that an action makes on tables, in their order.  An action may be told in more than
one way, of which all lead to the same accounts. -/
inductive Makes (s : Source) : {α : Type} → StateM Memo α → Memo → List Memo.Call → Prop
  | pure {α : Type} (a : α) (m : Memo) : Makes s (pure a) m []
  | bind {α β : Type} {x : StateM Memo α} {f : α → StateM Memo β} {m : Memo}
      {calls more : List Memo.Call} (first : Makes s x m calls)
      (next : Makes s (f (x m).1) (x m).2 more) :
      Makes s (x >>= f) m (calls ++ more)
  | get (m : Memo) : Makes s get m []
  | storeKeys (path : Text) (keys : List Text) (m : Memo) :
      Makes s (Source.storeKeys path keys) m []
  | stream (p : Program) (m : Memo) : Makes s (s.stream p) m []
  | compiled (text : Text) (m : Memo) :
      Makes s (s.compiled text) m
        [.program text (lookUp m.programs text).isNone (s.compiled text m).1]
  | isValid (text : Text) (m : Memo) :
      Makes s (s.isValid text) m [.validity text (lookUp m.validity text).isNone]

/-- An action whose calls can be told on all tables. -/
def Followed (s : Source) (x : StateM Memo α) : Prop := ∀ m, ∃ calls, Makes s x m calls

namespace Followed

theorem pure (a : α) : Followed s (pure a) := fun m => ⟨_, .pure a m⟩

theorem bind {x : StateM Memo α} {f : α → StateM Memo β} (hx : Followed s x)
    (hf : ∀ a, Followed s (f a)) : Followed s (x >>= f) := by
  intro m
  obtain ⟨calls, hcalls⟩ := hx m
  obtain ⟨more, hmore⟩ := hf (x m).1 (x m).2
  exact ⟨calls ++ more, .bind hcalls hmore⟩

theorem get : Followed s get := fun m => ⟨_, .get m⟩

theorem storeKeys (path : Text) (keys : List Text) : Followed s (Source.storeKeys path keys) :=
  fun m => ⟨_, .storeKeys path keys m⟩

theorem stream (p : Program) : Followed s (s.stream p) := fun m => ⟨_, .stream p m⟩

theorem compiled (text : Text) : Followed s (s.compiled text) := fun m => ⟨_, .compiled text m⟩

theorem isValid (text : Text) : Followed s (s.isValid text) := fun m => ⟨_, .isValid text m⟩

theorem execute (text : Text) (token : Token) : Followed s (s.execute text token) := by
  unfold Source.execute
  split
  · exact .pure _
  · refine .bind (.compiled text) fun program => ?_
    cases program with
    | error e => exact .pure _
    | ok program => exact .bind (.stream program) fun _ => .pure _

theorem keysByRunning (text : Text) : Followed s (s.keysByRunning text) := by
  unfold Source.keysByRunning
  refine .bind (.compiled text) fun program => ?_
  cases program with
  | error e => exact .pure _
  | ok program =>
    refine .bind (.stream program) fun events => ?_
    split
    all_goals exact .pure _

theorem keysAt (path : Text) : Followed s (s.keysAt path) := by
  unfold Source.keysAt
  refine .bind .get fun m => ?_
  split
  · exact .pure _
  · split
    · exact .pure _
    · exact .bind (.storeKeys _ _) fun keys => .pure _
    · refine .bind (.keysByRunning _) fun keys => ?_
      cases keys with
      | ok keys => exact .bind (.storeKeys _ _) fun keys => .pure _
      | error f => exact .pure _

theorem scanDots (depth : Int) (segment : Text) :
    Followed s (Context.scanDots s.isValid depth segment) := by
  induction segment generalizing depth with
  | nil => exact .pure _
  | cons c before ih =>
    unfold Context.scanDots
    split
    · exact ih (depth + 1)
    · split
      · exact ih (depth - 1)
      · split
        · split
          · exact .pure _
          · refine .bind (.isValid before.reverse) fun accepted => ?_
            cases accepted with
            | true => exact .pure _
            | false => exact ih depth
        · exact ih depth

theorem context (text : Text) : Followed s (s.context text) :=
  .bind (.scanDots 0 _) fun _ => .pure _

theorem keysAfterBar (left right : Text) : Followed s (s.keysAfterBar left right) := by
  unfold Source.keysAfterBar
  dsimp only
  split
  · exact .keysAt _
  · refine .bind (.keysAt _) fun keys => ?_
    split
    · exact .keysAt _
    · exact .pure _
    · exact .keysAt _
    · exact .pure _

theorem keysInContext (text path : Text) : Followed s (s.keysInContext text path) := by
  unfold Source.keysInContext
  split
  · dsimp only
    split
    · exact .keysAt path
    · exact .keysAfterBar _ path
  · exact .keysAt path

theorem suggest (text : Text) : Followed s (s.suggest text) := by
  unfold Source.suggest
  refine .bind (.context text) fun context => .bind (.keysInContext text _) fun keys => ?_
  cases keys with
  | ok keys => exact .pure _
  | error f => exact .pure _

theorem ask (q : Question) : Followed s (s.ask q) := by
  cases q with
  | execute text token => exact .bind (.execute text token) fun _ => .pure _
  | compiled text => exact .bind (.compiled text) fun _ => .pure _
  | keysAt path => exact .bind (.keysAt path) fun _ => .pure _
  | context text => exact .bind (.context text) fun _ => .pure _
  | suggest text => exact .bind (.suggest text) fun _ => .pure _
  | keysAfterBar left right => exact .bind (.keysAfterBar left right) fun _ => .pure _

theorem askAll (qs : List Question) : Followed s (s.askAll qs) := by
  unfold Source.askAll
  induction qs with
  | nil => exact .pure _
  | cons q rest ih =>
    rw [List.mapM_cons]
    exact .bind (.ask q) fun _ => .bind ih fun _ => .pure _

end Followed

/-! ### The accounts -/

/-- What calls have left behind: entries for the texts that were compiled to run and for those that
the evaluator was asked about, and the count of the calls that have compiled. -/
structure Memo.Recorded (m : Memo) (calls : List Memo.Call) (m' : Memo) : Prop where
  programs : m'.programs.map Prod.fst =
    m.programs.map Prod.fst ++ calls.filterMap Memo.Call.compiled?
  validity : m'.validity.map Prod.fst =
    m.validity.map Prod.fst ++ calls.filterMap Memo.Call.checked?
  compiles : m'.compiles = m.compiles + calls.countP Memo.Call.hasCompiled
  settled : calls.countP Memo.Call.hasCompiled =
    (calls.filterMap Memo.Call.compiled?).length +
    (calls.filterMap Memo.Call.checked?).countP (fun text => !Evaluator.isTrivial text) +
    calls.countP Memo.Call.isRefused
  once : (m.programs.map Prod.fst).Nodup ∧ (m.validity.map Prod.fst).Nodup →
    (m'.programs.map Prod.fst).Nodup ∧ (m'.validity.map Prod.fst).Nodup

namespace Memo.Recorded

variable {m m' m'' : Memo} {calls more : List Memo.Call}

/-- Without calls nothing is compiled. -/
theorem none (hprograms : m'.programs = m.programs) (hvalidity : m'.validity = m.validity)
    (hcompiles : m'.compiles = m.compiles) : Memo.Recorded m [] m' where
  programs := by rw [hprograms]; exact (List.append_nil _).symm
  validity := by rw [hvalidity]; exact (List.append_nil _).symm
  compiles := hcompiles
  settled := rfl
  once h := by rwa [hprograms, hvalidity]

theorem trans (h : Memo.Recorded m calls m') (h' : Memo.Recorded m' more m'') :
    Memo.Recorded m (calls ++ more) m'' where
  programs := by rw [h'.programs, h.programs, List.filterMap_append, List.append_assoc]
  validity := by rw [h'.validity, h.validity, List.filterMap_append, List.append_assoc]
  compiles := by rw [h'.compiles, h.compiles, List.countP_append, Nat.add_assoc]
  settled := by
    rw [List.countP_append, h.settled, h'.settled, List.filterMap_append, List.filterMap_append,
      List.length_append, List.countP_append, List.countP_append]
    omega
  once hm := h'.once (h.once hm)

/-- A program that is asked for is there, or is compiled and stored, or there is none. -/
theorem compiled (text : Text) (m : Memo) :
    Memo.Recorded m [.program text (lookUp m.programs text).isNone (s.compiled text m).1]
      (s.compiled text m).2 := by
  unfold Source.compiled
  rcases hl : lookUp m.programs text with - | p
  · rcases hp : s.evaluator.program text with e | p
    · obtain ⟨reason, rfl⟩ : ∃ reason, e = .parse reason := by
        unfold Evaluator.program at hp
        split at hp
        · cases hp
        · exact ⟨_, (Except.error.inj hp).symm⟩
      -- nothing is stored, so that the compilation is settled by the failure alone
      exact ⟨(List.append_nil _).symm, (List.append_nil _).symm, rfl, rfl, id⟩
    · refine ⟨List.map_append, (List.append_nil _).symm, rfl, rfl, fun h => ⟨?_, h.2⟩⟩
      exact nodup_snoc h.1 hl p
  · exact ⟨(List.append_nil _).symm, (List.append_nil _).symm, rfl, rfl, id⟩

/-- The evaluator is asked about a text that the tables do not know. -/
theorem isValid (text : Text) (m : Memo) :
    Memo.Recorded m [.validity text (lookUp m.validity text).isNone] (s.isValid text m).2 := by
  unfold Source.isValid
  rcases hl : lookUp m.validity text with - | b
  · have hcompiles := congrArg (m.compiles + ·) (Memo.Call.cost_eq text)
    refine ⟨(List.append_nil _).symm, List.map_append, hcompiles, (Nat.zero_add _).symm,
      fun h => ⟨h.1, ?_⟩⟩
    exact nodup_snoc h.2 hl _
  · exact ⟨(List.append_nil _).symm, (List.append_nil _).symm, rfl, rfl, id⟩

end Memo.Recorded

/-- **All calls of an action are recorded.** -/
theorem Makes.recorded {x : StateM Memo α} {m : Memo} {calls : List Memo.Call}
    (h : Makes s x m calls) : Memo.Recorded m calls (x m).2 := by
  induction h with
  | pure a m => exact .none rfl rfl rfl
  | bind _ _ ihfirst ihnext => exact ihfirst.trans ihnext
  | get m => exact .none rfl rfl rfl
  | storeKeys path keys m =>
    unfold Source.storeKeys
    split
    · exact .none rfl rfl rfl
    · exact .none rfl rfl rfl
  | stream p m => exact .none rfl rfl rfl
  | compiled text m => exact .compiled text m
  | isValid text m => exact .isValid text m

namespace Source

/-- **The balance of the compilations.**  After any questions, whichever of them have failed, their
calls can be told; and however they are told, as many of them have compiled a text as were counted,
and as there are, taken together, programs in the tables, texts but the trivial ones of which the
tables know whether they are filters, and calls for a program that failed with a parse error; no two
calls have compiled the same text to run it, nor asked the evaluator about the same text. -/
theorem compiles_balance (s : Source) (qs : List Question) :
    let m := (s.askAll qs {}).2
    (∃ calls, Makes s (s.askAll qs) {} calls) ∧
    ∀ calls, Makes s (s.askAll qs) {} calls →
      m.compiles = calls.countP Memo.Call.hasCompiled ∧
      m.compiles = m.programs.length + m.validity.countP (fun e => !Evaluator.isTrivial e.1) +
        calls.countP Memo.Call.isRefused ∧
      (calls.filterMap Memo.Call.compiled?).Nodup ∧ (calls.filterMap Memo.Call.checked?).Nodup := by
  intro m
  refine ⟨Followed.askAll qs {}, fun calls hcalls => ?_⟩
  have h : Memo.Recorded {} calls m := hcalls.recorded
  have hcompiles : m.compiles = calls.countP Memo.Call.hasCompiled :=
    h.compiles.trans (Nat.zero_add _)
  have hprograms : m.programs.map Prod.fst = calls.filterMap Memo.Call.compiled? := h.programs
  have hvalidity : m.validity.map Prod.fst = calls.filterMap Memo.Call.checked? := h.validity
  have hlength : (calls.filterMap Memo.Call.compiled?).length = m.programs.length := by
    rw [← hprograms, List.length_map]
  have hchecked : (calls.filterMap Memo.Call.checked?).countP (fun t => !Evaluator.isTrivial t) =
      m.validity.countP (fun e => !Evaluator.isTrivial e.1) := by
    rw [← hvalidity, List.countP_map]
    rfl
  have honce := h.once ⟨List.nodup_nil, List.nodup_nil⟩
  rw [hprograms, hvalidity] at honce
  exact ⟨hcompiles, by rw [hcompiles, h.settled, hlength, hchecked], honce⟩

/-- A text that is no program is compiled each time that it is asked for, all else once. -/
theorem compiles_balance_refused :
    let program : Program := .onValue fun v => [.value v]
    let s : Source := ⟨⟨fun t => if t = ['x'] then .error [] else .ok program⟩, .null, 0⟩
    let qs : List Question := [.compiled ['.'], .execute ['x'] .live, .context ".a.b".toList,
      .compiled ['x'], .execute ['.'] .none, .context ".a.".toList]
    ∃ calls, Makes s (s.askAll qs) {} calls ∧ (s.askAll qs {}).2.compiles = 4 ∧
      calls.countP Memo.Call.isRefused = 2 := by
  intro program s qs
  obtain ⟨⟨calls, hcalls⟩, hall⟩ := compiles_balance s qs
  have hbalance := (hall calls hcalls).2.1
  have hcompiles : (s.askAll qs {}).2.compiles = 4 := by decide
  have hprograms : (s.askAll qs {}).2.programs.length = 1 := by decide
  have hvalidity : (s.askAll qs {}).2.validity.countP (fun e => !Evaluator.isTrivial e.1) = 1 := by
    decide
  refine ⟨calls, hcalls, hcompiles, ?_⟩
  omega

end Source

end LiveQuery
