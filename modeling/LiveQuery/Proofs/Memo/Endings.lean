/-
LiveQuery/Proofs/Memo/Endings.lean

How the run of a filter ends.

The token of a run is asked again and again: by the stream before it computes an element, by the
reader when it is handed one, and once more behind the last.  It may be cancelled in between,
while an element is being computed, and then that element is still handed out, or the stream fails
or ends first.  `Runs` follows a run from one of these places to the next.

Design.  The outcome of a run is read off a stream that was played to its end; it is the answer to
which the run leads place by place (`runs_outcomeOf`), and a run leads to one answer only
(`Runs.unique`).  So it is enough to follow a run on the streams that `Ends` tells apart, by the
first event that is no value.

Main result: `execute_ends`.
-/
import LiveQuery.Proofs.Memo.Questions

namespace LiveQuery

/-- How a stream without breakdowns ends a run that can be cancelled: the first event that is no
value decides, and without one all values are printed. -/
inductive Ends : List Event → Outcome → Prop
  | cancelled (vs : List Value) (more : List Event) :
      Ends (vs.map .value ++ .cancel :: more) (.failed .cancelled)
  | failed (vs : List Value) (e : StreamError) (more : List Event) :
      Ends (vs.map .value ++ .error e :: more) (.failed e.toQueryError)
  | whole (vs : List Value) :
      Ends (vs.map .value) (.output (Text.unlines (vs.map Value.pretty)))

/-! ### Runs, place by place -/

/-- Where a run stands. -/
inductive Standing
  /-- The stream is about to ask the token. -/
  | asks
  /-- The stream computes an element. -/
  | computes
  /-- The reader has been handed an element, and is about to ask the token. -/
  | handed (e : Element)
  /-- The stream has ended, and the reader is about to ask the token. -/
  | ended

/-- A run leads to an answer, from the place where it stands, the events that are still to come,
whether the token is cancelled, and what has been printed. -/
inductive Runs : Standing → List Event → Bool → List Text → Except Fault Outcome → Prop
  | stop {es ts a} : Runs .ended es true ts a → Runs .asks es true ts a
  | compute {es ts a} : Runs .computes es false ts a → Runs .asks es false ts a
  | cancel {es c ts a} : Runs .computes es true ts a → Runs .computes (.cancel :: es) c ts a
  | value {v es c ts a} :
      Runs (.handed (.value v)) es c ts a → Runs .computes (.value v :: es) c ts a
  | error {e es c ts a} :
      Runs (.handed (.error e)) [] c ts a → Runs .computes (.error e :: es) c ts a
  | crash {e es c ts} : Runs .computes (.crash e :: es) c ts (.error e.toFault)
  | finish {c ts a} : Runs .ended [] c ts a → Runs .computes [] c ts a
  | drop {e es ts} : Runs (.handed e) es true ts (.ok (.failed .cancelled))
  | fail {e es ts} : Runs (.handed (.error e)) es false ts (.ok (.failed e.toQueryError))
  | print {v es ts a} :
      Runs .asks es false (ts ++ [v.pretty]) a → Runs (.handed (.value v)) es false ts a
  | discard {es ts} : Runs .ended es true ts (.ok (.failed .cancelled))
  | deliver {es ts} : Runs .ended es false ts (.ok (.output (Text.unlines ts)))

/-- **A run leads to one answer** only. -/
theorem Runs.unique {st : Standing} {es : List Event} {c : Bool} {ts : List Text}
    {a b : Except Fault Outcome} (ha : Runs st es c ts a) (hb : Runs st es c ts b) : a = b := by
  induction ha with
  | stop _ ih => cases hb with | stop hb => exact ih hb
  | compute _ ih => cases hb with | compute hb => exact ih hb
  | cancel _ ih => cases hb with | cancel hb => exact ih hb
  | value _ ih => cases hb with | value hb => exact ih hb
  | error _ ih => cases hb with | error hb => exact ih hb
  | crash => cases hb; rfl
  | finish _ ih => cases hb with | finish hb => exact ih hb
  | drop => cases hb; rfl
  | fail => cases hb; rfl
  | print _ ih => cases hb with | print hb => exact ih hb
  | discard => cases hb; rfl
  | deliver => cases hb; rfl

/-! ### The outcome of a stream -/

namespace Source

/-- What is printed of values. -/
theorem printed_values (vs : List Value) :
    ((vs.map Element.value).filterMap fun
      | .value v => some v.pretty
      | .error _ => none) = vs.map Value.pretty := by
  induction vs with
  | nil => rfl
  | cons v vs ih => exact congrArg (v.pretty :: ·) ih

/-- Values behind which the stream ended. -/
theorem outcomeOf_values (vs : List Value) (c : Bool) :
    outcomeOf ⟨vs.map .value, c, none⟩ =
      .ok (if c then .failed .cancelled else .output (Text.unlines (vs.map Value.pretty))) := by
  cases c with
  | true => rfl
  | false =>
    have hprinted := congrArg (fun ts => Except.ok (ε := Fault) (Outcome.output (Text.unlines ts)))
      (printed_values vs)
    simp only [outcomeOf, Bool.false_eq_true, if_false]
    rcases hlast : (vs.map Element.value).getLast? with - | v | e
    · exact hprinted
    · exact hprinted
    · -- the last element would be a value
      obtain ⟨v, -, hv⟩ := List.mem_map.mp (List.mem_of_getLast? hlast)
      cases hv

/-- Values behind which the stream failed. -/
theorem outcomeOf_error (vs : List Value) (e : StreamError) (c : Bool) :
    outcomeOf ⟨vs.map .value ++ [.error e], c, none⟩ =
      .ok (.failed (if c then .cancelled else e.toQueryError)) := by
  cases c with
  | true => rfl
  | false => simp [outcomeOf]

/-- **The outcome of a stream** is the answer to which its run leads, from any values on that have
been printed before. -/
theorem runs_outcomeOf (es : List Event) (vs : List Value) (c : Bool) (count : Nat) :
    let p := playFrom none c count es
    Runs .computes es c (vs.map Value.pretty)
      (outcomeOf { p with elements := vs.map .value ++ p.elements }) := by
  induction es generalizing vs c count with
  | nil =>
    intro p
    show Runs .computes [] c _ (outcomeOf ⟨vs.map .value ++ [], c, none⟩)
    rw [List.append_nil, outcomeOf_values]
    cases c with
    | true => exact .finish .discard
    | false => exact .finish .deliver
  | cons e es ih =>
    intro p
    cases e with
    | cancel =>
      have hplay : p = playFrom none true count es := by
        simp only [p, playFrom]
      rw [hplay]
      exact .cancel (ih vs true count)
    | crash e => exact .crash
    | error e =>
      have hplay : p = ⟨[.error e], c, none⟩ := by
        simp only [p, playFrom, reaches, Bool.or_false]
      rw [hplay, outcomeOf_error]
      cases c with
      | true => exact .error .drop
      | false => exact .error .fail
    | value v =>
      cases c with
      | true => exact .value .drop
      | false =>
        -- the token is asked twice before the next element, and is not cancelled in between
        have hplay : p = (playFrom none false (count + 1) es).cons (.value v) := by
          simp only [p, playFrom, reaches, Bool.or_self, Bool.false_eq_true, if_false]
        have hrest := ih (vs ++ [v]) false (count + 1)
        dsimp only at hrest
        rw [List.map_append, List.map_append, List.append_assoc] at hrest
        rw [hplay]
        exact .value (.print (.compute hrest))

/-! ### Streams without breakdowns -/

variable {es : List Event} {o : Outcome}

/-- A stream without breakdowns ends in one of the three ways. -/
theorem exists_ends (hes : ∀ e, Event.crash e ∉ es) : ∃ o, Ends es o := by
  induction es with
  | nil => exact ⟨_, .whole []⟩
  | cons e es ih =>
    cases e with
    | cancel => exact ⟨_, .cancelled [] es⟩
    | crash e => exact absurd List.mem_cons_self (hes e)
    | error e => exact ⟨_, .failed [] e es⟩
    | value v =>
      obtain ⟨o, ho⟩ := ih fun e he => hes e (List.mem_cons_of_mem _ he)
      cases ho with
      | cancelled vs more => exact ⟨_, .cancelled (v :: vs) more⟩
      | failed vs e more => exact ⟨_, .failed (v :: vs) e more⟩
      | whole vs => exact ⟨_, .whole (v :: vs)⟩

/-- Values are printed one after the other while the token is not cancelled. -/
theorem runs_values {ts : List Text} {a : Except Fault Outcome} (vs : List Value)
    (h : Runs .computes es false (ts ++ vs.map Value.pretty) a) :
    Runs .computes (vs.map .value ++ es) false ts a := by
  induction vs generalizing ts with
  | nil => rwa [List.map_nil, List.append_nil] at h
  | cons v vs ih =>
    refine .value (.print (.compute (ih ?_)))
    rwa [List.append_assoc]

/-- Once the token is cancelled, nothing that is computed counts. -/
theorem runs_cancelled (hes : ∀ e, Event.crash e ∉ es) (ts : List Text) :
    Runs .computes es true ts (.ok (.failed .cancelled)) := by
  induction es with
  | nil => exact .finish .discard
  | cons e es ih =>
    cases e with
    | cancel => exact .cancel (ih fun e he => hes e (List.mem_cons_of_mem _ he))
    | crash e => exact absurd List.mem_cons_self (hes e)
    | error e => exact .error .drop
    | value v => exact .value .drop

/-- **A run ends as its stream says.** -/
theorem runs_of_ends (hes : ∀ e, Event.crash e ∉ es) (ho : Ends es o) :
    Runs .computes es false [] (.ok o) := by
  cases ho with
  | cancelled vs more =>
    have hmore : ∀ e, Event.crash e ∉ more := fun e he =>
      hes e (List.mem_append_right _ (List.mem_cons_of_mem _ he))
    exact runs_values vs (.cancel (runs_cancelled hmore _))
  | failed vs e more => exact runs_values vs (.error .fail)
  | whole vs =>
    have hrun : Runs .computes (vs.map .value ++ []) false [] (.ok (.output _)) :=
      runs_values vs (.finish .deliver)
    rwa [List.append_nil] at hrun

/-- A stream without breakdowns, played with a token that is not cancelled beforehand. -/
theorem outcomeOf_eq_ok_iff (hes : ∀ e, Event.crash e ∉ es) :
    outcomeOf (playFrom none false 0 es) = .ok o ↔ Ends es o := by
  have hplayed := runs_outcomeOf es [] false 0
  have hends {o : Outcome} (ho : Ends es o) :
      outcomeOf (playFrom none false 0 es) = .ok o :=
    hplayed.unique (runs_of_ends hes ho)
  constructor
  · intro h
    obtain ⟨o', ho'⟩ := exists_ends hes
    rw [hends ho'] at h
    cases h
    exact ho'
  · exact hends

/-! ### Executing -/

variable {s : Source} {m : Memo} {text : Text} {program : Program}

/-- The program of a text is taken from the tables, or compiled and stored there. -/
theorem compiled_ok (hm : m.Coherent s) (h : s.evaluator.compile text = .ok program) :
    s.compiled text m = (.ok program,
      match lookUp m.programs text with
      | some _ => m
      | none => { m with
          programs := m.programs ++ [(text, program)], compiles := m.compiles + 1 }) := by
  have hprogram : s.evaluator.program text = .ok program := by rw [Evaluator.program, h]
  unfold compiled
  rcases hl : lookUp m.programs text with - | p
  · rw [hprogram]
  · have hp := (hm.programs hl).symm.trans hprogram
    rw [Except.ok.inj hp]

/-- A text that is no program is compiled in vain every time. -/
theorem compiled_error (hm : m.Coherent s) {reason : Text}
    (h : s.evaluator.compile text = .error reason) :
    s.compiled text m = (.error (.parse ("parse error: ".toList ++ reason)),
      { m with compiles := m.compiles + 1 }) := by
  have hprogram : s.evaluator.program text =
      .error (.parse ("parse error: ".toList ++ reason)) := by
    rw [Evaluator.program, h]
  unfold compiled
  rw [lookUp_programs_of_error hm hprogram, hprogram]

theorem execute_cancelled (s : Source) (text : Text) (m : Memo) :
    s.execute text .cancelled m = ((.ok (.failed .cancelled), true), m) := rfl

/-- A run with a token compiles its filter and plays the stream of the program. -/
theorem execute_live (s : Source) (text : Text) (m : Memo) :
    s.execute text .live m =
      match s.compiled text m with
      | (.error e, m') => ((.ok (.failed e), false), m')
      | (.ok program, m') =>
        let (events, m'') := s.stream program m'
        let p := playFrom none false 0 events
        ((outcomeOf p, p.cancelled), m'') := by
  unfold execute
  rw [if_neg (by decide : Token.live ≠ Token.cancelled)]
  simp only [bind, StateT.bind]
  rcases s.compiled text m with ⟨e | program, m'⟩
  · rfl
  · rfl

/-- The run of a text that is a program plays the stream of that program. -/
theorem execute_ok (hm : m.Coherent s) (h : s.evaluator.compile text = .ok program) :
    (s.execute text .live m).1.1 = outcomeOf (playFrom none false 0 (program s.document)) ∧
      (s.execute text .live m).2 =
        match lookUp m.programs text with
        | some _ =>
          { m with transcript := (program.stream s.object s.document m.transcript).2 }
        | none =>
          { m with
            programs := m.programs ++ [(text, program)], compiles := m.compiles + 1
            transcript := (program.stream s.object s.document m.transcript).2 } := by
  have hplayed := congrArg (fun es => outcomeOf (playFrom none false 0 es))
    (hm.transcript.stream program).1
  rw [execute_live, compiled_ok hm h]
  -- compiling does not touch the text of the document
  rcases lookUp m.programs text with - | p
  · exact ⟨hplayed, rfl⟩
  · exact ⟨hplayed, rfl⟩

/-- **How a run ends**, after any questions.  With a token that is cancelled beforehand it is
cancelled, and nothing is compiled.  A text that is no program ends in its parse error, and leaves
no entry.  All else compiles, and leaves its program in the tables and nothing else, but for the
text of the document, which is kept if the program has read it; and where the stream does not
break down, the run returns the one outcome with which the stream ends: cancelled or failed, and
then without any output, or all values below each other. -/
theorem execute_ends (s : Source) (qs : List Question) (text : Text) :
    let m := (s.askAll qs {}).2
    let run := s.execute text .live m
    let kept (program : Program) := (program.stream s.object s.document m.transcript).2
    s.execute text .cancelled m = ((.ok (.failed .cancelled), true), m) ∧
    (∀ reason, s.evaluator.compile text = .error reason →
      run = ((.ok (.failed (.parse ("parse error: ".toList ++ reason))), false),
        { m with compiles := m.compiles + 1 })) ∧
    ∀ program, s.evaluator.compile text = .ok program →
      (lookUp run.2.programs text = some program ∧
        run.2 = match lookUp m.programs text with
          | some _ => { m with transcript := kept program }
          | none =>
            { m with
              programs := m.programs ++ [(text, program)], compiles := m.compiles + 1
              transcript := kept program }) ∧
      ((∀ e, Event.crash e ∉ program s.document) →
        ∃ o, run.1.1 = .ok o ∧ ∀ o', Ends (program s.document) o' ↔ o' = o) := by
  intro m run kept
  have hm : m.Coherent s := (s.askAll_answers qs {} (Memo.coherent_empty s)).2.1
  refine ⟨s.execute_cancelled text m, ?_, ?_⟩
  · intro reason h
    show s.execute text .live m = _
    rw [execute_live, compiled_error hm h]
  · intro program h
    obtain ⟨houtcome, htables⟩ := execute_ok hm h
    refine ⟨⟨?_, htables⟩, ?_⟩
    · rw [htables]
      rcases hl : lookUp m.programs text with - | p
      · show lookUp (m.programs ++ [(text, program)]) text = some program
        rw [lookUp_append, hl, Option.none_or, lookUp, if_pos rfl]
      · have hp : s.evaluator.program text = .ok p := hm.programs hl
        rw [Evaluator.program, h] at hp
        exact hl.trans (congrArg some (Except.ok.inj hp).symm)
    · intro hes
      obtain ⟨o, ho⟩ := exists_ends hes
      refine ⟨o, houtcome.trans ((outcomeOf_eq_ok_iff hes).mpr ho), fun o' => ?_⟩
      rw [← outcomeOf_eq_ok_iff hes, (outcomeOf_eq_ok_iff hes).mpr ho]
      exact ⟨fun heq => (Except.ok.inj heq).symm, fun heq => congrArg Except.ok heq.symm⟩

/-- A failure that comes behind a cancellation does not count, nor does the value before it; the
program is in the tables from the first run on. -/
theorem execute_ends_interrupted :
    let program : Program :=
      .onValue fun v => [.value v, .cancel, .error (.query (.evaluation ['e']))]
    let s : Source :=
      ⟨⟨fun text => if text = ['x'] then .error ['n', 'o'] else .ok program⟩, .int 7, 0⟩
    let m := (s.askAll [.execute ['.'] .live] {}).2
    s.evaluator.compile ['x'] = .error ['n', 'o'] ∧ s.evaluator.compile ['.'] = .ok program ∧
      (∀ e, Event.crash e ∉ program s.document) ∧
      (s.execute ['x'] .live m).1.1 = .ok (.failed (.parse "parse error: no".toList)) ∧
      (s.execute ['.'] .live m).1.1 = .ok (.failed .cancelled) ∧
      (s.execute ['.'] .live m).2 = m := by
  intro program s m
  have hes : ∀ e, Event.crash e ∉ program s.document := by
    intro e h
    simp [program, Program.on] at h
  have hrefused := (s.execute_ends [.execute ['.'] .live] ['x']).2.1 ['n', 'o'] rfl
  obtain ⟨⟨-, htables⟩, hends⟩ := (s.execute_ends [.execute ['.'] .live] ['.']).2.2 program rfl
  obtain ⟨o, ho, hone⟩ := hends hes
  have hcancelled : Ends (program s.document) (.failed .cancelled) :=
    .cancelled [s.document] [.error (.query (.evaluation ['e']))]
  refine ⟨rfl, rfl, hes, congrArg (·.1.1) hrefused, ?_, htables⟩
  rw [(hone _).mp hcancelled]
  exact ho

end Source

end LiveQuery
