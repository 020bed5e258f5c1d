/-
LiveQuery/Proofs/Session/Panel.lean

The keys that a session lists for the path of its context.

A request for keys empties the list, and an answer for the path of the context fills it; an answer
for another path only ends its waiting.  Nothing is requested for a path that is awaited already,
nor for the one whose keys were taken last, and there is the rub: the list may have been emptied
for another path since then, and it may have been filled by an early answer for a path that was
left and taken up again.

Design.  All that can happen to the list is said once: a request, where an input changes the
filter (`inputNext_panel`), and an answer, which the host delivers (`hostNext_panel`).  The path
that has filled the list and has not been left for a request since is no part of the state; it is
remembered beside it (`Happening.fills`), and the list always holds its keys.

Main results: a session at rest lists the keys of its path exactly where these have filled the
list, or are none (`lists_at_rest_iff`); a session at any moment lists nothing or the keys of its
path exactly where the path that has filled the list has no others, and where it lists those of
another path, its own are on their way (`lists_own_iff`).
-/
import LiveQuery.Display.Wide
import LiveQuery.Proofs.Path.Stream
import LiveQuery.Proofs.Session.Upkeep

namespace LiveQuery

/-- The keys at a path, as a session finds them now, none where they cannot be had. -/
def Session.keysFound (c : Session) (path : Text) : List Text :=
  ((c.keysAt path).1.toOption).getD []

/-- The keys at a path of the source, none where they cannot be had. -/
def Source.keysListed (s : Source) (path : Text) : List Text := ((s.keysOf path).toOption).getD []

theorem Session.Fits.keysFound {s : Source} {c : Session} (h : c.Fits s) (path : Text) :
    c.keysFound path = s.keysListed path := by
  obtain ⟨rfl, hmemo, -⟩ := h
  have hanswer : (c.keysAt path).1 = c.source.keysOf path :=
    (c.source.keysAt_answers path c.memo hmemo).1
  rw [Session.keysFound, hanswer, Source.keysListed]

namespace Desk

open Dispatcher

variable {τ : Type} [Time τ]

section

variable [Glyphs]

/-- The path whose keys fill the list, where `path?` did before something has happened: a request
for other keys empties the list, and keys that are taken fill it. -/
def Happening.fills (e : Happening τ) (d : Desk τ) (path? : Option Text) : Option Text :=
  match e with
  | .input i => if (i.next d).awaited = d.awaited then path? else none
  | .host (.deliver i) =>
    match d.posted[i]? with
    | some (.keys path _) => if d.wants Session.hooks path then some path else path?
    | _ => path?
  | .host _ => path?

/-! ### All that can happen to the list -/

/-- Two states that list the same keys, and await the same ones. -/
structure SamePanel (d d' : Desk τ) : Prop where
  awaited : d'.awaited = d.awaited
  keysPath : d'.client.keysPath = d.client.keysPath
  available : d'.client.available = d.client.available

variable {s : Source} {d : Desk τ}

/-- An input may change the filter, and then the keys of the new context may be requested.  Only
`runNow` goes to another path without the request. -/
theorem inputNext_panel (h : InOrder s d) (i : Input) :
    ∃ d',
      (i.next d = fetched d' ∨
        i.next d = d' ∧
          (d'.client.currentPath = d.client.currentPath ∨ ∃ text, i = .runNow text)) ∧
      SamePanel d d' := by
  rcases hi : i.looks with - | -
  · cases i with
    | start =>
      rw [Input.next, start_eq h.shut]
      exact ⟨_, .inl rfl, rfl, rfl, rfl⟩
    | setFilter text =>
      rw [Input.next, setFilter_eq h.shut]
      exact ⟨_, .inl rfl, rfl, rfl, rfl⟩
    | tab =>
      have hpanel : SamePanel d (d.onClient tabbed) := by
        show SamePanel d { d with client := tabbed d.client }
        unfold tabbed
        split <;> exact ⟨rfl, rfl, rfl⟩
      rw [Input.next, tab_eq h.shut]
      split
      · exact ⟨_, .inl rfl, { hpanel with }⟩
      · -- the same filter has the same context
        next hsame =>
        have hcontext : (tabbed d.client).context = d.client.context := by
          rw [h.fits.tabbed.context, h.fits.context, Decidable.not_not.mp hsame]
        refine ⟨_, .inr ⟨rfl, .inl ?_⟩, hpanel⟩
        show (tabbed d.client).currentPath = _
        rw [Session.currentPath, hcontext, Session.currentPath]
    | accept =>
      rw [Input.next, accept_eq h.shut]
      split
      · exact ⟨_, .inl rfl, rfl, rfl, rfl⟩
      · exact ⟨_, .inr ⟨rfl, .inl rfl⟩, rfl, rfl, rfl⟩
    | pickRecent text =>
      rw [Input.next, pickRecent_eq h.shut]
      exact ⟨_, .inl rfl, rfl, rfl, rfl⟩
    | runNow text =>
      rw [Input.next, runNow_eq h.shut]
      exact ⟨_, .inr ⟨rfl, .inr ⟨text, rfl⟩⟩, rfl, rfl, rfl⟩
    | _ => cases hi
  · obtain ⟨mode, suggestions, selected, recent, x, y, width, store, -, he⟩ :=
      looks_frame (d := d) hi
    rw [he]
    exact ⟨_, .inr ⟨rfl, .inl rfl⟩, rfl, rfl, rfl⟩

/-- A host leaves the list alone, or delivers an answer, which is the one its path has. -/
theorem hostNext_panel (h : InOrder s d) (m : HostMove τ) :
    (SamePanel d (m.next d) ∧ (m.next d).client.currentPath = d.client.currentPath ∧
      ∀ path?, (Happening.host m).fills d path? = path?) ∨
    ∃ path,
      (m.next d).awaited = (if d.awaited = some path then none else d.awaited) ∧
      (m.next d).client =
        (if path = d.client.currentPath then
          { d.client with keysPath := some path, available := s.keysListed path }
        else d.client) ∧
      ∀ path?, (Happening.host m).fills d path? =
        if path = d.client.currentPath then some path else path? := by
  rw [HostMove.next, Move.act_eq h.shut]
  cases m with
  | fire i =>
    refine .inl ?_
    dsimp only [HostMove.move, Move.next]
    rcases fired_cases Session.hooks i d with ⟨-, he⟩ | ⟨-, he⟩ | ⟨seq, -, -, he⟩
    all_goals
      rw [he]
      exact ⟨⟨rfl, rfl, rfl⟩, rfl, fun _ => rfl⟩
  | complete i =>
    refine .inl ?_
    dsimp only [HostMove.move, Move.next]
    obtain ⟨memo, jobs, posted, he⟩ := complete_keeps d i
    rw [he]
    exact ⟨⟨rfl, rfl, rfl⟩, rfl, fun _ => rfl⟩
  | deliver i =>
    dsimp only [HostMove.move, Move.next]
    rcases delivered_cases Session.hooks i d with
      ⟨hi, he⟩ | ⟨seq, hi, he⟩ | ⟨seq, o, hi, he⟩ | ⟨path, answer, hi, he⟩
    · rw [he]
      exact .inl ⟨⟨rfl, rfl, rfl⟩, rfl, fun _ => by simp [Happening.fills, hi]⟩
    · rw [he, elapsed]
      refine .inl ?_
      split <;> exact ⟨⟨rfl, rfl, rfl⟩, rfl, fun _ => by simp [Happening.fills, hi]⟩
    · rw [he]
      refine .inl ?_
      cases d.commits seq o <;>
        exact ⟨⟨rfl, rfl, rfl⟩, rfl, fun _ => by simp [Happening.fills, hi]⟩
    · have hwants : (d.wants Session.hooks path = true) = (path = d.client.currentPath) :=
        propext beq_iff_eq
      have hanswer : answer.toOption.getD [] = s.keysListed path := by
        rw [h.answered path answer (List.mem_of_getElem? hi), Source.keysListed]
        rcases s.keysOf path with f | keys <;> rfl
      refine .inr ⟨path, by rw [he], ?_, fun _ => by simp [Happening.fills, hi, hwants]⟩
      rw [he, ← hanswer]
      simp only [hwants]
      rfl
  | tick now => exact .inl ⟨⟨rfl, rfl, rfl⟩, rfl, fun _ => rfl⟩

/-! ### What fills the list -/

/-- The list holds the keys of the path that has filled it, and nothing where none has; this path
is the one whose keys were taken last. -/
structure Filled (s : Source) (path? : Option Text) (d : Desk τ) : Prop where
  available : d.client.available = path?.elim [] s.keysListed
  keysPath : path? = none ∨ path? = d.client.keysPath

variable {path? : Option Text}

omit [Time τ] [Glyphs] in
theorem Filled.same (h : Filled s path? d) {d' : Desk τ} (hp : SamePanel d d') :
    Filled s path? d' :=
  ⟨hp.available.trans h.available, hp.keysPath ▸ h.keysPath⟩

/-- Whatever happens, the path that fills the list is remembered. -/
theorem Filled.next (ho : InOrder s d) (h : Filled s path? d) (e : Happening τ) :
    Filled s (e.fills d path?) (e.next d) := by
  cases e with
  | input i =>
    obtain ⟨d', hnext, hp⟩ := inputNext_panel ho i
    show Filled s (if (i.next d).awaited = d.awaited then path? else none) (i.next d)
    rcases hnext with hnext | ⟨hnext, -⟩
    · rcases fetched_cases d' with ⟨-, he⟩ | ⟨-, hne, he⟩
      · rw [hnext, he, if_pos hp.awaited]
        exact h.same hp
      · -- other keys are awaited from now on
        rw [hnext, he, if_neg (by rw [← hp.awaited]; exact hne.symm)]
        exact ⟨rfl, .inl rfl⟩
    · rw [hnext, if_pos hp.awaited]
      exact h.same hp
  | host m =>
    rcases hostNext_panel ho m with ⟨hp, -, hfills⟩ | ⟨path, -, hclient, hfills⟩
    · rw [hfills]
      exact h.same hp
    · rw [hfills]
      show Filled s _ (m.next d)
      by_cases hpath : path = d.client.currentPath
      · rw [if_pos hpath] at hclient ⊢
        exact ⟨by rw [hclient]; rfl, .inr (by rw [hclient])⟩
      · rw [if_neg hpath] at hclient ⊢
        exact ⟨by rw [hclient]; exact h.available, by rw [hclient]; exact h.keysPath⟩

/-! ### What is wanted -/

/-- The keys of the context have been taken last, or they are awaited. -/
def Wanted (d : Desk τ) : Prop :=
  d.client.keysPath = some d.client.currentPath ∨ d.awaited = some d.client.currentPath

omit [Time τ] in
theorem wanted_fetched (d : Desk τ) : Wanted (fetched d) := by
  rcases fetched_cases d with ⟨h, he⟩ | ⟨-, -, he⟩
  · rw [he]
    exact h
  · rw [he]
    exact .inr rfl

/-- An answer that ends the waiting for the keys of the context is taken. -/
theorem Wanted.next (ho : InOrder s d) (h : Wanted d) {e : Happening τ}
    (he : ∀ text, e ≠ .input (.runNow text)) : Wanted (e.next d) := by
  cases e with
  | input i =>
    obtain ⟨d', hnext | ⟨hnext, hpath⟩, hp⟩ := inputNext_panel ho i
    · show Wanted (i.next d)
      rw [hnext]
      exact wanted_fetched d'
    · have hcurrent : d'.client.currentPath = d.client.currentPath := by
        rcases hpath with hpath | ⟨text, rfl⟩
        · exact hpath
        · exact absurd rfl (he text)
      show Wanted (i.next d)
      rw [hnext, Wanted, hcurrent, hp.keysPath, hp.awaited]
      exact h
  | host m =>
    show Wanted (m.next d)
    rcases hostNext_panel ho m with ⟨hp, hcurrent, -⟩ | ⟨path, hawaited, hclient, -⟩
    · rw [Wanted, hcurrent, hp.keysPath, hp.awaited]
      exact h
    · by_cases hpath : path = d.client.currentPath
      · rw [if_pos hpath] at hclient
        rw [Wanted, hclient]
        exact .inl (congrArg some hpath)
      · -- an answer for another path leaves what is awaited for the context
        rw [if_neg hpath] at hclient
        rw [Wanted, hclient, hawaited]
        refine h.imp_right fun hwaits => ?_
        rw [if_neg (fun hother => hpath (Option.some.inj (hother.symm.trans hwaits)))]
        exact hwaits

/-- Keys that fill an empty list are those of the context. -/
theorem wanted_of_fills (ho : InOrder s d) {e : Happening τ} {path : Text}
    (h : e.fills d none = some path) : Wanted (e.next d) := by
  cases e with
  | input i => simp [Happening.fills] at h
  | host m =>
    show Wanted (m.next d)
    rcases hostNext_panel ho m with ⟨-, -, hfills⟩ | ⟨path', -, hclient, hfills⟩
    · simp [hfills] at h
    · by_cases hpath : path' = d.client.currentPath
      · rw [if_pos hpath] at hclient
        rw [Wanted, hclient]
        exact .inl (congrArg some hpath)
      · simp [hfills, hpath] at h

theorem Wanted.after {es : List (Happening τ)} (hes : ∀ text, .input (.runNow text) ∉ es)
    (ho : InOrder s d) (h : Wanted d) : Wanted (after es d) := by
  induction es generalizing d with
  | nil => exact h
  | cons e rest ih =>
    have hfirst := h.next ho fun text heq => hes text (heq ▸ List.mem_cons_self)
    exact ih (fun text hmem => hes text (List.mem_cons_of_mem e hmem)) (ho.next e) hfirst

/-- Where a path has filled the list, the keys of the context have been taken last or are awaited,
as long as no filter is taken up by `runNow`. -/
theorem wanted_after {es : List (Happening τ)} (hes : ∀ text, .input (.runNow text) ∉ es)
    (ho : InOrder s d) (h : path? = none ∨ Wanted d) :
    remembered Happening.fills es d path? = none ∨ Wanted (after es d) := by
  refine (remembered_after (P := fun path? d => InOrder s d ∧ (path? = none ∨ Wanted d)) ?_
    ⟨ho, h⟩).2
  rintro e he path? d ⟨ho, h⟩
  refine ⟨ho.next e, ?_⟩
  rcases h with rfl | hw
  · rcases hf : e.fills d none with - | path
    · exact .inl rfl
    · exact .inr (wanted_of_fills ho hf)
  · exact .inr (hw.next ho fun text heq => hes text (heq ▸ he))

/-! ### What is listed -/

omit [Time τ] [Glyphs] in
theorem Filled.available_eq (ho : InOrder s d) (h : Filled s path? d) :
    d.client.available = path?.elim [] d.client.keysFound := by
  rw [h.available]
  rcases path? with - | path
  · rfl
  · exact (ho.fits.keysFound path).symm

omit [Time τ] [Glyphs] in
/-- The keys of the path taken last are listed where they fill the list. -/
theorem Filled.available_iff (ho : InOrder s d) (h : Filled s path? d)
    (hpath : d.client.keysPath = some d.client.currentPath) :
    d.client.available = d.client.keysFound d.client.currentPath ↔
      path? = some d.client.currentPath ∨ d.client.keysFound d.client.currentPath = [] := by
  rw [h.available_eq ho]
  rcases h.keysPath with rfl | hsome
  · exact ⟨fun hnone => .inr hnone.symm, fun hnone => (hnone.resolve_left nofun).symm⟩
  · rw [hsome, hpath]
    exact ⟨fun _ => .inl rfl, fun _ => rfl⟩

omit [Time τ] [Glyphs] in
/-- Other keys than those of the context are listed where they fill the list. -/
theorem Filled.own_iff (ho : InOrder s d) (h : Filled s path? d) :
    (d.client.available = [] ∨ d.client.available = d.client.keysFound d.client.currentPath) ↔
      ∀ path, path? = some path → d.client.keysFound path = [] ∨
        d.client.keysFound path = d.client.keysFound d.client.currentPath := by
  rw [h.available_eq ho]
  rcases path? with - | path
  · simp
  · simp

omit [Time τ] [Glyphs] in
/-- Where another path has filled the list, the keys of the context are awaited. -/
theorem Filled.of_other (h : Filled s path? d) (hw : path? = none ∨ Wanted d) {path : Text}
    (hpath : path? = some path) (hother : path ≠ d.client.currentPath) :
    d.client.keysPath = some path ∧ d.awaited = some d.client.currentPath := by
  subst hpath
  have hkeys : d.client.keysPath = some path := (h.keysPath.resolve_left nofun).symm
  refine ⟨hkeys, (hw.resolve_left nofun).resolve_left fun hshown => ?_⟩
  exact hother (Option.some.inj (hkeys.symm.trans hshown))

theorem filled_after (source : Source) (name : Text) (capacity : Int) (recording : Bool)
    (es : List (Happening τ)) :
    let d₀ : Desk τ := ofSession (Session.ofSource source name capacity) recording
    InOrder source (after es d₀) ∧
      Filled source (remembered Happening.fills es d₀ none) (after es d₀) := by
  intro d₀
  refine remembered_after (P := fun path? d => InOrder source d ∧ Filled source path? d) ?_
    ⟨.ofSession source name capacity recording, rfl, .inl rfl⟩
  rintro e - path? d ⟨ho, h⟩
  exact ⟨ho.next e, h.next ho e⟩

/-- **At rest.**  In a run that begins with `start` and takes up no filter by `runNow`, a session
at rest has taken the keys of its path last.  It lists them exactly where these keys have filled
the list and it has not been emptied for another path since, or where the path has no keys. -/
theorem lists_at_rest_iff (source : Source) (name : Text) (capacity : Int) (recording : Bool)
    (es : List (Happening τ)) (hes : ∀ text, .input (.runNow text) ∉ es) :
    let d₀ : Desk τ := ofSession (Session.ofSource source name capacity) recording
    let run := .input .start :: es
    let d := after run d₀
    d.idle = true →
      d.client.keysPath = some d.client.currentPath ∧
      (d.client.available = d.client.keysFound d.client.currentPath ↔
        remembered Happening.fills run d₀ none = some d.client.currentPath ∨
          d.client.keysFound d.client.currentPath = []) := by
  intro d₀ run d hidle
  obtain ⟨ho, hfilled⟩ := filled_after (τ := τ) source name capacity recording run
  have ho₀ : InOrder source d₀ := .ofSession source name capacity recording
  have hstarted : Wanted (Input.start.next d₀) := by
    rw [Input.next, start_eq ho₀.shut]
    exact wanted_fetched (ran d₀)
  -- `start` requests the keys of the root, and from there on those of the context are wanted
  have hafter : Wanted (after es (Input.start.next d₀)) :=
    hstarted.after hes (ho₀.inputNext .start)
  have hwanted : Wanted d := hafter
  have hawaited : d.awaited = none := by
    simp only [idle, Bool.and_eq_true, Option.isNone_iff_eq_none] at hidle
    exact hidle.2
  have hpath : d.client.keysPath = some d.client.currentPath :=
    hwanted.resolve_right (by simp [hawaited])
  exact ⟨hpath, hfilled.available_iff ho hpath⟩

end

/-- Items of `[[1]]` are looked up while the first filter still runs, and their keys come first. -/
theorem lists_at_rest_iff_items :
    let es : List (Happening Float) :=
      [.input (.setFilter ".[0].".toList), .host (.complete 2), .host (.complete 1),
        .host (.deliver 0), .host (.deliver 0), .host (.fire 0), .host (.complete 3),
        .host (.deliver 0)]
    let source := Source.overPaths (.array [.array [.int 1]])
    let d₀ : Desk Float := ofSession (Session.ofSource source [] 16) false
    let d := after (.input .start :: es) d₀
    ((∀ text, .input (.runNow text) ∉ es) ∧ d.idle = true) ∧
      d.client.keysPath = some d.client.currentPath ∧
      d.client.available = d.client.keysFound d.client.currentPath ∧
      d.client.available = ["[0]".toList] := by
  intro es source d₀ d
  have hes : ∀ text, .input (.runNow text) ∉ es := by simp [es]
  have hidle : d.idle = true := by decide +kernel
  have hfills : remembered Happening.fills (.input .start :: es) d₀ none =
      some d.client.currentPath := by decide +kernel
  have hd : after (.input .start :: es) (ofSession (Session.ofSource source [] 16) false) = d := rfl
  have hlists := lists_at_rest_iff source [] 16 false es hes hidle
  rw [hd] at hlists
  exact ⟨⟨hes, hidle⟩, hlists.1, hlists.2.mpr (.inl hfills), by decide +kernel⟩

/-- The root of `{"a": 1}` is left for its member and taken up again before the keys of the member
have come.  At rest nothing is listed, although the root has a key. -/
theorem lists_nothing_at_rest :
    let es : List (Happening Float) :=
      [.input .start, .host (.complete 0), .host (.complete 1), .host (.deliver 0),
        .host (.deliver 0), .input (.setFilter ".a.".toList), .input (.setFilter ".".toList),
        .host (.complete 2), .host (.deliver 0), .host (.fire 0), .host (.fire 0),
        .host (.complete 3), .host (.deliver 0)]
    let source := Source.overPaths (.object [("a".toList, .int 1)])
    let d := after es (ofSession (Session.ofSource source [] 16) false)
    d.idle = true ∧ d.client.available = [] ∧
      d.client.keysFound d.client.currentPath = ["a".toList] := by
  decide +kernel

/-- **At any moment** a session lists nothing or the keys of its path, exactly where the path that
has filled the list has no keys or the same.  Unless a filter was taken up by `runNow`, another
path fills the list only while it was taken last and the keys of the context are awaited. -/
theorem lists_own_iff [Glyphs] (source : Source) (name : Text) (capacity : Int) (recording : Bool)
    (es : List (Happening τ)) :
    let d₀ : Desk τ := ofSession (Session.ofSource source name capacity) recording
    let d := after es d₀
    let path? := remembered Happening.fills es d₀ none
    ((d.client.available = [] ∨ d.client.available = d.client.keysFound d.client.currentPath) ↔
      ∀ path, path? = some path → d.client.keysFound path = [] ∨
        d.client.keysFound path = d.client.keysFound d.client.currentPath) ∧
    ((∀ text, .input (.runNow text) ∉ es) →
      ∀ path, path? = some path → path ≠ d.client.currentPath →
        d.client.keysPath = some path ∧ d.awaited = some d.client.currentPath) := by
  intro d₀ d path?
  obtain ⟨ho, hfilled⟩ := filled_after (τ := τ) source name capacity recording es
  refine ⟨hfilled.own_iff ho, fun hes path hpath hother => ?_⟩
  have hwanted := wanted_after (d := d₀) hes (.ofSession source name capacity recording) (.inl rfl)
  exact hfilled.of_other hwanted hpath hother

/-- Both the root of `{"a": 1}` and its member are looked up twice, and the second answer for the
root comes while the keys of the member are awaited. -/
def overtaken : List (Happening Float) :=
  [.input .start, .input (.setFilter ".a.".toList), .input (.setFilter ".".toList),
    .host (.complete 1), .host (.deliver 0), .input (.setFilter ".a.".toList),
    .input (.setFilter ".".toList), .host (.complete 3), .host (.deliver 0),
    .input (.setFilter ".a.".toList)]

/-- The root fills the list for the member, whose keys are awaited. -/
theorem lists_own_iff_overtaken :
    let source := Source.overPaths (.object [("a".toList, .int 1)])
    let d₀ : Desk Float := ofSession (Session.ofSource source [] 16) false
    let d := after overtaken d₀
    let root := ".".toList
    ((∀ text, .input (.runNow text) ∉ overtaken) ∧
      remembered Happening.fills overtaken d₀ none = some root ∧ root ≠ d.client.currentPath) ∧
    d.client.keysPath = some root ∧ d.awaited = some d.client.currentPath := by
  intro source d₀ d root
  have hd : after overtaken (ofSession (Session.ofSource source [] 16) false) = d := rfl
  have hes : ∀ text, .input (.runNow text) ∉ overtaken := by simp [overtaken]
  have hfills : remembered Happening.fills overtaken d₀ none = some root := by decide +kernel
  have hother : root ≠ d.client.currentPath := by decide +kernel
  have hlists := (lists_own_iff source [] 16 false overtaken).2 hes root hfills
  rw [hd] at hlists
  exact ⟨⟨hes, hfills, hother⟩, hlists hother⟩

/-- The key of the root is listed for the member, which has none. -/
theorem lists_keys_of_other_path :
    let source := Source.overPaths (.object [("a".toList, .int 1)])
    let d := after overtaken (ofSession (Session.ofSource source [] 16) false)
    d.client.available = ["a".toList] ∧ d.client.currentPath = ".a".toList ∧
      d.client.keysFound d.client.currentPath = [] := by
  decide +kernel

end Desk

end LiveQuery
