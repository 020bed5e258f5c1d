/-
LiveQuery/Proofs/Memo/Answers.lean

What the memo tables answer.

Design.  A question is an action on the tables.  `Answers s x a` says that `x` gives the answer
`a` on all tables whose entries are what would be computed in their place (`Memo.Coherent`), that
it leaves such tables, and that it only adds entries behind those there were (`Memo.Extends`).
The predicate goes through `pure` and `bind`, so that each question is followed along its own
program, from the tables and the text of the document up: programs and validity, streams, key
lists, contexts, keys behind a bar, suggestions.  The answers themselves are functions that know
no table.

Main results: `execute_answers`, `keysAt_answers`, `context_answers`, `keysAfterBar_answers` and
`suggest_answers`.
-/
import LiveQuery.Completion.Suggestions

namespace LiveQuery

variable {α β : Type}

/-! ### Looking up entries -/

theorem lookUp_append (table more : List (Text × α)) (text : Text) :
    lookUp (table ++ more) text = (lookUp table text).or (lookUp more text) := by
  induction table with
  | nil => simp [lookUp]
  | cons entry rest ih =>
    obtain ⟨t, a⟩ := entry
    by_cases h : t = text
    · simp [lookUp, h]
    · simp [lookUp, h, ih]

/-- An entry that was found is found behind an entry for another text. -/
theorem lookUp_snoc_some {table : List (Text × α)} {text t : Text} {a b : α}
    (h : lookUp (table ++ [(text, a)]) t = some b) :
    lookUp table t = some b ∨ (t = text ∧ b = a) := by
  rw [lookUp_append, Option.or_eq_some_iff] at h
  rcases h with h | ⟨-, h⟩
  · exact .inl h
  · right
    by_cases ht : text = t
    · simp only [lookUp, ht, if_true, Option.some.injEq] at h
      exact ⟨ht.symm, h.symm⟩
    · simp [lookUp, ht] at h

theorem lookUp_eq_none_iff {table : List (Text × α)} {text : Text} :
    lookUp table text = none ↔ text ∉ table.map Prod.fst := by
  induction table with
  | nil => simp [lookUp]
  | cons entry rest ih =>
    obtain ⟨t, a⟩ := entry
    by_cases ht : t = text
    · simp [lookUp, ht]
    · simp [lookUp, ht, ih, Ne.symm ht]

/-- A text that has no entry is not in the table when it is given one. -/
theorem nodup_snoc {table : List (Text × α)} {text : Text} (hn : (table.map Prod.fst).Nodup)
    (h : lookUp table text = none) (a : α) : ((table ++ [(text, a)]).map Prod.fst).Nodup := by
  rw [List.map_append, List.nodup_append]
  refine ⟨hn, List.pairwise_singleton _ text, ?_⟩
  intro q hq b hb heq
  obtain rfl : b = text := List.mem_singleton.mp hb
  exact lookUp_eq_none_iff.mp h (heq ▸ hq)

namespace Memo

/-- Tables that go on from others: what those had keeps its place and its value. -/
structure Extends (m m' : Memo) : Prop where
  programs : m.programs <+: m'.programs
  keyLists : m.keyLists <+: m'.keyLists
  validity : m.validity <+: m'.validity

theorem Extends.refl (m : Memo) : m.Extends m :=
  ⟨List.prefix_rfl, List.prefix_rfl, List.prefix_rfl⟩

theorem Extends.trans {m₁ m₂ m₃ : Memo} (h : m₁.Extends m₂) (h' : m₂.Extends m₃) :
    m₁.Extends m₃ :=
  ⟨h.programs.trans h'.programs, h.keyLists.trans h'.keyLists, h.validity.trans h'.validity⟩

end Memo

/-! ### Answers without tables -/

namespace Source

/-- The keys of the first value that a filter yields. -/
def keysYielded (s : Source) (text : Text) : Except Fault (List Text) :=
  match s.evaluator.program text with
  | .error e => .error (.query e)
  | .ok program =>
    match firstElement (program s.document) with
    | .error f => .error f
    | .ok none => .ok []
    | .ok (some v) => .ok v.keys

/-- The keys at a path. -/
def keysOf (s : Source) (path : Text) : Except Fault (List Text) :=
  match Path.read path with
  | .error digits => .error (.tooLong digits)
  | .ok (some steps) => .ok (s.document.keysAt steps)
  | .ok none => s.keysYielded path

/-- The empty path has the keys of the document. -/
theorem keysOf_orRoot (s : Source) (path : Text) :
    s.keysOf (if path.isEmpty then ['.'] else path) = s.keysOf path := by
  cases path with
  | nil => rfl
  | cons c rest => rfl

/-- How a run ends, and whether its token is cancelled afterwards. -/
def ending (s : Source) (text : Text) (token : Token) : Except Fault Outcome × Bool :=
  if token = .cancelled then (.ok (.failed .cancelled), true)
  else
    match s.evaluator.program text with
    | .error e => (.ok (.failed e), false)
    | .ok program =>
      let p := play none false (program s.document)
      (outcomeOf p, p.cancelled)

/-- In place of a token that is not given a fresh one is made. -/
theorem ending_none (s : Source) (text : Text) : s.ending text .none = s.ending text .live := rfl

/-- The context of a filter text. -/
def contextOf (s : Source) (text : Text) : Context :=
  Id.run (Context.ofText (m := Id) s.evaluator.isValid text)

/-- The keys at a path behind a bar. -/
def keysBehind (s : Source) (left right : Text) : Except Fault (List Text) :=
  let behind (text : Text) : Text :=
    if right = [] || right = Context.rootPath then text else piped text right
  match firstItem? left with
  | none => s.keysOf (behind left)
  | some item =>
    match s.keysOf (behind item) with
    | .error (.query _) => s.keysOf (behind left)
    | .error f => .error f
    | .ok [] => s.keysOf (behind left)
    | .ok keys => .ok keys

/-- The keys at the path of a context. -/
def keysInContextOf (s : Source) (text path : Text) : Except Fault (List Text) :=
  match text.splitLast '|' with
  | some (before, _) => if before.trim.isEmpty then s.keysOf path else s.keysBehind before.trim path
  | none => s.keysOf path

/-- The keys offered for a filter text, with its context. -/
def suggestionsFor (s : Source) (text : Text) : List Text × Context :=
  let context := s.contextOf text
  match s.keysInContextOf text context.path with
  | .ok keys => (Text.sort (matchPrefix keys context.incomplete), context)
  | .error _ => ([], context)

/-- Suggestions come with the context of their text. -/
theorem suggestionsFor_context (s : Source) (text : Text) :
    (s.suggestionsFor text).2 = s.contextOf text := by
  unfold suggestionsFor
  dsimp only
  split <;> rfl

end Source

/-! ### Coherent tables -/

/-- What is kept of a document is its text, if it is the document of the source. -/
def Source.Recalls (s : Source) (kept : Option Transcript) : Prop :=
  ∀ t ∈ kept, t.object = s.object → t.text = s.document.compact

/-- Tables whose entries are what would be computed in their place. -/
structure Memo.Coherent (s : Source) (m : Memo) : Prop where
  programs : ∀ {text p}, lookUp m.programs text = some p → s.evaluator.program text = .ok p
  keyLists : ∀ {path ks}, lookUp m.keyLists path = some ks → s.keysOf path = .ok ks
  validity : ∀ {text b}, lookUp m.validity text = some b → s.evaluator.isValid text = b
  transcript : s.Recalls m.transcript

theorem Memo.coherent_empty (s : Source) : Memo.Coherent s {} :=
  ⟨fun h => by simp [lookUp] at h, fun h => by simp [lookUp] at h, fun h => by simp [lookUp] at h,
   fun _ h => by simp at h⟩

/-! ### The text of the document -/

namespace Source

variable {s : Source} {kept : Option Transcript}

/-- The text that is kept is not another one, and the text that is written out is kept. -/
theorem Recalls.documentText (h : s.Recalls kept) :
    (documentText s.object s.document kept).1 = s.document.compact ∧
      s.Recalls (documentText s.object s.document kept).2 := by
  have hfresh : s.Recalls (some ⟨s.object, s.document.compact⟩) := by
    rintro t ht -
    cases ht
    rfl
  unfold LiveQuery.documentText
  rcases kept with - | t
  · exact ⟨rfl, hfresh⟩
  · dsimp only
    split
    · next hobject => exact ⟨h t rfl hobject, h⟩
    · exact ⟨rfl, hfresh⟩

/-- **A program plays its stream on the document**, whether it reads the text that is kept or one
that is written out for it. -/
theorem Recalls.stream (h : s.Recalls kept) (p : Program) :
    (p.stream s.object s.document kept).1 = p s.document ∧
      s.Recalls (p.stream s.object s.document kept).2 := by
  cases p with
  | onValue play => exact ⟨rfl, h⟩
  | onText play => exact ⟨congrArg play h.documentText.1, h.documentText.2⟩

end Source

/-! ### Answers on coherent tables -/

/-- The action gives the answer on all coherent tables, and adds coherent entries to them. -/
def Answers (s : Source) (x : StateM Memo α) (a : α) : Prop :=
  ∀ m : Memo, m.Coherent s → (x m).1 = a ∧ (x m).2.Coherent s ∧ m.Extends (x m).2

namespace Answers

variable {s : Source}

theorem pure (a : α) : Answers s (pure a) a := fun m hm => ⟨rfl, hm, .refl m⟩

/-- Where one action answers `a`, what follows is asked with `a`, on the tables it has left. -/
theorem bind {x : StateM Memo α} {f : α → StateM Memo β} {a : α} {b : β}
    (hx : Answers s x a) (hf : Answers s (f a) b) : Answers s (x >>= f) b := by
  intro m hm
  obtain ⟨ha, hc, he⟩ := hx m hm
  obtain ⟨hb, hc', he'⟩ := hf (x m).2 hc
  rw [← ha] at hb hc' he'
  exact ⟨hb, hc', he.trans he'⟩

/-- On coherent tables the answer comes with coherent tables. -/
theorem result {x : StateM Memo α} {a : α} (h : Answers s x a) {m : Memo} (hm : m.Coherent s) :
    ∃ m', x m = (a, m') ∧ m'.Coherent s := by
  obtain ⟨ha, hc, -⟩ := h m hm
  exact ⟨(x m).2, Prod.ext ha rfl, hc⟩

/-- The answer is the one on empty tables. -/
theorem eq_fresh {x : StateM Memo α} {a : α} (h : Answers s x a) : (x {}).1 = a :=
  (h {} (Memo.coherent_empty s)).1

end Answers

/-! ### Each question -/

namespace Source

variable (s : Source)

theorem compiled_answers (text : Text) :
    Answers s (s.compiled text) (s.evaluator.program text) := by
  intro m hm
  unfold compiled
  rcases hl : lookUp m.programs text with - | p
  · rcases hp : s.evaluator.program text with e | p
    · -- a failure is counted, and adds no entry
      refine ⟨rfl, { hm with }, ⟨?_, ?_, ?_⟩⟩ <;> exact List.prefix_rfl
    · refine ⟨rfl, { hm with programs := ?_ }, ⟨List.prefix_append _ _, ?_, ?_⟩⟩
      · intro t q h
        rcases lookUp_snoc_some h with h | ⟨rfl, rfl⟩
        · exact hm.programs h
        · exact hp
      · exact List.prefix_rfl
      · exact List.prefix_rfl
  · exact ⟨(hm.programs hl).symm, hm, .refl m⟩

/-- The text of the document does not show in what a program plays. -/
theorem stream_answers (p : Program) : Answers s (s.stream p) (p s.document) := by
  intro m hm
  obtain ⟨hevents, hkept⟩ := hm.transcript.stream p
  exact ⟨hevents, { hm with transcript := hkept },
    ⟨List.prefix_rfl, List.prefix_rfl, List.prefix_rfl⟩⟩

theorem execute_answers (text : Text) (token : Token) :
    Answers s (s.execute text token) (s.ending text token) := by
  unfold execute ending
  by_cases h : token = .cancelled
  · rw [if_pos h, if_pos h]
    exact .pure _
  · rw [if_neg h, if_neg h]
    refine .bind (s.compiled_answers text) ?_
    rcases s.evaluator.program text with e | program
    · exact .pure _
    · exact .bind (s.stream_answers program) (.pure _)

theorem keysByRunning_answers (text : Text) :
    Answers s (s.keysByRunning text) (s.keysYielded text) := by
  unfold keysByRunning keysYielded
  refine .bind (s.compiled_answers text) ?_
  rcases s.evaluator.program text with e | program
  · exact .pure _
  · refine .bind (s.stream_answers program) ?_
    dsimp only
    rcases firstElement (program s.document) with f | - | v
    all_goals exact .pure _

/-- A key list that is what would be computed is stored, or is there already. -/
theorem storeKeys_answers {path : Text} {ks : List Text} (h : s.keysOf path = .ok ks) :
    Answers s (storeKeys path ks) ks := by
  intro m hm
  unfold storeKeys
  rcases hl : lookUp m.keyLists path with - | ks'
  · refine ⟨rfl, { hm with keyLists := ?_ }, ⟨?_, List.prefix_append _ _, ?_⟩⟩
    · intro t q hq
      rcases lookUp_snoc_some hq with hq | ⟨rfl, rfl⟩
      · exact hm.keyLists hq
      · exact h
    · exact List.prefix_rfl
    · exact List.prefix_rfl
  · have heq : ks' = ks := Except.ok.inj ((hm.keyLists hl).symm.trans h)
    exact ⟨heq, hm, .refl m⟩

/-- The keys at a path, past the table. -/
def keysMissed (path : Text) : StateM Memo (Except Fault (List Text)) :=
  match Path.read path with
  | .error digits => return .error (.tooLong digits)
  | .ok (some steps) => return .ok (← storeKeys path (s.document.keysAt steps))
  | .ok none => do
    match ← s.keysByRunning path with
    | .ok ks => return .ok (← storeKeys path ks)
    | .error f => return .error f

theorem keysMissed_answers (path : Text) :
    Answers s (s.keysMissed path) (s.keysOf path) := by
  rcases hp : Path.read path with digits | - | steps
  · have hw : s.keysOf path = .error (.tooLong digits) := by simp [keysOf, hp]
    unfold keysMissed
    rw [hp, hw]
    exact .pure _
  · have hw : s.keysOf path = s.keysYielded path := by simp [keysOf, hp]
    unfold keysMissed
    rw [hp, hw]
    refine .bind (s.keysByRunning_answers path) ?_
    rcases hk : s.keysYielded path with f | ks
    · exact .pure _
    · exact .bind (s.storeKeys_answers (hw.trans hk)) (.pure _)
  · have hw : s.keysOf path = .ok (s.document.keysAt steps) := by simp [keysOf, hp]
    unfold keysMissed
    rw [hp, hw]
    exact .bind (s.storeKeys_answers hw) (.pure _)

/-- A lookup goes past the table where the table has no entry. -/
theorem keysAt_eq (path : Text) (m : Memo) :
    s.keysAt path m =
      match lookUp m.keyLists (if path.isEmpty then ['.'] else path) with
      | some ks => (.ok ks, m)
      | none => s.keysMissed (if path.isEmpty then ['.'] else path) m := by
  simp only [keysAt, keysMissed, bind, StateT.bind, get, getThe, MonadStateOf.get, StateT.get, pure]
  rcases lookUp m.keyLists (if path.isEmpty then ['.'] else path) with - | ks
  · rfl
  · rfl

theorem keysAt_answers (path : Text) : Answers s (s.keysAt path) (s.keysOf path) := by
  intro m hm
  rw [keysAt_eq, ← keysOf_orRoot]
  rcases hl : lookUp m.keyLists (if path.isEmpty then ['.'] else path) with - | ks
  · exact s.keysMissed_answers _ m hm
  · exact ⟨(hm.keyLists hl).symm, hm, .refl m⟩

theorem isValid_answers (text : Text) : Answers s (s.isValid text) (s.evaluator.isValid text) := by
  intro m hm
  unfold isValid
  rcases hl : lookUp m.validity text with - | b
  · refine ⟨rfl, { hm with validity := ?_ }, ⟨?_, ?_, List.prefix_append _ _⟩⟩
    · intro t q h
      rcases lookUp_snoc_some h with h | ⟨rfl, rfl⟩
      · exact hm.validity h
      · rfl
    · exact List.prefix_rfl
    · exact List.prefix_rfl
  · exact ⟨(hm.validity hl).symm, hm, .refl m⟩

/-- A scan that asks the tables finds the dot that a scan without tables finds. -/
theorem scanDots_answers (depth : Int) (segment : Text) :
    Answers s (Context.scanDots s.isValid depth segment)
      (Id.run (Context.scanDots (m := Id) s.evaluator.isValid depth segment)) := by
  induction segment generalizing depth with
  | nil => exact .pure _
  | cons c before ih =>
    unfold Context.scanDots
    split
    · exact ih (depth + 1)
    · split
      · exact ih (depth - 1)
      · split
        · split
          · exact .pure _
          · -- only here is the hook asked
            refine .bind (s.isValid_answers before.reverse) ?_
            show Answers s _ (Id.run (if s.evaluator.isValid before.reverse then _ else _))
            rcases s.evaluator.isValid before.reverse with - | -
            · exact ih depth
            · exact .pure _
        · exact ih depth

theorem context_answers (text : Text) : Answers s (s.context text) (s.contextOf text) :=
  .bind (s.scanDots_answers 0 _) (.pure _)

theorem keysAfterBar_answers (left right : Text) :
    Answers s (s.keysAfterBar left right) (s.keysBehind left right) := by
  unfold keysAfterBar keysBehind
  rcases firstItem? left with - | item
  · exact s.keysAt_answers _
  · refine .bind (s.keysAt_answers _) ?_
    dsimp only
    rcases s.keysOf _ with f | ks
    · -- only a query error at the item makes the lookup fall back
      cases f with
      | query e => exact s.keysAt_answers _
      | _ => exact .pure _
    · cases ks with
      | nil => exact s.keysAt_answers _
      | cons k ks => exact .pure _

theorem keysInContext_answers (text path : Text) :
    Answers s (s.keysInContext text path) (s.keysInContextOf text path) := by
  unfold keysInContext keysInContextOf
  rcases text.splitLast '|' with - | ⟨before, after⟩
  · exact s.keysAt_answers path
  · dsimp only
    split
    · exact s.keysAt_answers path
    · exact s.keysAfterBar_answers before.trim path

theorem suggest_answers (text : Text) : Answers s (s.suggest text) (s.suggestionsFor text) := by
  unfold suggest suggestionsFor
  refine .bind (s.context_answers text) (.bind (s.keysInContext_answers text _) ?_)
  dsimp only
  rcases s.keysInContextOf text (s.contextOf text).path with f | keys
  · exact .pure _
  · exact .pure _

end Source

end LiveQuery
