/-
LiveQuery/Proofs/Path/Stream.lean

The stream of a path, and what the walk makes of it.

A filter that is a path yields a stream: a member or an item gives one value, null where there is
none; an iteration goes through all items or members, and each is followed through the rest of
the path before the next.  A step that does not fit its value is an error, which ends the stream.
The walk of `Value.walk?` holds one value only, the first item at every iteration.  It never comes
back, and it does not iterate over objects.

Main results: where the walk does not stray (`Value.strays`), a stream that does not begin with an
error begins with a value that has the keys at the end of the walk (`beginsWith_stream`); and the
keys that are found by walking are those that are found by running the path, unless the walk
strays and the first value has keys (`keysByRunning_eq_iff`).
-/
import LiveQuery.Proofs.Memo.Questions

namespace LiveQuery

/-! ### Streams of paths -/

/-- A stream behind another, which an error in the first one keeps from being played. -/
def Event.followedBy : List Event → List Event → List Event
  | [], more => more
  | .error e :: _, _ => [.error e]
  | e :: rest, more => e :: followedBy rest more

namespace Value

/-- The values that a step leads to, in the order of the document; none where it is an error. -/
def reached? : Value → Step → Option (List Value)
  | object members, .key name => some [(member? name members).getD null]
  | null, .key _ => some [null]
  | array items, .index n => some [items[n]?.getD null]
  | null, .index _ => some [null]
  | array items, .iter => some items
  | object members, .iter => some (members.map Prod.snd)
  | _, _ => none

/-- The stream of a path, where `complaint` is the error of a step that does not fit. -/
def stream (complaint : Value → Step → StreamError) : Path → Value → List Event
  | [], v => [.value v]
  | s :: rest, v =>
    match v.reached? s with
    | some vs => (vs.map (stream complaint rest)).foldr Event.followedBy []
    | none => [.error (complaint v s)]

/-- Whether the walk ends at an iteration that a stream goes on from: over an object, or over no
items. -/
def strays : Value → Path → Bool
  | _, [] => false
  | v, s :: rest =>
    match v.step? s with
    | some w => w.strays rest
    | none => s = .iter && (v.reached? s).isSome

/-! ### One step -/

/-- The walk goes to the first of the values that are reached. -/
theorem reached?_of_step?_some {v w : Value} {s : Step} (h : v.step? s = some w) :
    ∃ more, v.reached? s = some (w :: more) := by
  cases v with
  | array items =>
    cases s with
    | key name => simp [step?] at h
    | index n =>
      simp only [step?] at h
      exact ⟨[], by simp [reached?, h]⟩
    | iter =>
      cases items with
      | nil => simp [step?] at h
      | cons item rest =>
        simp only [step?, List.head?_cons, Option.some.injEq] at h
        exact ⟨rest, by simp [reached?, h]⟩
  | object members =>
    cases s with
    | key name =>
      simp only [step?, Option.some.injEq] at h
      exact ⟨[], by simp [reached?, h]⟩
    | index n => simp [step?] at h
    | iter => simp [step?] at h
  | _ => simp [step?] at h

/-- Where the walk ends and no iteration goes on, nothing or null is reached. -/
theorem reached?_of_step?_none {v : Value} {s : Step} (h : v.step? s = none)
    (hs : (decide (s = .iter) && (v.reached? s).isSome) = false) :
    v.reached? s = none ∨ v.reached? s = some [null] := by
  cases s with
  | key name =>
    cases v with
    | object members => simp [step?] at h
    | null => exact .inr rfl
    | _ => exact .inl rfl
  | index n =>
    cases v with
    | array items =>
      simp only [step?] at h
      exact .inr (by simp [reached?, h])
    | null => exact .inr rfl
    | _ => exact .inl rfl
  | iter => exact .inl (by simpa using hs)

/-! ### The head of a stream -/

theorem head?_followedBy {es more : List Event} {e : Event} (h : es.head? = some e) :
    (Event.followedBy es more).head? = some e := by
  cases es with
  | nil => simp at h
  | cons e' rest =>
    rw [List.head?_cons, Option.some.injEq] at h
    subst h
    cases e' <;> rfl

variable {complaint : Value → Step → StreamError}

/-- What begins the stream of the first value that is reached begins the whole stream. -/
theorem head?_stream_cons {v w : Value} {s : Step} {more : List Value} {rest : Path} {e : Event}
    (hr : v.reached? s = some (w :: more)) (h : (stream complaint rest w).head? = some e) :
    (stream complaint (s :: rest) v).head? = some e := by
  simp only [stream, hr, List.map_cons, List.foldr_cons]
  exact head?_followedBy h

/-- A stream begins with a value that answers to a predicate, or with an error. -/
def BeginsWith (es : List Event) (good : Value → Prop) : Prop :=
  (∃ e, es.head? = some (.error e)) ∨ ∃ u, es.head? = some (.value u) ∧ good u

/-- From null on there is only null. -/
theorem beginsWith_stream_null (complaint : Value → Step → StreamError) (p : Path) :
    BeginsWith (stream complaint p null) (· = null) := by
  induction p with
  | nil => exact .inr ⟨null, rfl, rfl⟩
  | cons s rest ih =>
    have one (h : reached? null s = some [null]) :
        BeginsWith (stream complaint (s :: rest) null) (· = null) := by
      rcases ih with ⟨e, he⟩ | ⟨u, hu, rfl⟩
      · exact .inl ⟨e, head?_stream_cons h he⟩
      · exact .inr ⟨null, head?_stream_cons h hu, rfl⟩
    cases s with
    | key name => exact one rfl
    | index n => exact one rfl
    | iter => exact .inl ⟨_, rfl⟩

/-- Where the walk does not stray, the stream begins with an error or with a value that has the
keys at the end of the walk. -/
theorem beginsWith_stream (complaint : Value → Step → StreamError) {p : Path} {v : Value}
    (hp : v.strays p = false) :
    BeginsWith (stream complaint p v) fun u => u.keys = v.keysAt p := by
  induction p generalizing v with
  | nil => exact .inr ⟨v, rfl, rfl⟩
  | cons s rest ih =>
    rcases hw : v.step? s with - | w
    · -- the walk ends here: what the stream goes on with is null, which has no keys
      have hkeys : v.keysAt (s :: rest) = [] := by simp [keysAt, walk?, hw]
      rw [strays, hw] at hp
      rcases reached?_of_step?_none hw hp with hr | hr
      · exact .inl ⟨complaint v s, by simp [stream, hr]⟩
      · rcases beginsWith_stream_null complaint rest with ⟨e, he⟩ | ⟨u, hu, rfl⟩
        · exact .inl ⟨e, head?_stream_cons hr he⟩
        · exact .inr ⟨null, head?_stream_cons hr hu, hkeys.symm⟩
    · -- the walk goes to the first of the values that the stream goes through
      have hkeys : v.keysAt (s :: rest) = w.keysAt rest := by simp [keysAt, walk?, hw]
      obtain ⟨more, hr⟩ := reached?_of_step?_some hw
      rw [strays, hw] at hp
      rcases ih hp with ⟨e, he⟩ | ⟨u, hu, hku⟩
      · exact .inl ⟨e, head?_stream_cons hr he⟩
      · exact .inr ⟨u, head?_stream_cons hr hu, hku.trans hkeys.symm⟩

/-- A walk that strays ends nowhere. -/
theorem keysAt_of_strays {p : Path} {v : Value} (hp : v.strays p = true) : v.keysAt p = [] := by
  induction p generalizing v with
  | nil => simp [strays] at hp
  | cons s rest ih =>
    rcases hw : v.step? s with - | w
    · simp [keysAt, walk?, hw]
    · rw [strays, hw] at hp
      simpa [keysAt, walk?, hw] using ih hp

end Value

/-! ### Walking and running -/

/-- The keys of the value that a stream begins with. -/
def keysOfHead (es : List Event) : List Text :=
  match es.head? with
  | some (.value v) => v.keys
  | _ => []

/-- The evaluator that knows paths and nothing else. -/
def Evaluator.ofPaths (complaint : Value → Step → StreamError) : Evaluator where
  compile text :=
    match Path.ofText? text with
    | some path => .ok (.onValue (Value.stream complaint path))
    | none => .error []

namespace Source

variable {s : Source} {text : Text} {path : Path} {program : Program}

/-- Walking needs the grammar of paths only. -/
theorem keysOf_of_ofText? (hpath : Path.ofText? text = some path) :
    s.keysOf text = .ok (s.document.keysAt path) := by
  simp [keysOf, Path.ofText?_eq_some_iff.mp hpath]

/-- Running gives the keys of the first value, where no error comes before. -/
theorem keysYielded_of_head? (hprogram : s.evaluator.compile text = .ok program)
    (hstart : program s.document = [] ∨ ∃ v rest, program s.document = .value v :: rest) :
    s.keysYielded text = .ok (keysOfHead (program s.document)) := by
  have hp : s.evaluator.program text = .ok program := by simp [Evaluator.program, hprogram]
  rcases hstart with h | ⟨v, rest, h⟩
  · simp [keysYielded, hp, h, firstElement, keysOfHead]
  · simp [keysYielded, hp, h, firstElement, keysOfHead]

/-- **Walking against running.**  For a text that is a path, under an evaluator that plays its
stream on the document, and where the stream is empty or begins with a value: on any tables that
questions have left, the keys that are looked up are those at the end of the walk, running the
path gives the keys of the first value, and the two agree exactly where the walk does not stray
or the first value has no keys. -/
theorem keysByRunning_eq_iff (s : Source) (complaint : Value → Step → StreamError)
    (hpath : Path.ofText? text = some path)
    (hprogram : s.evaluator.compile text = .ok program)
    (hstream : program s.document = Value.stream complaint path s.document)
    (hstart : program s.document = [] ∨ ∃ v rest, program s.document = .value v :: rest)
    (qs : List Question) :
    let m := (s.askAll qs {}).2
    (s.keysAt text m).1 = .ok (s.document.keysAt path) ∧
    (s.keysByRunning text m).1 = .ok (keysOfHead (program s.document)) ∧
    ((s.keysByRunning text m).1 = (s.keysAt text m).1 ↔
      s.document.strays path = false ∨ keysOfHead (program s.document) = []) := by
  intro m
  have hm : m.Coherent s := (s.askAll_answers qs {} (Memo.coherent_empty s)).2.1
  have hwalk : (s.keysAt text m).1 = .ok (s.document.keysAt path) :=
    (s.keysAt_answers text m hm).1.trans (keysOf_of_ofText? hpath)
  have hrun : (s.keysByRunning text m).1 = .ok (keysOfHead (program s.document)) :=
    (s.keysByRunning_answers text m hm).1.trans (keysYielded_of_head? hprogram hstart)
  refine ⟨hwalk, hrun, ?_⟩
  rw [hwalk, hrun, Except.ok.injEq]
  rcases hs : s.document.strays path with - | -
  · -- the stream begins with a value of the same keys
    refine ⟨fun _ => .inl rfl, fun _ => ?_⟩
    rcases Value.beginsWith_stream complaint hs with ⟨e, he⟩ | ⟨u, hu, hku⟩
    · rw [← hstream] at he
      rcases hstart with h | ⟨v, rest, h⟩
      · simp [h] at he
      · simp [h] at he
    · rw [← hstream] at hu
      simp [keysOfHead, hu, hku]
  · rw [Value.keysAt_of_strays hs]
    simp

/-- A document under the evaluator of paths. -/
def overPaths (v : Value) : Source := ⟨.ofPaths fun _ _ => .query (.evaluation []), v, 0⟩

/-- At `.a[]` in `{"a": [{"k": 1}, null]}`. -/
theorem keysByRunning_eq_iff_items :
    let s := overPaths (.object [(['a'], .array [.object [(['k'], .int 1)], .null])])
    let text := ['.', 'a', '[', ']']
    let complaint : Value → Step → StreamError := fun _ _ => .query (.evaluation [])
    let program : Program := .onValue (Value.stream complaint [.key ['a'], .iter])
    (Path.ofText? text = some [.key ['a'], .iter] ∧
      s.evaluator.compile text = .ok program ∧
      ∃ v rest, program s.document = .value v :: rest) ∧
    ((s.keysByRunning text {}).1 = (s.keysAt text {}).1 ↔
      s.document.strays [.key ['a'], .iter] = false ∨ keysOfHead (program s.document) = []) := by
  refine ⟨⟨rfl, rfl, _, _, rfl⟩, ?_⟩
  exact (keysByRunning_eq_iff _ (fun _ _ => .query (.evaluation [])) rfl rfl rfl
    (.inr ⟨_, _, rfl⟩) []).2.2

/-- Walking finds nothing at `.[]` in `{"a": {"b": 1}}`, nor at `.[][]` in `[[], [{"a": 1}]]`,
where running finds the keys of the first value. -/
theorem keysAt_ne_keysByRunning :
    (let s := overPaths (.object [(['a'], .object [(['b'], .int 1)])])
     (s.keysAt ['.', '[', ']'] {}).1 = .ok [] ∧
     (s.keysByRunning ['.', '[', ']'] {}).1 = .ok [['b']]) ∧
    (let s := overPaths (.array [.array [], .array [.object [(['a'], .int 1)]]])
     (s.keysAt ['.', '[', ']', '[', ']'] {}).1 = .ok [] ∧
     (s.keysByRunning ['.', '[', ']', '[', ']'] {}).1 = .ok [['a']]) := by
  refine ⟨⟨rfl, ?_⟩, ⟨rfl, ?_⟩⟩
  · show Except.ok (Text.sort [['b']]) = _
    simp [Text.sort]
  · show Except.ok (Text.sort [['a']]) = _
    simp [Text.sort]

end Source

end LiveQuery
