/-
LiveQuery/Proofs/Path/FirstItems.lean

What the walk through a document computes.

Where every iteration of a path is replaced by the index of the first item, the path has no
choice left: its stream is a single value or a single error, since a member or an item that is
missing is null.  The walk ends early where one of them is missing, and where the stream fails; as
null has no keys, both ends come to the same (`stream_firstItems`).

So the walk does not tell an iteration from the index of the first item (`keysAt_congr`).  Behind a
bar, keys are looked up at a text in which the last iteration has been replaced in this way, and
what is found there is what the text itself has.

Main result: `keysAt_eq_firstItems`.
-/
import LiveQuery.Proofs.Path.Reading
import LiveQuery.Proofs.Path.Stream

namespace LiveQuery

/-- The step with the index of the first item in place of an iteration. -/
def Step.firstItem (s : Step) : Step := if s = .iter then .index 0 else s

/-- The path with the index of the first item in place of every iteration. -/
def Path.firstItems (p : Path) : Path := p.map Step.firstItem

namespace Value

variable {v w : Value} {p q : Path}

/-! ### The walk and the stream -/

/-- From null on there is nothing to walk to. -/
theorem keysAt_null (p : Path) : null.keysAt p = [] := by
  cases p <;> rfl

/-- A first item is null, fails, or is where the walk goes. -/
theorem reached?_firstItem (v : Value) (s : Step) :
    (v.reached? s.firstItem = none ∧ v.step? s = none) ∨
    (v.reached? s.firstItem = some [null] ∧ v.step? s = none) ∨
    ∃ w, v.reached? s.firstItem = some [w] ∧ v.step? s = some w := by
  cases v with
  | array items =>
    cases s with
    | key name => exact .inl ⟨rfl, rfl⟩
    | index n =>
      rcases hn : items[n]? with - | item
      · exact .inr (.inl ⟨by simp [Step.firstItem, reached?, hn], hn⟩)
      · exact .inr (.inr ⟨item, by simp [Step.firstItem, reached?, hn], hn⟩)
    | iter =>
      cases items with
      | nil => exact .inr (.inl ⟨rfl, rfl⟩)
      | cons item rest => exact .inr (.inr ⟨item, rfl, rfl⟩)
  | object members =>
    cases s with
    | key name => exact .inr (.inr ⟨_, rfl, rfl⟩)
    | index n => exact .inl ⟨rfl, rfl⟩
    | iter => exact .inl ⟨rfl, rfl⟩
  | null =>
    cases s with
    | key name => exact .inr (.inl ⟨rfl, rfl⟩)
    | index n => exact .inr (.inl ⟨rfl, rfl⟩)
    | iter => exact .inr (.inl ⟨rfl, rfl⟩)
  | bool b => cases s <;> exact .inl ⟨rfl, rfl⟩
  | int i => cases s <;> exact .inl ⟨rfl, rfl⟩
  | real x => cases s <;> exact .inl ⟨rfl, rfl⟩
  | string t => cases s <;> exact .inl ⟨rfl, rfl⟩

/-- The keys at the end of a path are those from the first item on, none where it fails. -/
theorem keysAt_firstItem (v : Value) (s : Step) (rest : Path) :
    (v.reached? s.firstItem = none ∧ v.keysAt (s :: rest) = []) ∨
    ∃ w, v.reached? s.firstItem = some [w] ∧ v.keysAt (s :: rest) = w.keysAt rest := by
  rcases reached?_firstItem v s with ⟨hr, hw⟩ | ⟨hr, hw⟩ | ⟨w, hr, hw⟩
  · exact .inl ⟨hr, by simp [keysAt, walk?, hw]⟩
  · -- the walk ends, and null has nothing to walk to either
    refine .inr ⟨null, hr, ?_⟩
    rw [keysAt_null]
    simp [keysAt, walk?, hw]
  · exact .inr ⟨w, hr, by simp [keysAt, walk?, hw]⟩

/-- A stream goes on from the only value that is reached, and ends as it does. -/
theorem stream_cons_singleton {complaint : Value → Step → StreamError} {s : Step} {e : Event}
    (hr : v.reached? s = some [w]) (he : stream complaint p w = [e]) :
    stream complaint (s :: p) v = [e] := by
  simp only [stream, hr, List.map_cons, List.map_nil, List.foldr_cons, List.foldr_nil, he]
  cases e <;> rfl

/-- The stream of a path that takes the first item at every iteration is a single value, which has
the keys at the end of the walk, or a single error, where the walk ends before. -/
theorem stream_firstItems (complaint : Value → Step → StreamError) (v : Value) (p : Path) :
    (∃ w, stream complaint p.firstItems v = [.value w] ∧ v.keysAt p = w.keys) ∨
    (∃ e, stream complaint p.firstItems v = [.error e] ∧ v.keysAt p = []) := by
  induction p generalizing v with
  | nil => exact .inl ⟨v, rfl, rfl⟩
  | cons s rest ih =>
    rcases keysAt_firstItem v s rest with ⟨hr, hkeys⟩ | ⟨w, hr, hkeys⟩
    · exact .inr ⟨complaint v s.firstItem, by simp [Path.firstItems, stream, hr], hkeys⟩
    · rw [hkeys]
      rcases ih w with ⟨u, hu, hk⟩ | ⟨e, he, hk⟩
      · exact .inl ⟨u, stream_cons_singleton hr hu, hk⟩
      · exact .inr ⟨e, stream_cons_singleton hr he, hk⟩

/-- Paths that are alike but for iterations and first items have the same keys. -/
theorem keysAt_congr (v : Value) (h : p.firstItems = q.firstItems) : v.keysAt p = v.keysAt q := by
  let complaint : Value → Step → StreamError := fun _ _ => .query (.evaluation [])
  rcases stream_firstItems complaint v p with ⟨w, hp, hkeys⟩ | ⟨e, hp, hkeys⟩ <;>
    rcases stream_firstItems complaint v q with ⟨w', hq, hkeys'⟩ | ⟨e', hq, hkeys'⟩ <;>
    rw [h, hq] at hp <;> cases hp <;> rw [hkeys, hkeys']

end Value

/-! ### Texts that end in an iteration -/

namespace Path

variable {place : Place} {ts : Path}

/-- An iteration at the end of a text is read as the index of the first item is in its place. -/
theorem reads_firstItem {p : Text} (h : Reads place (p ++ "[]".toList) ts) :
    ∃ before, ts = before ++ [.iter] ∧
      Reads place (p ++ "[0]".toList) (before ++ [.index 0]) := by
  induction p generalizing place ts with
  | nil =>
    rcases place with - | name | digits | -
    · cases h
      exact ⟨[], rfl, rfl⟩
    · cases h
      exact ⟨[.key name], rfl, rfl⟩
    · cases h
    · cases h
      exact ⟨[], rfl, rfl⟩
  | cons c rest ih =>
    obtain ⟨out, next, behind, hstep, hread, rfl⟩ := reads_cons_iff.mp h
    obtain ⟨before, rfl, hfirst⟩ := ih hread
    refine ⟨out ++ before, (List.append_assoc ..).symm, ?_⟩
    exact reads_cons_iff.mpr ⟨out, next, _, hstep, hfirst, (List.append_assoc ..).symm⟩

/-- A path that ends in an iteration is a path with the index of the first item in its place. -/
theorem ofText?_firstItem {p : Text} (h : ofText? (p ++ "[]".toList) = some ts) :
    ∃ before, ts = before ++ [.iter] ∧
      ofText? (p ++ "[0]".toList) = some (before ++ [.index 0]) := by
  cases p with
  | nil => cases h
  | cons c rest =>
    obtain rfl := head_of_ofText? h
    -- something stands behind the dot, so that all of it is read from there
    have hbehind (more : Text) (hmore : more ≠ []) : rest ++ more ≠ [] :=
      List.append_ne_nil_of_right_ne_nil rest hmore
    rw [ofText?_eq_some_iff, List.cons_append, read_dot (hbehind "[]".toList (by decide))] at h
    obtain ⟨before, hts, hfirst⟩ := reads_firstItem h
    refine ⟨before, hts, ?_⟩
    rw [ofText?_eq_some_iff, List.cons_append, read_dot (hbehind "[0]".toList (by decide))]
    exact hfirst

end Path

namespace Source

variable {s : Source} {left : Text} {ts : Path}

theorem firstItem?_iteration (p : Text) :
    firstItem? (p ++ "[]".toList) = some (p ++ "[0]".toList) := by
  have hends : (p ++ "[]".toList).endsWith "[]".toList := by
    rw [Text.endsWith, List.isSuffixOf_iff_suffix]
    exact List.suffix_append p _
  rw [firstItem?, if_pos hends, List.length_append]
  exact congrArg (fun t => some (t ++ "[0]".toList)) (List.take_left' rfl)

/-- At the root behind a bar, the first item is tried before the iteration itself. -/
theorem keysBehind_root {item : Text} (s : Source) (h : firstItem? left = some item) :
    s.keysBehind left Context.rootPath =
      match s.keysOf item with
      | .error (.query _) => s.keysOf left
      | .error f => .error f
      | .ok [] => s.keysOf left
      | .ok keys => .ok keys := by
  rw [keysBehind, h]
  rfl

/-- A path that ends in an iteration has the same keys behind a bar and alone. -/
theorem keysBehind_iteration (s : Source) {p : Text}
    (h : Path.ofText? (p ++ "[]".toList) = some ts) :
    s.keysBehind (p ++ "[]".toList) Context.rootPath = .ok (s.document.keysAt ts) := by
  obtain ⟨before, rfl, hfirst⟩ := Path.ofText?_firstItem h
  have hsame : s.document.keysAt (before ++ [.index 0]) = s.document.keysAt (before ++ [.iter]) :=
    Value.keysAt_congr s.document (by simp [Path.firstItems, Step.firstItem])
  rw [keysBehind_root s (firstItem?_iteration p), keysOf_of_ofText? hfirst, hsame,
    keysOf_of_ofText? h]
  -- no keys at the first item are no keys at the iteration
  cases s.document.keysAt (before ++ [.iter]) <;> rfl

/-- **What the walk computes.**  The keys at the end of a path are those of the single value that
its stream has where every iteration is replaced by the index of the first item, and none where
that stream fails.  So, on any tables that questions have left, a path that ends in an iteration
has the same keys at the root behind a bar as it has alone. -/
theorem keysAt_eq_firstItems (s : Source) (complaint : Value → Step → StreamError) (path : Path)
    (qs : List Question) :
    let m := (s.askAll qs {}).2
    ((∃ w, Value.stream complaint path.firstItems s.document = [.value w] ∧
        s.document.keysAt path = w.keys) ∨
      (∃ e, Value.stream complaint path.firstItems s.document = [.error e] ∧
        s.document.keysAt path = [])) ∧
    ∀ left steps, Path.ofText? left = some steps → left.endsWith "[]".toList →
      (s.keysAfterBar left Context.rootPath m).1 = (s.keysAt left m).1 ∧
      (s.keysAt left m).1 = .ok (s.document.keysAt steps) := by
  intro m
  have hm : m.Coherent s := (s.askAll_answers qs {} (Memo.coherent_empty s)).2.1
  refine ⟨Value.stream_firstItems complaint s.document path, ?_⟩
  intro left steps hpath hends
  obtain ⟨p, rfl⟩ := List.isSuffixOf_iff_suffix.mp hends
  have hbehind : (s.keysAfterBar (p ++ "[]".toList) Context.rootPath m).1 =
      .ok (s.document.keysAt steps) :=
    (s.keysAfterBar_answers _ _ m hm).1.trans (s.keysBehind_iteration hpath)
  have halone : (s.keysAt (p ++ "[]".toList) m).1 = .ok (s.document.keysAt steps) :=
    (s.keysAt_answers _ m hm).1.trans (keysOf_of_ofText? hpath)
  exact ⟨hbehind.trans halone.symm, halone⟩

/-- At `.a[]` in `{"a": [{"k": 1}, null]}`, after other questions. -/
theorem keysAt_eq_firstItems_nested :
    let s := overPaths (.object [(['a'], .array [.object [(['k'], .int 1)], .null])])
    let qs := [Question.suggest ".a[] | .".toList, .keysAt ".a".toList]
    let m := (s.askAll qs {}).2
    let left : Text := ".a[]".toList
    (Path.ofText? left = some [.key ['a'], .iter] ∧ left.endsWith "[]".toList) ∧
    (s.keysAfterBar left Context.rootPath m).1 = (s.keysAt left m).1 ∧
    (s.keysAt left m).1 = .ok [['k']] := by
  intro s qs m left
  have hpath : Path.ofText? left = some [.key ['a'], .iter] := rfl
  have hends : left.endsWith "[]".toList := rfl
  have hkeys : s.document.keysAt [.key ['a'], .iter] = [['k']] := by
    show Text.sort [['k']] = _
    simp [Text.sort]
  obtain ⟨hbehind, halone⟩ :=
    (keysAt_eq_firstItems s (fun _ _ => .query (.evaluation [])) [] qs).2 left _ hpath hends
  exact ⟨⟨hpath, hends⟩, hbehind, hkeys ▸ halone⟩

end Source

end LiveQuery
