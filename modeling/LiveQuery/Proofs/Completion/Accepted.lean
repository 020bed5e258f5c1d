/-
LiveQuery/Proofs/Completion/Accepted.lean

What an accepted key makes of a filter.

Without a bar, the context of a filter that begins with a dot splits it at a dot
(`contextOf_split`): the path is what stands before the dot, and a chosen key is put behind it.  The
keys offered are those of the value at the end of the path, and any text may be the key of an
object.  As the key is put in as it is, the new filter names what was chosen only where the key is
an identifier; hints of items are always read back.

Main result: `accept_reads_iff`.
-/
import LiveQuery.Proofs.Completion.Splits
import LiveQuery.Proofs.Memo.Questions
import LiveQuery.Proofs.Path.Reading
import LiveQuery.Proofs.Path.Stream

namespace LiveQuery

/-- The keys at the end of a path are members of an object, or the first indices of an array. -/
theorem Value.mem_keysAt {v : Value} {p : Path} {k : Text} (h : k ∈ v.keysAt p) :
    (∃ members, v.walk? p = some (.object members) ∧ k ∈ members.map Prod.fst) ∨
    (∃ items n, v.walk? p = some (.array items) ∧ n < items.length ∧ n < maxIndexHints ∧
      k = indexHint n) := by
  rw [keysAt] at h
  rcases hwalk : v.walk? p with - | w
  · simp [hwalk] at h
  · rw [hwalk] at h
    cases w with
    | object members => exact .inl ⟨members, rfl, List.mem_mergeSort.mp h⟩
    | array items =>
      obtain ⟨n, hn, rfl⟩ := List.mem_map.mp h
      rw [List.mem_range, Nat.lt_min] at hn
      exact .inr ⟨items, n, rfl, hn.1, hn.2, rfl⟩
    | _ => cases h

namespace Source

variable {s : Source} {t k : Text} {ts : Path}

/-- **The context of a filter** without a bar: the filter up to the context's start is a text and a
dot behind it, and the text is the path; for no text it is the root. -/
theorem contextOf_split (s : Source) (hdot : t.head? = some '.') (hbar : '|' ∉ t) :
    ∃ kept, t.take (s.contextOf t).start = kept ++ ['.'] ∧
      (s.contextOf t).path = if kept.isEmpty then Context.rootPath else kept := by
  have hcontext : s.contextOf t = Context.ofSegment t 0
      (Id.run (Context.keyDot? (m := Id) s.evaluator.isValid t)) := by
    have hsegment : Context.lastSegment t = (t, 0) := by
      rw [Context.lastSegment, Text.splitLast_of_not_mem hbar]
    show Context.ofSegment (Context.lastSegment t).1 (Context.lastSegment t).2
      (Id.run (Context.keyDot? (m := Id) s.evaluator.isValid (Context.lastSegment t).1)) = _
    rw [hsegment]
  -- the dot is the one that is found with fresh tables
  rcases hfound : Context.keyDot? s.isValid t {} with ⟨dot?, m⟩
  have hanswer := (s.scanDots_answers 0 t.reverse {} (Memo.coherent_empty s)).1
  have hdot? : Id.run (Context.keyDot? (m := Id) s.evaluator.isValid t) = dot? :=
    hanswer.symm.trans (congrArg Prod.fst hfound)
  rw [hcontext, hdot?]
  rcases dot? with - | dot
  · -- every dot may be in brackets: then the first character is taken for the split
    cases t with
    | nil => cases hdot
    | cons c rest =>
      obtain rfl := Option.some.inj hdot
      exact ⟨[], rfl, rfl⟩
  · obtain ⟨path, rest, rfl, rfl, -⟩ := Context.keyDot?_some hfound
    rw [Context.ofSegment_some, Nat.zero_add]
    refine ⟨path, ?_, rfl⟩
    have hkept : (path ++ ['.'] ++ rest).take (path.length + 1) = path ++ ['.'] :=
      List.take_left' List.length_append
    rw [← hkept, List.append_assoc]
    rfl

/-- Without a bar, a key that is offered is one at the path of the context. -/
theorem mem_suggestionsFor (hbar : '|' ∉ t) (hpath : Path.ofText? (s.contextOf t).path = some ts)
    (hk : k ∈ (s.suggestionsFor t).1) : k ∈ s.document.keysAt ts := by
  have hkeys : s.keysInContextOf t (s.contextOf t).path = .ok (s.document.keysAt ts) := by
    rw [keysInContextOf, Text.splitLast_of_not_mem hbar]
    exact keysOf_of_ofText? hpath
  rw [suggestionsFor] at hk
  simp only [hkeys] at hk
  rw [Text.sort, List.mem_mergeSort] at hk
  exact (List.mem_filter.mp hk).1

/-- **What an accepted key makes of a filter** that begins with a dot and has no bar, on any tables
that questions have left.  The keys offered are members of an object or indices of an array, at
the path of the context.  The new filter is that path and a step to what was chosen: for an item,
unless nothing but two dots are kept of the filter, and for a member, if moreover its key is an
identifier. -/
theorem accept_reads_iff (s : Source) (qs : List Question) (hdot : t.head? = some '.')
    (hbar : '|' ∉ t) {offer : List Text × Context}
    (hoffer : (s.suggest t (s.askAll qs {}).2).1 = offer)
    (hpath : Path.ofText? offer.2.path = some ts) (hk : k ∈ offer.1) :
    let accepted := offer.2.accept t k
    let doubled := t.take offer.2.start = "..".toList
    (∃ members, s.document.walk? ts = some (.object members) ∧ k ∈ members.map Prod.fst ∧
      (Path.ofText? accepted = some (ts ++ [.key k]) ↔ ¬ doubled ∧ Path.isIdentifier k)) ∨
    (∃ items n, s.document.walk? ts = some (.array items) ∧ n < items.length ∧
      k = Value.indexHint n ∧
      (Path.ofText? accepted = some (ts ++ [.index n]) ↔ ¬ doubled)) := by
  intro accepted doubled
  have hm : (s.askAll qs {}).2.Coherent s := (s.askAll_answers qs {} (Memo.coherent_empty s)).2.1
  have hsuggested : offer = s.suggestionsFor t := hoffer.symm.trans (s.suggest_answers t _ hm).1
  have hcontext : offer.2 = s.contextOf t := by rw [hsuggested, s.suggestionsFor_context]
  obtain ⟨kept, hstart, hkept⟩ := s.contextOf_split hdot hbar
  rw [← hcontext] at hstart hkept
  -- the new filter goes on behind the dot at which the old one is split
  have haccepted : accepted = kept ++ '.' :: k := by
    show t.take offer.2.start ++ k = _
    rw [hstart, List.append_assoc]
    rfl
  have hdoubled : ¬ doubled ↔ kept ≠ ['.'] := by
    show ¬ t.take offer.2.start = ['.'] ++ ['.'] ↔ _
    rw [hstart, List.append_left_inj]
  have hreads (step : Step) : Path.ofText? accepted = some (ts ++ [step]) ↔
      ¬ doubled ∧ Path.Reads .dot k [step] := by
    rw [hkept] at hpath
    rw [haccepted, hdoubled]
    exact Path.ofText?_snoc_iff hpath k
  have hmem : k ∈ s.document.keysAt ts := by
    rw [hcontext] at hpath
    rw [hsuggested] at hk
    exact mem_suggestionsFor hbar hpath hk
  rcases Value.mem_keysAt hmem with ⟨members, hwalk, hmember⟩ | ⟨items, n, hwalk, hn, hfirst, rfl⟩
  · refine .inl ⟨members, hwalk, hmember, ?_⟩
    rw [hreads, Path.reads_key_iff]
  · refine .inr ⟨items, n, hwalk, hn, rfl, ?_⟩
    rw [hreads, and_iff_left (Path.reads_indexHint (Path.length_ofNat_le hfirst))]

/-- A key of an object within an object, asked for after other questions. -/
theorem accept_reads_iff_nested :
    let s := overPaths (.object [("a".toList, .object [("id".toList, .int 1)])])
    let qs := [Question.context ".a".toList, .suggest ".a[].".toList]
    let t := ".a.I".toList
    let k := "id".toList
    let offer := ([k], (⟨".a".toList, "I".toList, 3⟩ : Context))
    (t.head? = some '.' ∧ '|' ∉ t ∧ (s.suggest t (s.askAll qs {}).2).1 = offer ∧
      Path.ofText? offer.2.path = some [.key "a".toList] ∧ k ∈ offer.1) ∧
    offer.2.accept t k = ".a.id".toList ∧
    Path.ofText? (offer.2.accept t k) = some [.key "a".toList, .key "id".toList] := by
  intro s qs t k offer
  have hdot : t.head? = some '.' := rfl
  have hbar : '|' ∉ t := by decide
  have hoffer : (s.suggest t (s.askAll qs {}).2).1 = offer := by decide +kernel
  have hpath : Path.ofText? offer.2.path = some [.key "a".toList] := by decide
  have hk : k ∈ offer.1 := List.mem_singleton_self k
  refine ⟨⟨hdot, hbar, hoffer, hpath, hk⟩, rfl, ?_⟩
  rcases accept_reads_iff s qs hdot hbar hoffer hpath hk with
      ⟨members, -, -, hreads⟩ | ⟨items, n, hwalk, -⟩
  · exact hreads.mpr ⟨by decide, by decide⟩
  · cases hwalk

/-- A key that is no identifier, and a key behind two dots: neither filter is a path. -/
theorem accept_not_read :
    (let s := overPaths (.object [("a-b".toList, .int 1)])
     let offer := (s.suggest ".".toList {}).1
     Path.ofText? offer.2.path = some [] ∧ "a-b".toList ∈ offer.1 ∧
      offer.2.accept ".".toList "a-b".toList = ".a-b".toList ∧ Path.ofText? ".a-b".toList = none) ∧
    (let s := overPaths (.object [("a".toList, .int 1)])
     let offer := (s.suggest "..".toList {}).1
     Path.ofText? offer.2.path = some [] ∧ "a".toList ∈ offer.1 ∧
      offer.2.accept "..".toList "a".toList = "..a".toList ∧ Path.ofText? "..a".toList = none) := by
  decide +kernel

end Source

end LiveQuery
