/-
LiveQuery/Proofs/Completion/Splits.lean

How the context of completion splits a text.

Design.  A text is taken apart in two steps, and each is stated as an equation of lists: first the
segment behind the rightmost bar (`lastSegment_eq`), then the part of the segment that is kept and
the part of a key that is typed (`ofSegment_eq`).  Positions are lengths of the parts before them.
The hook may keep a state of its own, so that what it has accepted is told together with the state
in which it was asked.

Main result: `ofText_splits`.
-/
import Mathlib.Data.List.TakeWhile
import LiveQuery.Completion.Context

namespace LiveQuery

namespace Text

theorem splitLast_of_not_mem {c : Char} {t : Text} (h : c ∉ t) : t.splitLast c = none := by
  induction t with
  | nil => rfl
  | cons d rest ih =>
    rw [List.mem_cons, not_or] at h
    rw [splitLast, ih h.2]
    exact if_neg (Ne.symm h.1)

/-- A text without a rightmost `c` has none at all. -/
theorem not_mem_of_splitLast {c : Char} {t : Text} (h : t.splitLast c = none) : c ∉ t := by
  induction t with
  | nil => exact List.not_mem_nil
  | cons d rest ih =>
    rw [splitLast] at h
    rcases hrest : splitLast c rest with - | ⟨before, after⟩
    · rw [hrest] at h
      rw [List.mem_cons, not_or]
      refine ⟨?_, ih hrest⟩
      rintro rfl
      simp at h
    · rw [hrest] at h
      cases h

/-- The rightmost `c` stands between the two parts, and the second one has no `c`. -/
theorem splitLast_some {c : Char} {t before after : Text}
    (h : t.splitLast c = some (before, after)) : t = before ++ c :: after ∧ c ∉ after := by
  induction t generalizing before with
  | nil => cases h
  | cons d rest ih =>
    rw [splitLast] at h
    rcases hrest : splitLast c rest with - | ⟨before', after'⟩
    · rw [hrest] at h
      by_cases hd : d = c
      · simp only [if_pos hd, Option.some.injEq, Prod.mk.injEq] at h
        obtain ⟨rfl, rfl⟩ := h
        exact ⟨by rw [hd, List.nil_append], not_mem_of_splitLast hrest⟩
      · simp [hd] at h
    · rw [hrest] at h
      simp only [Option.some.injEq, Prod.mk.injEq] at h
      obtain ⟨rfl, rfl⟩ := h
      obtain ⟨rfl, hafter⟩ := ih hrest
      exact ⟨rfl, hafter⟩

end Text

namespace Context

variable {σ : Type} {valid : Text → StateM σ Bool} {st st' : σ}

/-! ### The dot -/

/-- The scan goes through a text from its end.  It stops at a dot, and its answer counts the
characters that come before the dot in the text: none, or a filter. -/
theorem scanDots_some {depth : Int} {scanned : Text} {dot : Nat}
    (h : scanDots valid depth scanned st = (some dot, st')) :
    ∃ after before, scanned = after ++ '.' :: before ∧ before.length = dot ∧
      (before = [] ∨ ∃ asked, valid before.reverse asked = (true, st')) := by
  induction scanned generalizing depth st with
  | nil => cases h
  | cons c before ih =>
    -- a character that is passed over comes behind the dot
    have hgoOn {depth : Int} {st : σ} (h : scanDots valid depth before st = (some dot, st')) :
        ∃ after before', c :: before = after ++ '.' :: before' ∧ before'.length = dot ∧
          (before' = [] ∨ ∃ asked, valid before'.reverse asked = (true, st')) := by
      obtain ⟨after, before', rfl, hrest⟩ := ih h
      exact ⟨c :: after, before', rfl, hrest⟩
    unfold scanDots at h
    split at h
    · exact hgoOn h
    · split at h
      · exact hgoOn h
      · split at h
        · next hdot =>
          obtain ⟨rfl, -⟩ : c = '.' ∧ depth = 0 := by simpa using hdot
          split at h
          · next hempty =>
            obtain rfl := List.isEmpty_iff.mp hempty
            obtain ⟨hlength, -⟩ := Prod.mk.inj h
            exact ⟨[], [], rfl, Option.some.inj hlength, .inl rfl⟩
          · -- the scan stops here only if what comes before the dot is a filter
            change (if (valid before.reverse st).1 then _ else _ : StateM σ (Option Nat))
              (valid before.reverse st).2 = _ at h
            split at h
            · next hvalid =>
              obtain ⟨hlength, hst⟩ := Prod.mk.inj h
              refine ⟨[], before, rfl, Option.some.inj hlength, .inr ⟨st, ?_⟩⟩
              exact Prod.ext hvalid hst
            · exact hgoOn h
        · exact hgoOn h

/-- The split is at a dot of the segment, with nothing or a filter before it. -/
theorem keyDot?_some {segment : Text} {dot : Nat}
    (h : keyDot? valid segment st = (some dot, st')) :
    ∃ path rest, segment = path ++ '.' :: rest ∧ path.length = dot ∧
      (path = [] ∨ ∃ asked, valid path asked = (true, st')) := by
  obtain ⟨after, before, hscanned, hlength, haccepted⟩ := scanDots_some h
  refine ⟨before.reverse, after.reverse, ?_, by rw [List.length_reverse, hlength], ?_⟩
  · rw [← List.reverse_reverse segment, hscanned]
    simp
  · rwa [List.reverse_eq_nil_iff]

/-! ### The parts of a text -/

/-- Before the last segment there is nothing, or a bar and blanks behind it. -/
theorem lastSegment_eq (text : Text) :
    ∃ lead segment, lastSegment text = (segment, lead.length) ∧ text = lead ++ segment ∧
      '|' ∉ segment ∧
      (lead = [] ∨ ∃ before blanks, lead = before ++ '|' :: blanks ∧
        ∀ b ∈ blanks, Text.isBlank b) := by
  rcases hbar : text.splitLast '|' with - | ⟨before, tail⟩
  · refine ⟨[], text, ?_, rfl, Text.not_mem_of_splitLast hbar, .inl rfl⟩
    rw [lastSegment, hbar]
    rfl
  · obtain ⟨rfl, htail⟩ := Text.splitLast_some hbar
    have hparts : tail.takeWhile Text.isBlank ++ Text.trimLeft tail = tail :=
      List.takeWhile_append_dropWhile
    refine ⟨before ++ '|' :: tail.takeWhile Text.isBlank, Text.trimLeft tail, ?_, ?_, ?_,
      .inr ⟨before, _, rfl, fun b => List.mem_takeWhile_imp⟩⟩
    · have hlength := congrArg List.length hparts
      rw [lastSegment, hbar]
      simp only [List.length_append, List.length_cons, Prod.mk.injEq, true_and] at hlength ⊢
      omega
    · rw [List.append_assoc, List.cons_append, hparts]
    · exact fun hmem => htail ((List.dropWhile_sublist _).mem hmem)

/-- Without a dot to split at, only a dot at the beginning is kept. -/
theorem ofSegment_none (segment : Text) (offset : Nat) :
    ∃ kept rest, segment = kept ++ rest ∧
      ofSegment segment offset none = ⟨rootPath, rest, offset + kept.length⟩ := by
  rcases segment with - | ⟨c, rest⟩
  · exact ⟨[], [], rfl, rfl⟩
  · by_cases hc : c = '.'
    · subst hc
      exact ⟨['.'], rest, rfl, rfl⟩
    · exact ⟨[], c :: rest, rfl, by simp [ofSegment, hc]⟩

/-- At a dot to split at, the path and the dot are kept. -/
theorem ofSegment_some (path rest : Text) (offset : Nat) :
    ofSegment (path ++ '.' :: rest) offset (some path.length) =
      ⟨if path.isEmpty then rootPath else path, rest, offset + path.length + 1⟩ := by
  have hdrop : (path ++ '.' :: rest).drop (path.length + 1) = rest := by
    rw [← List.drop_drop, List.drop_left]
    rfl
  rw [ofSegment, List.take_left, hdrop]

/-- Behind what is kept of the last segment there is no bar. -/
theorem splits_behind (lead : Text) {kept rest : Text} (hbar : '|' ∉ kept ++ rest) :
    lead.length + kept.length ≤ (lead ++ (kept ++ rest)).length ∧
    (lead ++ (kept ++ rest)).take (lead.length + kept.length) ++ rest = lead ++ (kept ++ rest) ∧
    ∀ i, (lead ++ (kept ++ rest))[i]? = some '|' → i < lead.length + kept.length := by
  refine ⟨by simp, ?_, ?_⟩
  · rw [← List.append_assoc, List.take_left' List.length_append]
  · intro i hi
    have hlt : i < lead.length := by
      by_contra hge
      rw [List.getElem?_append_right (Nat.le_of_not_lt hge)] at hi
      exact hbar (List.mem_of_getElem? hi)
    exact Nat.lt_add_right _ hlt

/-- **The context splits the text.**  Whatever the hook answers and keeps, the text is what stands
before the start of the context and the part of a key that is typed, and every bar stands before the
start.  The path is that of the root, or a text without a bar that the hook has accepted: behind it
come the dot before the start and the part of a key, and before it nothing, or blanks behind the
rightmost bar. -/
theorem ofText_splits (valid : Text → StateM σ Bool) (text : Text) (st : σ) :
    let c := (ofText valid text st).1
    c.start ≤ text.length ∧
    text.take c.start ++ c.incomplete = text ∧
    (∀ i, text[i]? = some '|' → i < c.start) ∧
    (c.path = rootPath ∨
      c.path ≠ [] ∧ '|' ∉ c.path ∧
      (∃ asked, valid c.path asked = (true, (ofText valid text st).2)) ∧
      ∃ lead, text = lead ++ c.path ++ '.' :: c.incomplete ∧
        (lead ++ c.path).length + 1 = c.start ∧
        (lead = [] ∨ ∃ before blanks, lead = before ++ '|' :: blanks ∧
          ∀ b ∈ blanks, Text.isBlank b)) := by
  obtain ⟨lead, segment, hsegment, rfl, hbar, hlead⟩ := lastSegment_eq text
  rcases hfound : keyDot? valid segment st with ⟨dot?, st'⟩
  have hcontext : ofText valid (lead ++ segment) st =
      (ofSegment segment lead.length dot?, st') := by
    show (ofSegment (lastSegment (lead ++ segment)).1 (lastSegment (lead ++ segment)).2
        (keyDot? valid (lastSegment (lead ++ segment)).1 st).1,
      (keyDot? valid (lastSegment (lead ++ segment)).1 st).2) = _
    rw [hsegment, hfound]
  rw [hcontext]
  intro c
  rcases dot? with - | dot
  · obtain ⟨kept, rest, rfl, hc⟩ := ofSegment_none segment lead.length
    obtain ⟨hle, htake, hbars⟩ := splits_behind lead hbar
    rw [show c = _ from hc]
    exact ⟨hle, htake, hbars, .inl rfl⟩
  · obtain ⟨path, rest, rfl, rfl, haccepted⟩ := keyDot?_some hfound
    have hbar' : '|' ∉ (path ++ ['.']) ++ rest := by
      rwa [List.append_assoc]
    obtain ⟨hle, htake, hbars⟩ := splits_behind lead hbar'
    rw [List.append_assoc path, List.length_append] at hle htake hbars
    rw [show c = _ from ofSegment_some path rest lead.length]
    refine ⟨hle, htake, hbars, ?_⟩
    by_cases hempty : path = []
    · subst hempty
      exact .inl rfl
    · have hpath : (if path.isEmpty then rootPath else path) = path :=
        if_neg fun h => hempty (List.isEmpty_iff.mp h)
      dsimp only
      rw [hpath]
      refine .inr ⟨hempty, fun hmem => hbar (List.mem_append_left _ hmem),
        haccepted.resolve_left hempty, lead, (List.append_assoc ..).symm, ?_, hlead⟩
      rw [List.length_append]

end Context

end LiveQuery
