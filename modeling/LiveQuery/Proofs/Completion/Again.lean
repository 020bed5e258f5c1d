/-
LiveQuery/Proofs/Completion/Again.lean

Completing a text in which a key has just been accepted.

The scan for a dot goes through a segment from its end, and all that it remembers of what it has
passed is how deep it stands in brackets.  An identifier or a hint has no dot, and closes each
bracket that it opens; the scan passes over it, and comes in the same depth to what the context has
kept (`scanDots_append`).  That is nothing, or a path that the hook accepts and the dot behind it,
so that it stops there again.

Design.  `Kept valid kept path` says what may be kept of a segment and the path that it names, and
`Chosen k` what is asked of a text that is put behind it.  The segment is found again because
neither of them brings in a bar or a leading blank (`lastSegment_append`).

Main result: `under_accept`.
-/
import LiveQuery.Proofs.Completion.Splits
import LiveQuery.Proofs.Path.Reading

namespace LiveQuery

/-- A text that is put behind what is kept of a segment: it begins with no blank, it has neither a
dot nor a bar, and as many brackets are closed as opened. -/
structure Chosen (k : Text) : Prop where
  begins : ∃ c rest, k = c :: rest ∧ Text.isBlank c = false
  no_dot : '.' ∉ k
  no_bar : '|' ∉ k
  balanced : k.count ']' = k.count '['

namespace Path

/-- No character of an identifier is a blank. -/
theorem isBlank_of_isIdentPart {c : Char} (h : isIdentPart c) : Text.isBlank c = false := by
  have hrange : 48 ≤ c.toNat ∧ c.toNat ≤ 122 := by
    simp only [isIdentPart, isIdentStart, Text.isAsciiDigit, Bool.or_eq_true, Bool.and_eq_true,
      decide_eq_true_eq, Char.le_def, UInt32.le_iff_toNat_le] at h
    rcases h with ((h | h) | rfl) | h
    · change 65 ≤ c.toNat ∧ c.toNat ≤ 90 at h
      omega
    · change 97 ≤ c.toNat ∧ c.toNat ≤ 122 at h
      omega
    · decide
    · change 48 ≤ c.toNat ∧ c.toNat ≤ 57 at h
      omega
  have hapart : ∀ r ∈ Text.spaceRanges ++ [(0x1C, 0x1F)], r.2 < 48 ∨ 122 < r.1 := by decide
  have hnone (r : Nat × Nat) (hr : r ∈ Text.spaceRanges ++ [(0x1C, 0x1F)]) :
      ¬(r.1 ≤ c.toNat ∧ c.toNat ≤ r.2) := by
    have := hapart r hr
    omega
  simpa [Text.isBlank, Text.isSpace, Ranges.has, Text.spaceRanges, and_assoc] using hnone

theorem not_mem_of_identifier {k : Text} (hk : isIdentifier k) {c : Char}
    (hc : isIdentPart c = false) : c ∉ k := by
  intro hmem
  have hall : ∀ d ∈ k, isIdentPart d := by
    cases k with
    | nil => simp
    | cons d rest =>
      rw [isIdentifier, Bool.and_eq_true] at hk
      rintro e (_ | ⟨_, he⟩)
      · simp [isIdentPart, hk.1]
      · exact List.all_eq_true.mp hk.2 e he
  simp [hall c hmem] at hc

end Path

namespace Chosen

theorem identifier {k : Text} (hk : Path.isIdentifier k) : Chosen k where
  begins := by
    cases k with
    | nil => cases hk
    | cons c rest =>
      refine ⟨c, rest, rfl, Path.isBlank_of_isIdentPart ?_⟩
      rw [Path.isIdentifier, Bool.and_eq_true] at hk
      simp [Path.isIdentPart, hk.1]
  no_dot := Path.not_mem_of_identifier hk (by decide)
  no_bar := Path.not_mem_of_identifier hk (by decide)
  balanced := by
    rw [List.count_eq_zero_of_not_mem (Path.not_mem_of_identifier hk (by decide)),
      List.count_eq_zero_of_not_mem (Path.not_mem_of_identifier hk (by decide))]

theorem indexHint (n : Nat) : Chosen (Value.indexHint n) := by
  -- between the brackets there are digits only
  have hdigits {c : Char} (hc : Text.isDigit c = false) : c ∉ Text.ofNat n := fun hmem => by
    simp [Text.isDigit_ofNat n c hmem] at hc
  exact
    { begins := ⟨'[', _, rfl, by decide⟩
      no_dot := by simp [Value.indexHint, hdigits (c := '.') (by decide)]
      no_bar := by simp [Value.indexHint, hdigits (c := '|') (by decide)]
      balanced := by
        simp [Value.indexHint, List.count_append,
          List.count_eq_zero_of_not_mem (hdigits (c := ']') (by decide)),
          List.count_eq_zero_of_not_mem (hdigits (c := '[') (by decide))] }

end Chosen

/-! ### The segment -/

namespace Text

theorem splitLast_append {c : Char} {after : Text} (h : c ∉ after) (before : Text) :
    (before ++ c :: after).splitLast c = some (before, after) := by
  induction before with
  | nil => rw [List.nil_append, splitLast, splitLast_of_not_mem h, if_pos rfl]
  | cons d before ih => rw [List.cons_append, splitLast, ih]

theorem trimLeft_append {blanks t : Text} (hblanks : ∀ b ∈ blanks, isBlank b)
    (ht : ∀ c ∈ t.head?, isBlank c = false) : trimLeft (blanks ++ t) = t := by
  rw [trimLeft, List.dropWhile_append_of_pos hblanks]
  cases t with
  | nil => rfl
  | cons c t => exact List.dropWhile_cons_of_neg (by simpa using ht c rfl)

end Text

namespace Context

/-- A lead of a segment: nothing, or a bar and blanks behind it. -/
def IsLead (lead : Text) : Prop :=
  lead = [] ∨ ∃ before blanks, lead = before ++ '|' :: blanks ∧ ∀ b ∈ blanks, Text.isBlank b

/-- A segment that follows a bar begins with no blank. -/
theorem lastSegment_head (text : Text) :
    (lastSegment text).2 = 0 ∨ ∀ c ∈ (lastSegment text).1.head?, Text.isBlank c = false := by
  rw [lastSegment]
  rcases text.splitLast '|' with - | ⟨before, tail⟩
  · exact .inl rfl
  · refine .inr fun c hc => ?_
    have hhead : (tail.dropWhile Text.isBlank).head? = some c := hc
    have hnot := List.head?_dropWhile_not Text.isBlank tail
    rwa [hhead] at hnot

/-- **The segment is found again** behind a lead, where no bar is in it and it begins with no blank
behind one. -/
theorem lastSegment_append {lead segment : Text} (hlead : IsLead lead) (hbar : '|' ∉ segment)
    (hhead : lead = [] ∨ ∀ c ∈ segment.head?, Text.isBlank c = false) :
    lastSegment (lead ++ segment) = (segment, lead.length) := by
  rcases hlead with rfl | ⟨before, blanks, rfl, hblanks⟩
  · rw [List.nil_append, lastSegment, Text.splitLast_of_not_mem hbar]
    rfl
  · have hnone : '|' ∉ blanks ++ segment := by
      rw [List.mem_append, not_or]
      exact ⟨fun hmem => absurd (hblanks _ hmem) (by decide), hbar⟩
    have htrim : Text.trimLeft (blanks ++ segment) = segment :=
      Text.trimLeft_append hblanks (hhead.resolve_left (by simp))
    have hlength : before.length + 1 + ((blanks ++ segment).length - segment.length) =
        (before ++ '|' :: blanks).length := by
      simp only [List.length_append, List.length_cons]
      omega
    rw [List.append_assoc, List.cons_append, lastSegment, Text.splitLast_append hnone before]
    simp only [htrim]
    rw [hlength]

/-! ### The dot -/

/-- The scan passes over a text without a dot, and minds its brackets only. -/
theorem scanDots_append {m : Type → Type} [Monad m] (valid : Text → m Bool) {scanned : Text}
    (h : '.' ∉ scanned) (depth : Int) (before : Text) :
    scanDots valid depth (scanned ++ before) =
      scanDots valid (depth + scanned.count ']' - scanned.count '[') before := by
  induction scanned generalizing depth with
  | nil => simp
  | cons c scanned ih =>
    rw [List.mem_cons, not_or] at h
    rw [List.cons_append, scanDots]
    by_cases hclose : c = ']'
    · subst hclose
      rw [if_pos rfl, ih h.2]
      congr 1
      simp
      omega
    · by_cases hopen : c = '['
      · subst hopen
        rw [if_neg hclose, if_pos rfl, ih h.2]
        congr 1
        simp
        omega
      · rw [if_neg hclose, if_neg hopen, if_neg (by simp [Ne.symm h.1]), ih h.2]
        simp [hclose, hopen]

/-- What may be kept of a segment, with the path that it names: nothing at the root, or a path that
the hook accepts, or none, and the dot behind it. -/
inductive Kept (valid : Text → Bool) : Text → Text → Prop
  | nothing : Kept valid [] rootPath
  | dotted {path : Text} (h : path = [] ∨ valid path = true) :
      Kept valid (path ++ ['.']) (if path.isEmpty then rootPath else path)

variable {valid : Text → Bool} {kept path k : Text}

/-- A hook that keeps nothing may be taken for one that keeps a state. -/
theorem scanDots_pure (valid : Text → Bool) (depth : Int) (scanned : Text) (st : Unit) :
    scanDots (m := StateM Unit) (fun t => pure (valid t)) depth scanned st =
      (Id.run (scanDots (m := Id) valid depth scanned), st) := by
  induction scanned generalizing depth with
  | nil => rfl
  | cons c before ih =>
    unfold scanDots
    split
    · exact ih (depth + 1)
    · split
      · exact ih (depth - 1)
      · split
        · split
          · rfl
          · show (if valid before.reverse then _ else _ : StateM Unit (Option Nat)) st =
              (Id.run (if valid before.reverse then _ else _), st)
            rcases valid before.reverse with - | -
            · exact ih depth
            · rfl
        · exact ih depth

/-- **What a context keeps of its segment**, and the rest, which is the part of a key. -/
theorem ofSegment_kept (valid : Text → Bool) (segment : Text) (offset : Nat) :
    ∃ kept path rest, Kept valid kept path ∧ segment = kept ++ rest ∧
      ofSegment segment offset (Id.run (keyDot? (m := Id) valid segment)) =
        ⟨path, rest, offset + kept.length⟩ := by
  have hpure := scanDots_pure valid 0 segment.reverse ()
  change keyDot? (m := StateM Unit) (fun t => pure (valid t)) segment () =
    (Id.run (keyDot? (m := Id) valid segment), ()) at hpure
  rcases hdot : Id.run (keyDot? (m := Id) valid segment) with - | dot
  · cases segment with
    | nil => exact ⟨[], rootPath, [], .nothing, rfl, rfl⟩
    | cons c rest =>
      by_cases hc : c = '.'
      · subst hc
        exact ⟨['.'], rootPath, rest, .dotted (.inl rfl), rfl, rfl⟩
      · exact ⟨[], rootPath, c :: rest, .nothing, rfl, by simp [ofSegment, hc]⟩
  · rw [hdot] at hpure
    obtain ⟨path, rest, rfl, rfl, haccepted⟩ := keyDot?_some hpure
    have hvalid : path = [] ∨ valid path = true := by
      rcases haccepted with hroot | ⟨asked, h⟩
      · exact .inl hroot
      · exact .inr (congrArg Prod.fst h)
    refine ⟨path ++ ['.'], _, rest, .dotted hvalid, by simp, ?_⟩
    rw [ofSegment_some, List.length_append]
    rfl

/-- **The segment is split where it was** when a chosen text is put behind what was kept. -/
theorem ofSegment_chosen (hkept : Kept valid kept path) (hk : Chosen k) (offset : Nat) :
    ofSegment (kept ++ k) offset (Id.run (keyDot? (m := Id) valid (kept ++ k))) =
      ⟨path, k, offset + kept.length⟩ := by
  have hscan : keyDot? (m := Id) valid (kept ++ k) = scanDots (m := Id) valid 0 kept.reverse := by
    have hreverse : '.' ∉ k.reverse := fun h => hk.no_dot (List.mem_reverse.mp h)
    rw [keyDot?, List.reverse_append, scanDots_append (m := Id) valid hreverse]
    simp [hk.balanced]
  rw [hscan]
  cases hkept with
  | nothing =>
    -- without a dot, all of the chosen text is the part of a key
    obtain ⟨c, rest, rfl, -⟩ := hk.begins
    have hc : c ≠ '.' := fun h => hk.no_dot (h ▸ List.mem_cons_self)
    show ofSegment (c :: rest) offset none = _
    simp [ofSegment, hc]
  | @dotted path h =>
    have hfound : Id.run (scanDots (m := Id) valid 0 (path ++ ['.']).reverse) =
        some path.length := by
      rw [List.reverse_append, List.reverse_singleton, List.singleton_append]
      show (if path.reverse.isEmpty then some 0
        else if valid path.reverse.reverse then some path.reverse.length else _) = _
      rw [List.reverse_reverse, List.length_reverse, List.isEmpty_reverse]
      rcases h with rfl | hvalid
      · rfl
      · rw [if_pos hvalid]
        cases path <;> rfl
    rw [hfound, List.append_assoc, List.length_append]
    exact ofSegment_some path k offset

/-! ### Accepting again -/

/-- The context of a text, where the hook keeps nothing. -/
def under (valid : Text → Bool) (text : Text) : Context := Id.run (ofText (m := Id) valid text)

theorem under_eq (valid : Text → Bool) (text : Text) :
    under valid text = ofSegment (lastSegment text).1 (lastSegment text).2
      (Id.run (keyDot? (m := Id) valid (lastSegment text).1)) := rfl

/-- **Accepting a key keeps the context.**  Whatever the hook accepts, a filter into which an
identifier or the hint for an item has been put has the path and the start of before, and what was
put in is the part of a key that is typed; so to accept it again changes nothing. -/
theorem under_accept (valid : Text → Bool) (text k : Text)
    (hk : Path.isIdentifier k ∨ ∃ n, k = Value.indexHint n) :
    let c := under valid text
    let accepted := c.accept text k
    let c' := under valid accepted
    c'.path = c.path ∧ c'.start = c.start ∧ c'.incomplete = k ∧
      c'.accept accepted k = accepted := by
  intro c accepted c'
  have hchosen : Chosen k := hk.elim .identifier fun ⟨n, hn⟩ => hn ▸ .indexHint n
  obtain ⟨lead, segment, hsegment, htext, hbar, hlead⟩ := lastSegment_eq text
  obtain ⟨kept, path, rest, hkept, rfl, hsplit⟩ := ofSegment_kept valid segment lead.length
  have hc : c = ⟨path, rest, lead.length + kept.length⟩ := by
    show under valid text = _
    rw [under_eq, hsegment]
    exact hsplit
  -- what is kept stays behind its lead, and the chosen text comes behind it
  have haccepted : accepted = lead ++ (kept ++ k) := by
    show text.take c.start ++ k = _
    rw [hc, htext, ← List.append_assoc, List.take_left' List.length_append, List.append_assoc]
  have hfound : lastSegment accepted = (kept ++ k, lead.length) := by
    rw [haccepted]
    refine lastSegment_append hlead ?_ ?_
    · rw [List.mem_append, not_or] at hbar ⊢
      exact ⟨hbar.1, hchosen.no_bar⟩
    · have hhead := lastSegment_head text
      rw [hsegment] at hhead
      refine hhead.imp List.eq_nil_of_length_eq_zero fun hhead d hd => ?_
      cases kept with
      | nil =>
        obtain ⟨e, more, rfl, he⟩ := hchosen.begins
        cases hd
        exact he
      | cons e kept => exact hhead d hd
  have hc' : c' = ⟨path, k, lead.length + kept.length⟩ := by
    show under valid accepted = _
    rw [under_eq, hfound]
    exact ofSegment_chosen hkept hchosen lead.length
  rw [hc', hc]
  refine ⟨rfl, rfl, rfl, ?_⟩
  show accepted.take (lead.length + kept.length) ++ k = accepted
  rw [haccepted, ← List.append_assoc, List.take_left' List.length_append]

/-- A hint takes the place of a typed part with a dot whose left side is no filter. -/
theorem under_accept_hint :
    let valid (t : Text) : Bool := t = ".a".toList
    let text := "keys | .a.x.y".toList
    let k := "[3]".toList
    let accepted := "keys | .a.[3]".toList
    (∃ n, k = Value.indexHint n) ∧ under valid text = ⟨".a".toList, "x.y".toList, 10⟩ ∧
    (under valid accepted).path = ".a".toList ∧ (under valid accepted).start = 10 ∧
    (under valid accepted).incomplete = k ∧
    (under valid accepted).accept accepted k = accepted := by
  intro valid text k accepted
  have hk : ∃ n, k = Value.indexHint n := ⟨3, by decide⟩
  have htext : under valid text = ⟨".a".toList, "x.y".toList, 10⟩ := by decide +kernel
  have haccepted : (under valid text).accept text k = accepted := by
    rw [htext]
    rfl
  obtain ⟨hpath, hstart, hincomplete, hagain⟩ := under_accept valid text k (.inr hk)
  rw [haccepted] at hpath hstart hincomplete hagain
  rw [htext] at hpath hstart
  exact ⟨hk, htext, hpath, hstart, hincomplete, hagain⟩

end Context

end LiveQuery
