/-
LiveQuery/Proofs/Completion/Dots.lean

At which dot the context of completion splits a segment.

Design.  The scan goes from the right to the left and carries a depth, which may fall below zero.
Whatever the brackets are, the depth is the number of closing brackets behind the place of the scan
less the number of opening ones; with this invariant the scan is a search through the dots outside
brackets, the rightmost first, for one that the hook lets pass (`scanDots_eq_findM?`).  This holds
in every monad, so it also says which texts a hook with effects is asked for, and in which order.
For a hook that only answers, the dot found is the greatest position that may be split at.

Main results: `keyDot?_eq_findM?`, `keyDot?_greatest`.
-/
import Mathlib.Data.List.Basic
import LiveQuery.Completion.Context

namespace LiveQuery

namespace Context

variable {m : Type → Type} [Monad m]

/-! ### Dots outside brackets -/

/-- At the position there is a dot behind which as many brackets are closed as are opened. -/
def IsOuterDot (segment : Text) (i : Nat) : Prop :=
  segment[i]? = some '.' ∧ (segment.drop (i + 1)).count ']' = (segment.drop (i + 1)).count '['

instance (segment : Text) : DecidablePred (IsOuterDot segment) := fun i => by
  unfold IsOuterDot
  infer_instance

/-- The dots outside brackets, from the right to the left. -/
def outerDots (segment : Text) : List Nat :=
  (List.range segment.length).reverse.filter (IsOuterDot segment)

theorem mem_outerDots {segment : Text} {i : Nat} :
    i ∈ outerDots segment ↔ IsOuterDot segment i := by
  rw [outerDots, List.mem_filter, List.mem_reverse, List.mem_range, decide_eq_true_iff,
    and_iff_right_iff_imp]
  exact fun h => (List.getElem?_eq_some_iff.mp h.1).1

theorem pairwise_outerDots (segment : Text) : (outerDots segment).Pairwise (· > ·) :=
  (List.pairwise_reverse.mpr List.pairwise_lt_range).filter _

/-- Between two parts of a segment stands an outer dot if brackets are closed behind it as often as
they are opened. -/
theorem isOuterDot_between (before behind : Text) (c : Char) :
    IsOuterDot (before ++ c :: behind) before.length ↔
      c = '.' ∧ behind.count ']' = behind.count '[' := by
  have hdrop : (before ++ c :: behind).drop (before.length + 1) = behind := by
    rw [← List.drop_drop, List.drop_left]
    rfl
  rw [IsOuterDot, hdrop, List.getElem?_append_right (Nat.le_refl _), Nat.sub_self,
    List.getElem?_cons_zero, Option.some.injEq]

/-! ### The scan -/

/-- Whether the hook lets a segment be split at a position: nothing stands before it, or a text that
the hook accepts. -/
def admits (valid : Text → m Bool) (segment : Text) (i : Nat) : m Bool :=
  if i = 0 then pure true else valid (segment.take i)

/-- The number of closing brackets of a text less that of its opening ones. -/
def surplus (t : Text) : Int := t.count ']' - t.count '['

/-- The surplus with one more character in front, as the scan keeps it. -/
theorem surplus_cons (c : Char) (t : Text) :
    surplus (c :: t) =
      if c = ']' then surplus t + 1 else if c = '[' then surplus t - 1 else surplus t := by
  unfold surplus
  rw [List.count_cons, List.count_cons]
  by_cases hclose : c = ']'
  · subst hclose
    rw [if_pos rfl, if_pos (by decide), if_neg (by decide)]
    omega
  · by_cases hopen : c = '['
    · subst hopen
      rw [if_neg hclose, if_pos rfl, if_neg (by decide), if_pos (by decide)]
      omega
    · rw [if_neg hclose, if_neg hopen, if_neg (by simpa using hclose),
        if_neg (by simpa using hopen)]
      omega

/-- Without anything before it a position is admitted, and the hook is not asked. -/
theorem admits_between (valid : Text → m Bool) (before behind : Text) :
    admits valid (before ++ behind) before.length =
      if before.isEmpty then pure true else valid before := by
  rw [admits, List.take_left]
  cases before with
  | nil => rfl
  | cons d more => rfl

/-- A character that is no outer dot is passed over, and the depth of the scan is then the surplus
with this character. -/
theorem scanDots_cons_of_not {c : Char} {behind : Text}
    (h : ¬(c = '.' ∧ behind.count ']' = behind.count '[')) (valid : Text → m Bool)
    (before : Text) :
    scanDots valid (surplus behind) (c :: before) =
      scanDots valid (surplus (c :: behind)) before := by
  rw [surplus_cons, scanDots]
  by_cases hclose : c = ']'
  · rw [if_pos hclose, if_pos hclose]
  · by_cases hopen : c = '['
    · rw [if_neg hclose, if_neg hclose, if_pos hopen, if_pos hopen]
    · have hdepth : ¬(c = '.' && surplus behind == 0) = true := by
        rw [Bool.and_eq_true, decide_eq_true_iff, beq_iff_eq]
        refine fun hdot => h ⟨hdot.1, ?_⟩
        have hzero : (behind.count ']' : Int) - behind.count '[' = 0 := hdot.2
        omega
      rw [if_neg hclose, if_neg hclose, if_neg hopen, if_neg hopen, if_neg hdepth]

/-- At an outer dot the scan stops if the position is admitted, and goes on otherwise. -/
theorem scanDots_cons_dot [LawfulMonad m] {behind : Text}
    (h : behind.count ']' = behind.count '[') (valid : Text → m Bool) (before : Text) :
    scanDots valid (surplus behind) ('.' :: before) =
      (do
        if ← admits valid (before.reverse ++ '.' :: behind) before.length then
          pure (some before.length)
        else scanDots valid (surplus ('.' :: behind)) before) := by
  have hzero : surplus behind = 0 := by
    unfold surplus
    omega
  have hdepth : ('.' = '.' && surplus behind == 0) = true := by rw [hzero]; rfl
  have hadmits := admits_between valid before.reverse ('.' :: behind)
  rw [List.length_reverse] at hadmits
  rw [surplus_cons, if_neg (by decide), if_neg (by decide), hadmits, scanDots,
    if_neg (by decide), if_neg (by decide), if_pos hdepth]
  rcases before with - | ⟨d, more⟩
  · show (pure (some 0) : m _) = pure true >>= _
    rw [pure_bind]
    rfl
  · rw [List.isEmpty_reverse]
    rfl

/-- **The scan searches the outer dots**, from the right to the left, where its depth is the surplus
of the part of the segment that is behind it. -/
theorem scanDots_eq_findM? [LawfulMonad m] (valid : Text → m Bool) (scanned behind : Text) :
    scanDots valid (surplus behind) scanned =
      ((List.range scanned.length).reverse.filter
        (IsOuterDot (scanned.reverse ++ behind))).findM?
          (admits valid (scanned.reverse ++ behind)) := by
  induction scanned generalizing behind with
  | nil => rfl
  | cons c before ih =>
    have hsegment : (c :: before).reverse ++ behind = before.reverse ++ c :: behind := by
      rw [List.reverse_cons, List.append_assoc, List.singleton_append]
    have hplace := isOuterDot_between before.reverse behind c
    rw [List.length_reverse] at hplace
    rw [hsegment, List.length_cons, List.range_succ, List.reverse_concat]
    by_cases houter : c = '.' ∧ behind.count ']' = behind.count '['
    · obtain ⟨rfl, hcount⟩ := houter
      rw [scanDots_cons_dot hcount, List.filter_cons,
        if_pos (decide_eq_true (hplace.mpr ⟨rfl, hcount⟩)), List.findM?, ih]
      refine bind_congr fun admitted => ?_
      cases admitted with
      | true => rfl
      | false => rfl
    · rw [scanDots_cons_of_not houter, List.filter_cons,
        if_neg (by simpa using mt hplace.mp houter), ih]

/-- **The dot to split at is searched among the outer dots**, the rightmost first, and the hook is
asked for no other text than what stands before one of them. -/
theorem keyDot?_eq_findM? [LawfulMonad m] (valid : Text → m Bool) (segment : Text) :
    keyDot? valid segment = (outerDots segment).findM? (admits valid segment) := by
  have hscan := scanDots_eq_findM? valid segment.reverse []
  rwa [List.length_reverse, List.reverse_reverse, List.append_nil] at hscan

/-! ### Hooks that only answer -/

/-- The segment may be split at a position: there is an outer dot, and nothing before it or a text
that is accepted. -/
structure SplitsAt (accepts : Text → Bool) (segment : Text) (i : Nat) : Prop where
  dot : segment[i]? = some '.'
  closed : (segment.drop (i + 1)).count ']' = (segment.drop (i + 1)).count '['
  left : i = 0 ∨ accepts (segment.take i) = true

theorem splitsAt_iff {accepts : Text → Bool} {segment : Text} {i : Nat} :
    SplitsAt accepts segment i ↔
      i ∈ outerDots segment ∧ Id.run (admits (m := Id) accepts segment i) = true := by
  rw [mem_outerDots]
  have hleft : Id.run (admits (m := Id) accepts segment i) = true ↔
      i = 0 ∨ accepts (segment.take i) = true := by
    unfold admits
    split
    · next hi => exact iff_of_true rfl (.inl hi)
    · next hi => exact (or_iff_right hi).symm
  rw [hleft]
  exact ⟨fun h => ⟨⟨h.dot, h.closed⟩, h.left⟩, fun h => ⟨h.1.1, h.1.2, h.2⟩⟩

/-- **The split is at the greatest position that admits one.**  For every segment, balanced or not,
and every hook that only answers, a position is found if and only if the segment may be split there
and at no greater one, and none is found if and only if it may be split nowhere. -/
theorem keyDot?_greatest (accepts : Text → Bool) (segment : Text) :
    (∀ i, Id.run (keyDot? (m := Id) accepts segment) = some i ↔
      SplitsAt accepts segment i ∧ ∀ j, SplitsAt accepts segment j → j ≤ i) ∧
    (Id.run (keyDot? (m := Id) accepts segment) = none ↔ ∀ i, ¬SplitsAt accepts segment i) := by
  have hfound : Id.run (keyDot? (m := Id) accepts segment) =
      (outerDots segment).find? fun i => Id.run (admits (m := Id) accepts segment i) := by
    rw [keyDot?_eq_findM?]
    exact List.findM?_pure (m := Id) _ _
  rw [hfound]
  constructor
  · intro i
    rw [List.find?_eq_some_iff_append]
    constructor
    · rintro ⟨hadmits, right, left, hdots, hright⟩
      refine ⟨splitsAt_iff.mpr ⟨by simp [hdots], hadmits⟩, fun j hj => ?_⟩
      obtain ⟨hmem, hj⟩ := splitsAt_iff.mp hj
      have hordered := pairwise_outerDots segment
      rw [hdots] at hmem hordered
      rcases List.mem_append.mp hmem with hmem | hmem
      · exact absurd hj (by simpa using hright j hmem)
      · rcases List.mem_cons.mp hmem with rfl | hmem
        · exact Nat.le_refl _
        · exact Nat.le_of_lt (List.rel_of_pairwise_cons (List.pairwise_append.mp hordered).2.1 hmem)
    · rintro ⟨hsplit, hgreatest⟩
      obtain ⟨hmem, hadmits⟩ := splitsAt_iff.mp hsplit
      obtain ⟨right, left, hdots⟩ := List.append_of_mem hmem
      refine ⟨hadmits, right, left, hdots, fun j hj => ?_⟩
      have hordered := pairwise_outerDots segment
      rw [hdots] at hordered
      have hlt : i < j := (List.pairwise_append.mp hordered).2.2 j hj i List.mem_cons_self
      rw [Bool.not_eq_true']
      by_contra hadmitted
      have hsplit : SplitsAt accepts segment j :=
        splitsAt_iff.mpr ⟨by simp [hdots, hj], by simpa using hadmitted⟩
      exact absurd (hgreatest j hsplit) (Nat.not_le.mpr hlt)
  · rw [List.find?_eq_none]
    constructor
    · intro hnone i hsplit
      obtain ⟨hmem, hadmits⟩ := splitsAt_iff.mp hsplit
      exact hnone i hmem hadmits
    · exact fun hnone i hmem hadmits => hnone i (splitsAt_iff.mpr ⟨hmem, hadmits⟩)

end Context

end LiveQuery
