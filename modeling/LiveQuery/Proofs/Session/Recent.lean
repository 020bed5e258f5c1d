/-
LiveQuery/Proofs/Session/Recent.lean

What has been kept of the filters that were committed one after the other.

Design.  A filter that is committed again is taken out of its place and put in front, so that the
list without a limit holds each filter at its last commit (`dedup_concat`).  The limit cuts it
after every commit; since what a commit takes out stands behind the cut or leaves its place to what
follows, cutting once at the end comes to the same (`take_erase_take`).  A limit below zero cuts
from the end, but there is never more than the new filter to cut (`items_add`).

The order is said once more without any list operation: one text comes before another where it has
been added since the other one was added last (`ByLatest`), and this leaves one list only.

Main results: `Recent.items_addAll`, `Recent.items_latest`.
-/
import Mathlib.Data.List.Dedup
import Mathlib.Data.List.Induction
import LiveQuery.Session.Recent

namespace LiveQuery

section

variable {α : Type} [DecidableEq α] [BEq α] [LawfulBEq α]

/-- An item that is added anew moves to the end. -/
theorem dedup_concat (l : List α) (a : α) : (l ++ [a]).dedup = l.dedup.erase a ++ [a] := by
  induction l with
  | nil => simp
  | cons b rest ih =>
    by_cases hb : b ∈ rest
    · rw [List.cons_append, List.dedup_cons_of_mem (List.mem_append_left _ hb),
        List.dedup_cons_of_mem hb, ih]
    · rw [List.dedup_cons_of_notMem hb, List.cons_append]
      by_cases hba : b = a
      · subst hba
        have hrest : b ∉ rest.dedup := fun h => hb (List.mem_dedup.mp h)
        rw [List.dedup_cons_of_mem (by simp), ih, List.erase_cons_head,
          List.erase_of_not_mem hrest]
      · rw [List.dedup_cons_of_notMem (by simp [hb, hba]), ih,
          List.erase_cons_tail (by simpa using hba), List.cons_append]

omit [DecidableEq α] in
/-- What is cut off already is not missed when an item has been taken out. -/
theorem take_erase_take (n : Nat) (a : α) (l : List α) :
    ((l.take (n + 1)).erase a).take n = (l.erase a).take n := by
  induction l generalizing n with
  | nil => simp
  | cons b rest ih =>
    rw [List.take_succ_cons]
    by_cases hb : b = a
    · subst hb
      rw [List.erase_cons_head, List.erase_cons_head, List.take_take, Nat.min_self]
    · have hne : ¬(b == a) = true := by simpa using hb
      rw [List.erase_cons_tail hne, List.erase_cons_tail hne]
      cases n with
      | zero => rfl
      | succ n => rw [List.take_succ_cons, List.take_succ_cons, ih]

end

namespace Recent

/-- The recent filters after some have been committed one after the other. -/
def addAll (r : Recent) (ts : List Text) : Recent := ts.foldl add r

theorem addAll_concat (r : Recent) (ts : List Text) (t : Text) :
    r.addAll (ts ++ [t]) = (r.addAll ts).add t := by
  rw [addAll, List.foldl_append]
  rfl

theorem limit_addAll (r : Recent) (ts : List Text) : (r.addAll ts).limit = r.limit := by
  induction ts generalizing r with
  | nil => rfl
  | cons t rest ih => exact (ih (r.add t)).trans (limit_add r t)

/-- Where no more is kept than the limit allows, a limit below zero is as good as none at all. -/
theorem items_add {r : Recent} (hlength : r.items.length ≤ r.limit.toNat) {t : Text} (ht : t ≠ []) :
    (r.add t).items = (t :: r.items.erase t).take r.limit.toNat := by
  rw [add, if_neg (by simpa using ht)]
  rcases Int.lt_or_le r.limit 0 with hlimit | hlimit
  · have hzero : r.limit.toNat = 0 := Int.toNat_of_nonpos (Int.le_of_lt hlimit)
    have hitems : r.items = [] := List.eq_nil_of_length_eq_zero (by omega)
    -- the new filter alone is cut at its own place or before it
    have hcut : (([t].length : Int) + r.limit).toNat = 0 := by
      rw [List.length_singleton]
      omega
    show inFront r.limit _ = _
    rw [hitems, List.erase_nil, inFront, if_pos hlimit, hcut, hzero]
  · exact inFront_of_nonneg hlimit _

/-- **The recent filters** are those that were committed, each of them at its last commit, the most
recent one first, as many as the limit allows. -/
theorem items_addAll (limit : Int) {ts : List Text} (h : ∀ t ∈ ts, t ≠ []) :
    (addAll { limit } ts).items = ts.dedup.reverse.take limit.toNat := by
  induction ts using List.reverseRecOn with
  | nil => simp [addAll]
  | append_singleton ts t ih =>
    have ht : t ≠ [] := h t (by simp)
    have hitems := ih fun t ht => h t (List.mem_append_left _ ht)
    have hlength : (addAll { limit } ts).items.length ≤ (addAll { limit } ts).limit.toNat := by
      rw [hitems, limit_addAll]
      exact List.length_take_le _ _
    have hadd : (addAll { limit } (ts ++ [t])).items =
        (t :: (ts.dedup.reverse.take limit.toNat).erase t).take limit.toNat := by
      rw [addAll_concat, items_add hlength ht, limit_addAll, hitems]
    have herase : (ts.dedup.erase t).reverse = ts.dedup.reverse.erase t := by
      have hnodup := List.nodup_dedup ts
      rw [hnodup.erase_eq_filter, (List.nodup_reverse.mpr hnodup).erase_eq_filter,
        List.filter_reverse]
    rw [hadd, dedup_concat, List.reverse_append, herase]
    cases limit.toNat with
    | zero => rfl
    | succ n =>
      rw [List.take_succ_cons, take_erase_take]
      rfl

example :
    (addAll { limit := 2 } [['.'], ['.', 'a'], ['.', 'b'], ['.', 'a']]).items =
      [['.', 'a'], ['.', 'b']] := by decide

/-! ### The order of the latest additions -/

/-- A text is not empty. -/
def isKept (t : Text) : Bool := !t.isEmpty

theorem isKept_iff {t : Text} : isKept t ↔ t ≠ [] := by
  simp [isKept]

/-- Empty texts leave no trace. -/
theorem addAll_filter (r : Recent) (ts : List Text) :
    r.addAll (ts.filter isKept) = r.addAll ts := by
  induction ts generalizing r with
  | nil => rfl
  | cons t rest ih =>
    by_cases ht : isKept t
    · rw [List.filter_cons_of_pos ht]
      exact ih (r.add t)
    · have hempty : t.isEmpty = true := by simpa [isKept] using ht
      have hadd : r.add t = r := by rw [add, if_pos hempty]
      rw [List.filter_cons_of_neg ht]
      show _ = (r.add t).addAll rest
      rw [hadd, ih]

/-- The text `a` has been added since `b`, another one, was added last. -/
def AddedSince (ts : List Text) (a b : Text) : Prop :=
  ∃ earlier later, ts = earlier ++ a :: later ∧ b ∉ a :: later

theorem AddedSince.cons {ts : List Text} {a b : Text} (t : Text) (h : AddedSince ts a b) :
    AddedSince (t :: ts) a b := by
  obtain ⟨earlier, later, rfl, hb⟩ := h
  exact ⟨t :: earlier, later, rfl, hb⟩

/-- Of two texts only one has been added since the other. -/
theorem AddedSince.asymm {ts : List Text} {a b : Text} (hab : AddedSince ts a b) :
    ¬AddedSince ts b a := by
  rintro ⟨earlier', later', heq, ha⟩
  obtain ⟨earlier, later, rfl, hb⟩ := hab
  rcases List.append_eq_append_iff.mp heq with ⟨between, -, hbehind⟩ | ⟨between, -, hbehind⟩
  · exact hb (hbehind ▸ List.mem_append_right _ List.mem_cons_self)
  · exact ha (hbehind ▸ List.mem_append_right _ List.mem_cons_self)

/-- A list of the texts that have been added and are not empty, each of them once, in the order of
their latest addition, the most recent one first. -/
structure ByLatest (ts l : List Text) : Prop where
  mem_iff : ∀ t, t ∈ l ↔ t ∈ ts ∧ t ≠ []
  nodup : l.Nodup
  ordered : l.Pairwise (AddedSince ts)

/-- There is only one list by the latest addition. -/
theorem ByLatest.unique {ts l l' : List Text} (h : ByLatest ts l) (h' : ByLatest ts l') :
    l = l' := by
  have hperm : l.Perm l' :=
    (List.perm_ext_iff_of_nodup h.nodup h'.nodup).mpr fun t =>
      (h.mem_iff t).trans (h'.mem_iff t).symm
  exact hperm.eq_of_pairwise (fun a b _ _ hab hba => absurd hba hab.asymm) h.ordered h'.ordered

/-- Later texts stand behind earlier ones where each is kept at its last place. -/
theorem pairwise_dedup_filter (ts : List Text) :
    (ts.filter isKept).dedup.Pairwise fun b a => AddedSince ts a b := by
  induction ts with
  | nil => exact .nil
  | cons t rest ih =>
    have hrest := ih.imp fun h => AddedSince.cons t h
    by_cases ht : isKept t
    · rw [List.filter_cons_of_pos ht]
      by_cases hmem : t ∈ rest.filter isKept
      · rwa [List.dedup_cons_of_mem hmem]
      · rw [List.dedup_cons_of_notMem hmem, List.pairwise_cons]
        refine ⟨fun a ha => ?_, hrest⟩
        have hlast : t ∉ rest := fun h => hmem (List.mem_filter.mpr ⟨h, ht⟩)
        obtain ⟨earlier, later, rfl⟩ :=
          List.append_of_mem (List.mem_filter.mp (List.mem_dedup.mp ha)).1
        exact ⟨t :: earlier, later, rfl, fun h => hlast (List.mem_append_right _ h)⟩
    · rwa [List.filter_cons_of_neg ht]

theorem byLatest_dedup_filter (ts : List Text) :
    ByLatest ts (ts.filter isKept).dedup.reverse where
  mem_iff t := by
    rw [List.mem_reverse, List.mem_dedup, List.mem_filter, isKept_iff]
  nodup := List.nodup_reverse.mpr (List.nodup_dedup _)
  ordered := List.pairwise_reverse.mpr (pairwise_dedup_filter ts)

/-- **The recent filters by their latest addition.**  Whatever texts are added, empty ones and ones
that have been forgotten included, there is exactly one list of the texts that are not empty, each
of them once, the one that was added last first; and with any limit the items are the first ones of
this list, as many as the limit allows, and none where it is zero or less. -/
theorem items_latest (limit : Int) (ts : List Text) :
    ∃ l, (∀ l', ByLatest ts l' ↔ l' = l) ∧
      (addAll { limit } ts).items = l.take (max 0 limit).toNat := by
  have h := byLatest_dedup_filter ts
  refine ⟨_, fun l' => ⟨fun h' => h'.unique h, fun heq => heq ▸ h⟩, ?_⟩
  have hmax : (max 0 limit).toNat = limit.toNat := by omega
  rw [hmax, ← addAll_filter]
  exact items_addAll limit fun t ht => isKept_iff.mp (List.mem_filter.mp ht).2

end Recent

end LiveQuery
