/-
LiveQuery/Proofs/Session/Percentiles.lean

Percentiles of samples as order statistics.

Design.  A sample stands at a place of the samples in order if at most so many samples are less than
it, and more than so many are not greater (`StandsAt`).  This knows nothing of sorting, does not
change with the order in which the samples came, and leaves one value for each place; places and
values grow together (`StandsAt.mono`).  The samples in order have at each place the sample that
stands there (`standsAt_ordered`).  The place of a percentile is computed with a double, and is the
exact one for as many samples as can ever be (`rank_eq`).

Main result: `percentiles_standAt`.
-/
import Mathlib.Data.List.Basic
import Mathlib.Order.Defs.LinearOrder
import Mathlib.Algebra.Order.Ring.Unbundled.Rat
import LiveQuery.Proofs.Decimal.Quotients
import LiveQuery.Session.Latency

namespace LiveQuery

namespace Latency

/-! ### Places -/

/-- The place of a percentage is the whole part of its exact value. -/
theorem rank_eq {last p : Nat} (hlast : last < 2 ^ 40) (hp : p < 100) :
    rank last p = last * p / 100 := by
  have hnum : last * p < 2 ^ 52 :=
    calc last * p < 2 ^ 40 * 100 := Nat.mul_lt_mul'' hlast hp
      _ < 2 ^ 52 := by decide
  rw [rank, if_neg (by omega), Int.toNat_natCast]
  exact Binary64.whole_ofRatio hnum (by decide) (by decide)

/-- The place is one of a sample. -/
theorem place_lt {n p : Nat} (hn : 0 < n) (hp : p < 100) : (n - 1) * p / 100 < n := by
  have hle : (n - 1) * p ≤ (n - 1) * 100 := Nat.mul_le_mul_left _ hp.le
  omega

theorem percentiles_eq {τ : Type} [Time τ] (samples : List τ) :
    percentiles samples = [50, 95, 99].map fun p : Nat => percentile (ordered samples) p := rfl

section

variable {τ : Type} [LinearOrder τ]

/-- A sample stands at a place of the samples in order, the first place being zero: it is one of
them, at most so many are less, and more are less or equal. -/
structure StandsAt (samples : List τ) (place : Nat) (r : τ) : Prop where
  mem : r ∈ samples
  less : samples.countP (· < r) ≤ place
  upTo : place < samples.countP (· ≤ r)

/-- At a later place stands no lesser sample. -/
theorem StandsAt.mono {samples : List τ} {place place' : Nat} {r r' : τ}
    (h : StandsAt samples place r) (h' : StandsAt samples place' r') (hle : place ≤ place') :
    r ≤ r' := by
  by_contra hlt
  -- all samples up to `r'` would be less than `r`
  have hcount : samples.countP (· ≤ r') ≤ samples.countP (· < r) :=
    List.countP_mono_left fun s _ hs =>
      decide_eq_true (lt_of_le_of_lt (of_decide_eq_true hs) (not_le.mp hlt))
  have hless := h.less
  have hupTo := h'.upTo
  omega

theorem StandsAt.unique {samples : List τ} {place : Nat} {r r' : τ}
    (h : StandsAt samples place r) (h' : StandsAt samples place r') : r = r' :=
  le_antisymm (h.mono h' le_rfl) (h'.mono h le_rfl)

theorem StandsAt.perm {samples other : List τ} {place : Nat} {r : τ}
    (h : StandsAt samples place r) (hperm : samples.Perm other) : StandsAt other place r where
  mem := hperm.mem_iff.mp h.mem
  less := hperm.countP_eq _ ▸ h.less
  upTo := hperm.countP_eq _ ▸ h.upTo

/-- In a list in order each sample stands at its own place. -/
theorem standsAt_of_pairwise {front back : List τ} {r : τ}
    (h : (front ++ r :: back).Pairwise (· ≤ ·)) :
    StandsAt (front ++ r :: back) front.length r := by
  obtain ⟨-, hback, hfront⟩ := List.pairwise_append.mp h
  refine ⟨by simp, ?_, ?_⟩
  · have hnone : (r :: back).countP (· < r) = 0 := by
      refine List.countP_eq_zero.mpr fun s hs => ?_
      rw [decide_eq_true_iff, not_lt]
      rcases List.mem_cons.mp hs with rfl | hs
      · exact le_rfl
      · exact List.rel_of_pairwise_cons hback hs
    rw [List.countP_append, hnone]
    exact List.countP_le_length
  · have hall : front.countP (· ≤ r) = front.length :=
      List.countP_eq_length.mpr fun s hs => decide_eq_true (hfront s hs r List.mem_cons_self)
    have hown : 0 < (r :: back).countP (· ≤ r) :=
      List.countP_pos_iff.mpr ⟨r, List.mem_cons_self, decide_eq_true le_rfl⟩
    rw [List.countP_append, hall]
    omega

variable [Time τ] (hle : ∀ s t : τ, Time.le s t = decide (s ≤ t))

include hle

theorem pairwise_ordered (samples : List τ) : (ordered samples).Pairwise (· ≤ ·) := by
  have hsorted : (samples.mergeSort Time.le).Pairwise fun s t => Time.le s t := by
    apply List.pairwise_mergeSort
    · intro s t u hst htu
      rw [hle, decide_eq_true_iff] at hst htu ⊢
      exact le_trans hst htu
    · intro s t
      rw [hle, hle, Bool.or_eq_true, decide_eq_true_iff, decide_eq_true_iff]
      exact le_total s t
  exact hsorted.imp fun h => by rwa [hle, decide_eq_true_iff] at h

/-- The samples in order have at a place the sample that stands there. -/
theorem standsAt_ordered {samples : List τ} {place : Nat} (h : place < samples.length) :
    StandsAt samples place ((ordered samples).getD place Time.zero) := by
  have hperm : (ordered samples).Perm samples := List.mergeSort_perm samples _
  have hplace : place < (ordered samples).length := by rwa [hperm.length_eq]
  have hget : (ordered samples).getD place Time.zero = (ordered samples)[place] := by
    rw [List.getD_eq_getElem?_getD, List.getElem?_eq_getElem hplace, Option.getD_some]
  have hsplit : (ordered samples).take place ++
      (ordered samples)[place] :: (ordered samples).drop (place + 1) = ordered samples := by
    rw [← List.drop_eq_getElem_cons hplace, List.take_append_drop]
  have hstands := standsAt_of_pairwise (hsplit.symm ▸ pairwise_ordered hle samples)
  rw [hsplit, List.length_take, Nat.min_eq_left hplace.le] at hstands
  rw [hget]
  exact hstands.perm hperm

/-- A percentile stands at the place of its percentage. -/
theorem standsAt_percentile {samples : List τ} (hne : samples ≠ [])
    (hlength : samples.length < 2 ^ 40) {p : Nat} (hp : p < 100) :
    StandsAt samples ((samples.length - 1) * p / 100) (percentile (ordered samples) p) := by
  have hpos : 0 < samples.length := List.length_pos_iff.mpr hne
  have hordered : (ordered samples).length = samples.length := List.length_mergeSort samples
  rw [percentile, hordered, rank_eq (by omega) hp]
  exact standsAt_ordered hle (place_lt hpos hp)

/-- **Percentiles are order statistics.**  For samples of a total order, at least one and fewer than
`2 ^ 40`, the three percentiles do not depend on the order in which the samples came; the place that
is looked up is always that of a sample; each percentile stands at the whole part of its percentage
of the way to the last place; and the percentile of a greater percentage is no lesser sample. -/
theorem percentiles_standAt {samples : List τ} (hne : samples ≠ [])
    (hlength : samples.length < 2 ^ 40) :
    (∀ other : List τ, other.Perm samples → percentiles other = percentiles samples) ∧
    (∀ p ∈ shownPercentages, rank (samples.length - 1) p < samples.length) ∧
    ∃ r₅₀ r₉₅ r₉₉, percentiles samples = [r₅₀, r₉₅, r₉₉] ∧ r₅₀ ≤ r₉₅ ∧ r₉₅ ≤ r₉₉ ∧
      StandsAt samples ((samples.length - 1) * 50 / 100) r₅₀ ∧
      StandsAt samples ((samples.length - 1) * 95 / 100) r₉₅ ∧
      StandsAt samples ((samples.length - 1) * 99 / 100) r₉₉ := by
  have hpos : 0 < samples.length := List.length_pos_iff.mpr hne
  have hstands (p : Nat) (hp : p < 100) := standsAt_percentile hle hne hlength hp
  refine ⟨fun other hperm => ?_, fun p hp => ?_, _, _, _, rfl, ?_, ?_, hstands 50 (by decide),
    hstands 95 (by decide), hstands 99 (by decide)⟩
  · have hother (p : Nat) (hp : p < 100) :
        percentile (ordered other) p = percentile (ordered samples) p := by
      have hother := (standsAt_percentile hle (fun h => hne (h ▸ hperm).nil_eq.symm)
        (hperm.length_eq ▸ hlength) hp).perm hperm
      rw [hperm.length_eq] at hother
      exact hother.unique (hstands p hp)
    have hshown : ∀ p ∈ [50, 95, 99], p < 100 := by decide
    rw [percentiles_eq, percentiles_eq]
    exact List.map_congr_left fun p hp => hother p (hshown p hp)
  · have hrank (n : Nat) (hn : n < 100) : rank (samples.length - 1) n < samples.length := by
      rw [rank_eq (by omega) hn]
      exact place_lt hpos hn
    simp only [shownPercentages, List.mem_cons, List.not_mem_nil, or_false] at hp
    rcases hp with rfl | rfl | rfl
    · exact hrank 50 (by decide)
    · exact hrank 95 (by decide)
    · exact hrank 99 (by decide)
  · exact (hstands 50 (by decide)).mono (hstands 95 (by decide)) (by omega)
  · exact (hstands 95 (by decide)).mono (hstands 99 (by decide)) (by omega)

end

/-- Samples that are repeated count as often as they came. -/
theorem percentiles_standAt_repeated :
    let samples : List ℚ := [5, 1, 3, 3, 2, 4]
    (∀ s t : ℚ, Time.le s t = decide (s ≤ t)) ∧ samples ≠ [] ∧ samples.length < 2 ^ 40 ∧
      percentiles samples = [3, 4, 4] ∧ percentiles [4, 3, 5, 3, 2, 1] = percentiles samples := by
  intro samples
  have hle (s t : ℚ) : Time.le s t = decide (s ≤ t) := decide_eq_decide.mpr Iff.rfl
  have hne : samples ≠ [] := List.cons_ne_nil _ _
  have hlength : samples.length < 2 ^ 40 := by decide
  obtain ⟨hperm, -, r₅₀, r₉₅, r₉₉, hall, -, -, h₅₀, h₉₅, h₉₉⟩ :=
    percentiles_standAt hle hne hlength
  have hthree : StandsAt samples ((samples.length - 1) * 50 / 100) 3 :=
    ⟨by decide, by decide, by decide⟩
  have hfour : StandsAt samples ((samples.length - 1) * 95 / 100) 4 :=
    ⟨by decide, by decide, by decide⟩
  -- in so few samples the last two percentages lead to one place
  have hfour' : StandsAt samples ((samples.length - 1) * 99 / 100) 4 :=
    ⟨by decide, by decide, by decide⟩
  refine ⟨hle, hne, hlength, ?_, hperm _ (by decide)⟩
  rw [hall, h₅₀.unique hthree, h₉₅.unique hfour, h₉₉.unique hfour']

end Latency

end LiveQuery
