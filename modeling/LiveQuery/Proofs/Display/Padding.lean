/-
LiveQuery/Proofs/Display/Padding.lean

Spaces behind a styled text.

A sequence is recognised by what follows its beginning, so that a text put behind another one may
complete a sequence that was left open.  Spaces complete none, whatever the text ends with: neither
does any text that begins with a character that no sequence holds (`plain_append`).

Main results: what is seen of a padded text (`plain_pad`), and its width (`visibleWidth_pad`); both
in one (`pad_exact`).
-/
import LiveQuery.Display.Rows
import LiveQuery.Display.Wide
import LiveQuery.Proofs.Display.Cells
import LiveQuery.Proofs.Display.Styled

namespace LiveQuery

namespace Display

open Text

variable {t u : Text}

/-! ### Texts behind texts -/

/-- The text is empty, or begins with a character that no sequence holds. -/
def Apart (u : Text) : Prop := ∀ q ∈ u.head?, ¬ InSequence q

theorem apart_spaces (n : Nat) : Apart (spaces n) := by
  intro q hq
  have hspace : q = ' ' := List.eq_of_mem_replicate (List.mem_of_mem_head? hq)
  subst hspace
  rintro (h | h | h | h)
  · exact absurd h (by decide)
  · exact absurd h (by decide)
  · exact absurd h (by decide)
  · exact absurd h (by decide)

/-- A sequence goes on with parameters and ends with an `m`. -/
theorem plainRule_bracket (t : Text) :
    plainRule (esc :: '[' :: t) =
      if (t.dropWhile isParameter).head? = some 'm' then
        some ([], (t.takeWhile isParameter).length + 3)
      else none := by
  rw [plainRule, if_pos rfl]
  simp only [drop_takeWhile]
  rcases t.dropWhile isParameter with - | ⟨c, rest⟩
  · rfl
  · by_cases hc : c = 'm'
    · subst hc
      rfl
    · simp [hc]

theorem plainRule_of_ne_bracket (c : Char) (h : ∀ q ∈ t.head?, q ≠ '[') :
    plainRule (c :: t) = none := by
  unfold plainRule
  split
  · next heq =>
    obtain ⟨-, rfl⟩ := List.cons_eq_cons.mp heq
    exact absurd rfl (h '[' rfl)
  · rfl

/-- What stands behind a text does not make a sequence of its head. -/
theorem plainRule_append (hu : Apart u) (c : Char) (t : Text) :
    plainRule (c :: (t ++ u)) = plainRule (c :: t) := by
  by_cases hc : c = esc
  · subst hc
    cases t with
    | nil =>
      have hbracket : ∀ q ∈ u.head?, q ≠ '[' := fun q hq h => hu q hq (.inr (.inl h))
      exact plainRule_of_ne_bracket esc hbracket
    | cons d rest =>
      by_cases hd : d = '['
      · subst hd
        have hparameter : ∀ q ∈ u.head?, ¬ isParameter q :=
          fun q hq h => hu q hq (.inr (.inr (.inr h)))
        obtain ⟨htake, hdrop⟩ := span_append hparameter rest
        rw [List.cons_append, plainRule_bracket, plainRule_bracket, htake, hdrop]
        rcases rest.dropWhile isParameter with - | ⟨e, behind⟩
        · -- the `m` cannot come from the text behind
          have hend : u.head? ≠ some 'm' := fun h => hu 'm' h (.inr (.inr (.inl rfl)))
          rw [List.nil_append, if_neg hend]
          rfl
        · rfl
      · rw [List.cons_append, plainRule_of_ne_bracket esc (by simpa using hd),
          plainRule_of_ne_bracket esc (by simpa using hd)]
  · rw [Styled.plainRule_of_ne hc, Styled.plainRule_of_ne hc]

/-- A sequence is left out, and is part of the text. -/
theorem plainRule_some {c : Char} {out : Text} {n : Nat} (h : plainRule (c :: t) = some (out, n)) :
    out = [] ∧ ∃ k ≤ t.length, n = k + 1 := by
  by_cases hc : c = esc
  · subst hc
    rcases t with - | ⟨d, rest⟩
    · cases h
    · by_cases hd : d = '['
      · subst hd
        rw [plainRule_bracket] at h
        split at h
        · next hend =>
          obtain ⟨rfl, rfl⟩ := Prod.mk.inj (Option.some.inj h)
          -- the `m` is one more character behind the parameters
          have hpos : 0 < (rest.dropWhile isParameter).length := by
            rcases hrest : rest.dropWhile isParameter with - | ⟨e, behind⟩
            · simp [hrest] at hend
            · exact Nat.succ_pos _
          have hlength := congrArg List.length
            (List.takeWhile_append_dropWhile (p := isParameter) (l := rest))
          rw [List.length_append] at hlength
          exact ⟨rfl, (rest.takeWhile isParameter).length + 2, by simp; omega, rfl⟩
        · cases h
      · rw [plainRule_of_ne_bracket esc (by simpa using hd)] at h
        cases h
  · rw [Styled.plainRule_of_ne hc] at h
    cases h

theorem plain_of_esc_not_mem (h : esc ∉ u) : plain u = u := by
  have hkeep : substitute plainRule (u ++ []) = u ++ substitute plainRule [] :=
    substitute_append fun c hc => Styled.plainRule_of_ne fun hesc => h (hesc ▸ hc)
  rw [List.append_nil] at hkeep
  rw [plain, hkeep]
  exact List.append_nil u

/-- **Sequences in two texts** one behind the other are those in each of them, where the second one
begins with nothing that could complete one of the first. -/
theorem plain_append (hu : Apart u) (t : Text) : plain (t ++ u) = plain t ++ plain u := by
  -- a sequence may be long, so the induction is on the length
  induction hn : t.length using Nat.strong_induction_on generalizing t with
  | _ n ih =>
    cases t with
    | nil => rfl
    | cons c rest =>
      rw [List.length_cons] at hn
      have hrule : plainRule (c :: (rest ++ u)) = plainRule (c :: rest) :=
        plainRule_append hu c rest
      rcases hfound : plainRule (c :: rest) with - | ⟨out, k⟩
      · rw [hfound] at hrule
        rw [List.cons_append, plain, plain, substitute_keep hrule, substitute_keep hfound, ← plain,
          ← plain, ih rest.length (by omega) rest rfl, List.cons_append]
      · obtain ⟨rfl, k, hk, rfl⟩ := plainRule_some hfound
        rw [hfound] at hrule
        have hshorter : (rest.drop k).length < n := by
          rw [List.length_drop]
          omega
        rw [List.cons_append, plain, plain, substitute_replace hrule, substitute_replace hfound,
          List.drop_append_of_le_length hk, ← plain, ← plain, List.nil_append, List.nil_append,
          ih _ hshorter (rest.drop k) rfl]

/-! ### Padding -/

theorem esc_not_mem_spaces (n : Nat) : esc ∉ spaces n :=
  fun h => absurd (List.eq_of_mem_replicate h) (by decide)

section

variable [Glyphs]

theorem visibleWidth_spaces (hspace : cells ' ' = 1) (n : Nat) : visibleWidth (spaces n) = n := by
  rw [visibleWidth, plain_of_esc_not_mem (esc_not_mem_spaces n), width_spaces hspace]

/-- **What is seen of a padded text** is what is seen of the text, and spaces up to the width. -/
theorem plain_pad (t : Text) (width : Int) :
    plain (pad t width) = plain t ++ spaces (width - visibleWidth t).toNat := by
  rw [pad, plain_append (apart_spaces _), plain_of_esc_not_mem (esc_not_mem_spaces _)]

/-- **The width of a padded text** is the one asked for, unless the text is wider. -/
theorem visibleWidth_pad (hspace : cells ' ' = 1) (t : Text) (width : Int) :
    (visibleWidth (pad t width) : Int) = max width (visibleWidth t) := by
  rw [visibleWidth, plain_pad, width_append, width_spaces hspace, ← visibleWidth]
  omega

/-- **Padding is exact, and adds nothing but spaces** to what is seen, whatever the text holds of
sequences: complete ones, open ones, or what looks like one as soon as another is removed. -/
theorem pad_exact (hspace : cells ' ' = 1) (t : Text) (width : Int) :
    (visibleWidth (pad t width) : Int) = max width (visibleWidth t) ∧
      plain (pad t width) = plain t ++ spaces (width - visibleWidth t).toNat :=
  ⟨visibleWidth_pad hspace t width, plain_pad t width⟩

end

/-- Around a sequence that is removed stand the parts of another one, and the last one is open. -/
theorem pad_exact_open :
    let t := "\x1b[\x1b[0mm\x1b[3".toList
    cells ' ' = 1 ∧ plain t = "\x1b[m\x1b[3".toList ∧ (visibleWidth (pad t 9) : Int) = 9 ∧
      plain (pad t 9) = "\x1b[m\x1b[3   ".toList := by
  intro t
  have hspace : cells ' ' = 1 := by decide
  have hplain : plain t = "\x1b[m\x1b[3".toList := by decide +kernel
  have hwidth : visibleWidth t = 6 := by decide +kernel
  obtain ⟨hpadded, hshown⟩ := pad_exact hspace t 9
  rw [hwidth] at hpadded hshown
  exact ⟨hspace, hplain, hpadded, by rw [hshown, hplain]; rfl⟩

end Display

end LiveQuery
