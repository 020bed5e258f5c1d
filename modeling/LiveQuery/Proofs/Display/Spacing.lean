/-
LiveQuery/Proofs/Display/Spacing.lean

One space behind a colon.

The passes for numbers, booleans and null look for a colon, blanks and a literal, and write a colon
and one space in place of what they have read before the literal.  Here is what this does to a
text, colours apart: `spaced begins` puts one space between each colon and what `begins` finds
behind it and its blanks.

Design.  Several such passes in a row are one: a pass leaves the head of the text behind a colon
as it is, up to the next colon, and a predicate that looks no further (`Reads`) finds there what it
would have found before.

Main results: two passes are one (`spaced_spaced`), and nothing changes exactly where there is one
space already (`spaced_eq_self_iff`, `Tidy`).
-/
import Mathlib.Data.List.DropRight
import Mathlib.Data.List.TakeWhile
import LiveQuery.Display.Paint

namespace LiveQuery

namespace Display

open Text

/-! ### Replacements from left to right -/

section Substitution

variable {rule : Rule} {c : Char} {t : Text}

theorem substituteFrom_eq (k : Nat) (t : Text) :
    substituteFrom rule k t = substitute rule (t.drop k) := by
  induction t generalizing k with
  | nil => cases k <;> rfl
  | cons c rest ih =>
    cases k with
    | zero => rfl
    | succ k => exact ih k

/-- A character at which the rule finds nothing stays. -/
theorem substitute_keep (h : rule (c :: t) = none) :
    substitute rule (c :: t) = c :: substitute rule t := by
  simp only [substitute, substituteFrom, h]

/-- What the rule finds is replaced, and the search goes on behind it. -/
theorem substitute_replace {out : Text} {n : Nat} (h : rule (c :: t) = some (out, n + 1)) :
    substitute rule (c :: t) = out ++ substitute rule (t.drop n) := by
  simp only [substitute, substituteFrom, h, Nat.add_sub_cancel]
  rw [substituteFrom_eq]
  rfl

/-- Characters at which the rule never finds anything stay. -/
theorem substitute_append {xs : Text} (h : ∀ c ∈ xs, ∀ u, rule (c :: u) = none) :
    substitute rule (xs ++ t) = xs ++ substitute rule t := by
  induction xs with
  | nil => rfl
  | cons c rest ih =>
    rw [List.cons_append, substitute_keep (h c List.mem_cons_self _),
      ih fun d hd => h d (List.mem_cons_of_mem c hd), List.cons_append]

end Substitution

/-! ### Spacing -/

/-- Puts one space between a colon and what `begins` finds behind it and blanks. -/
def spacing (begins : Text → Bool) : Rule
  | ':' :: rest =>
    if begins (trimLeft rest) then some (": ".toList, (rest.takeWhile isBlank).length + 1) else none
  | _ => none

/-- The text with one space between a colon and what `begins` finds behind it. -/
def spaced (begins : Text → Bool) (t : Text) : Text := substitute (spacing begins) t

/-- The function looks no further than the letters at the head of a text. -/
def Reads {β : Type} (letter : Char → Bool) (f : Text → β) : Prop :=
  ∀ t, f (t.takeWhile letter) = f t

theorem drop_takeWhile (p : Char → Bool) (t : Text) :
    t.drop (t.takeWhile p).length = t.dropWhile p := by
  have h := List.takeWhile_append_dropWhile (p := p) (l := t)
  calc t.drop (t.takeWhile p).length
      = (t.takeWhile p ++ t.dropWhile p).drop (t.takeWhile p).length := by rw [h]
    _ = t.dropWhile p := List.drop_left

/-- Letters at the head of a text end before a text that begins with none. -/
theorem span_append {p : Char → Bool} {u : Text} (hu : ∀ q ∈ u.head?, ¬ p q) (t : Text) :
    (t ++ u).takeWhile p = t.takeWhile p ∧ (t ++ u).dropWhile p = t.dropWhile p ++ u := by
  induction t with
  | nil =>
    cases u with
    | nil => exact ⟨rfl, rfl⟩
    | cons q u =>
      have hq : ¬ p q := hu q rfl
      exact ⟨List.takeWhile_cons_of_neg hq, List.dropWhile_cons_of_neg hq⟩
  | cons c rest ih =>
    by_cases hc : p c
    · rw [List.cons_append, List.takeWhile_cons_of_pos hc, List.takeWhile_cons_of_pos hc,
        List.dropWhile_cons_of_pos hc, List.dropWhile_cons_of_pos hc, ih.1, ih.2]
      exact ⟨rfl, rfl⟩
    · rw [List.cons_append, List.takeWhile_cons_of_neg hc, List.takeWhile_cons_of_neg hc,
        List.dropWhile_cons_of_neg hc, List.dropWhile_cons_of_neg hc]
      exact ⟨rfl, rfl⟩

section Spaced

variable {begins : Text → Bool}

theorem spacing_ne {c : Char} (h : c ≠ ':') (t : Text) : spacing begins (c :: t) = none := by
  unfold spacing
  split
  · simp_all
  · rfl

theorem spaced_cons {c : Char} (h : c ≠ ':') (t : Text) :
    spaced begins (c :: t) = c :: spaced begins t :=
  substitute_keep (spacing_ne h t)

theorem spaced_colon (t : Text) :
    spaced begins (':' :: t) =
      if begins (trimLeft t) then ':' :: ' ' :: spaced begins (trimLeft t)
      else ':' :: spaced begins t := by
  by_cases h : begins (trimLeft t)
  · have hrule : spacing begins (':' :: t) =
        some (": ".toList, (t.takeWhile isBlank).length + 1) := by simp only [spacing, if_pos h]
    rw [if_pos h, spaced, substitute_replace hrule, drop_takeWhile]
    rfl
  · rw [if_neg h]
    exact substitute_keep (by simp only [spacing, if_neg h])

/-- The first character is never replaced. -/
theorem exists_spaced_cons (c : Char) (t : Text) : ∃ u, spaced begins (c :: t) = c :: u := by
  by_cases hc : c = ':'
  · subst hc
    rw [spaced_colon]
    split
    · exact ⟨_, rfl⟩
    · exact ⟨_, rfl⟩
  · exact ⟨_, spaced_cons hc t⟩

theorem spaced_append {xs : Text} (h : ':' ∉ xs) (t : Text) :
    spaced begins (xs ++ t) = xs ++ spaced begins t :=
  substitute_append fun _ hc => spacing_ne fun hcolon => h (hcolon ▸ hc)

/-- Up to the first colon the text stays as it is. -/
theorem takeWhile_spaced {p : Char → Bool} (hp : p ':' = false) (t : Text) :
    (spaced begins t).takeWhile p = t.takeWhile p := by
  induction t with
  | nil => rfl
  | cons c rest ih =>
    by_cases hc : p c
    · have hne : c ≠ ':' := fun h => by simp [h, hp] at hc
      rw [spaced_cons hne, List.takeWhile_cons_of_pos hc, List.takeWhile_cons_of_pos hc, ih]
    · obtain ⟨u, hu⟩ := @exists_spaced_cons begins c rest
      rw [hu, List.takeWhile_cons_of_neg hc, List.takeWhile_cons_of_neg hc]

theorem dropWhile_spaced {p : Char → Bool} (hp : p ':' = false) (t : Text) :
    (spaced begins t).dropWhile p = spaced begins (t.dropWhile p) := by
  induction t with
  | nil => rfl
  | cons c rest ih =>
    by_cases hc : p c
    · have hne : c ≠ ':' := fun h => by simp [h, hp] at hc
      rw [spaced_cons hne, List.dropWhile_cons_of_pos hc, List.dropWhile_cons_of_pos hc, ih]
    · obtain ⟨u, hu⟩ := @exists_spaced_cons begins c rest
      rw [hu, List.dropWhile_cons_of_neg hc, List.dropWhile_cons_of_neg hc, hu]

theorem trimLeft_spaced (t : Text) : trimLeft (spaced begins t) = spaced begins (trimLeft t) :=
  dropWhile_spaced (by decide) t

end Spaced

/-! ### Leading blanks -/

@[simp] theorem trimLeft_space (t : Text) : trimLeft (' ' :: t) = trimLeft t :=
  List.dropWhile_cons_of_pos (by decide)

@[simp] theorem trimLeft_trimLeft (t : Text) : trimLeft (trimLeft t) = trimLeft t :=
  List.dropWhile_idempotent _ t

/-- The search goes on behind a colon, or behind the blanks that follow it. -/
@[elab_as_elim]
theorem colonInduction {P : Text → Prop} (nil : P [])
    (other : ∀ c t, c ≠ ':' → P t → P (c :: t))
    (colon : ∀ t, P (trimLeft t) → P t → P (':' :: t)) (t : Text) : P t := by
  induction hn : t.length using Nat.strong_induction_on generalizing t with
  | _ n ih =>
    cases t with
    | nil => exact nil
    | cons c rest =>
      have hrest : P rest := ih rest.length (by simp [← hn]) rest rfl
      by_cases hc : c = ':'
      · have hle : (trimLeft rest).length ≤ rest.length :=
          (List.dropWhile_sublist isBlank).length_le
        have hbody : P (trimLeft rest) :=
          ih (trimLeft rest).length (by simp [← hn]; omega) (trimLeft rest) rfl
        exact hc ▸ colon rest hbody hrest
      · exact other c rest hc hrest

/-! ### Passes in a row -/

section Rows

variable {begins begins' : Text → Bool} {letter : Char → Bool}

/-- What is read up to the next colon is the same after a pass. -/
theorem Reads.spaced {β : Type} {f : Text → β} (h : Reads letter f) (hcolon : letter ':' = false)
    (t : Text) : f (spaced begins t) = f t := by
  rw [← h, takeWhile_spaced hcolon, h]

/-- **Two passes are one** that looks for what either of them finds, where the second reads no
colons. -/
theorem spaced_spaced (h : Reads letter begins') (hcolon : letter ':' = false) (t : Text) :
    spaced begins' (spaced begins t) = spaced (fun u => begins u || begins' u) t := by
  induction t using colonInduction with
  | nil => rfl
  | other c rest hc ih => rw [spaced_cons hc, spaced_cons hc, spaced_cons hc, ih]
  | colon rest ihBody ih =>
    rw [@spaced_colon begins, @spaced_colon fun u => begins u || begins' u]
    by_cases hfirst : begins (trimLeft rest)
    · -- the second pass may find the same again, and leaves the one space
      rw [if_pos hfirst, if_pos (by simp [hfirst]), spaced_colon, trimLeft_space,
        trimLeft_spaced, trimLeft_trimLeft, spaced_cons (by decide), ihBody, ite_self]
    · have hread : begins' (spaced begins (trimLeft rest)) = begins' (trimLeft rest) :=
        h.spaced hcolon _
      rw [if_neg hfirst, spaced_colon, trimLeft_spaced, hread, ihBody, ih]
      simp [hfirst]

/-! ### Texts that are spaced already -/

/-- Each colon before something that `begins` finds is followed by exactly one space. -/
def Tidy (begins : Text → Bool) (t : Text) : Prop :=
  ∀ before rest, t = before ++ ':' :: rest → begins (trimLeft rest) → rest = ' ' :: trimLeft rest

theorem tidy_nil : Tidy begins [] := by
  intro before rest h
  simp at h

theorem tidy_cons_iff {c : Char} {t : Text} :
    Tidy begins (c :: t) ↔
      (c = ':' → begins (trimLeft t) → t = ' ' :: trimLeft t) ∧ Tidy begins t := by
  constructor
  · intro h
    refine ⟨?_, ?_⟩
    · rintro rfl hbegins
      exact h [] t rfl hbegins
    · rintro before rest rfl hbegins
      exact h (c :: before) rest rfl hbegins
  · rintro ⟨hhead, htail⟩ before rest heq hbegins
    rcases List.cons_eq_append_iff.mp heq with ⟨-, hrest⟩ | ⟨before', -, ht⟩
    · obtain ⟨hcolon, rfl⟩ := List.cons_eq_cons.mp hrest
      exact hhead hcolon.symm hbegins
    · exact htail before' rest ht hbegins

/-- **A text stays as it is exactly where it is tidy.** -/
theorem spaced_eq_self_iff (t : Text) : spaced begins t = t ↔ Tidy begins t := by
  induction t using colonInduction with
  | nil => exact iff_of_true rfl tidy_nil
  | other c rest hc ih =>
    rw [spaced_cons hc, List.cons_inj_right, ih, tidy_cons_iff]
    simp [hc]
  | colon rest ihBody ih =>
    rw [spaced_colon, tidy_cons_iff]
    by_cases hbegins : begins (trimLeft rest)
    · rw [if_pos hbegins, List.cons_inj_right]
      constructor
      · intro h
        -- behind the space stands the text without its blanks, and it is spaced
        have hbody : spaced begins (trimLeft rest) = trimLeft rest := by
          conv_rhs => rw [← h, trimLeft_space, trimLeft_spaced, trimLeft_trimLeft]
        rw [hbody] at h
        refine ⟨fun _ _ => h.symm, ?_⟩
        rw [← h, tidy_cons_iff]
        exact ⟨fun hspace => absurd hspace (by decide), ihBody.mp hbody⟩
      · rintro ⟨hspace, htidy⟩
        have hrest := hspace rfl hbegins
        rw [hrest, tidy_cons_iff] at htidy
        rw [ihBody.mpr htidy.2]
        exact hrest.symm
    · rw [if_neg hbegins, List.cons_inj_right, ih]
      simp [hbegins]

end Rows

end Display

end LiveQuery
