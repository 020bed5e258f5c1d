/-
LiveQuery/Proofs/Display/Styled.lean

Texts with escape sequences in them.

`Styled mark after t s` says that `t` is the text `s` with sequences put in, and where: each of them
stands behind or before a marked character of `s`.  The marks are what later passes rely on.  They
read the sequences too, and find in `t` what they would find in `s` as long as nothing they look
for has a sequence inside it; and nothing has, where it holds no marked character.

Main results: without its sequences a styled text is `s` (`Styled.plain_eq`); a replacement that
answers for one step answers for the whole text (`Repaints.substitute`); and what is behind a
colon is found in `t` as in `s` (`Styled.takeWhile_dropWhile`).
-/
import LiveQuery.Proofs.Display.Spacing

namespace LiveQuery

namespace Display

open Text

/-- The first text is the second one with sequences put in, each behind or before a marked
character; `after` says whether the text comes behind one. -/
inductive Styled (mark : Char → Bool) : Bool → Text → Text → Prop
  | nil {after} : Styled mark after [] []
  | char {after c t s} : c ≠ esc → Styled mark (mark c) t s → Styled mark after (c :: t) (c :: s)
  | sequence {after ps t s} : (∀ p ∈ ps, isParameter p) →
      (after = true ∨ ∃ c ∈ s.head?, mark c) → Styled mark after t s →
      Styled mark after (esc :: '[' :: (ps ++ 'm' :: t)) s

/-- A character that a sequence may hold. -/
def InSequence (c : Char) : Prop := c = esc ∨ c = '[' ∨ c = 'm' ∨ isParameter c

/-- A colour is a sequence. -/
def IsColour (colour : Text) : Prop :=
  ∃ parameters : String, parameters.toList.all isParameter ∧ colour = sequence parameters

namespace Styled

variable {mark mark' : Char → Bool} {after after' : Bool} {t s colour : Text}

/-- More marks allow for all the sequences there are. -/
theorem mono (h : Styled mark after t s) (hmark : ∀ c, mark c → mark' c)
    (hafter : after → after') : Styled mark' after' t s := by
  induction h generalizing after' with
  | nil => exact .nil
  | char hc _ ih => exact .char hc (ih (hmark _))
  | sequence hps hside _ ih =>
    refine .sequence hps ?_ (ih hafter)
    rcases hside with hbehind | ⟨c, hc, hbefore⟩
    · exact .inl (hafter hbehind)
    · exact .inr ⟨c, hc, hmark c hbefore⟩

/-! ### Removing the sequences -/

theorem plainRule_of_ne {c : Char} (h : c ≠ esc) (t : Text) : plainRule (c :: t) = none := by
  unfold plainRule
  split
  · next heq =>
    obtain ⟨rfl, -⟩ := List.cons_eq_cons.mp heq
    rw [if_neg h]
  · rfl

theorem plainRule_sequence {ps : Text} (h : ∀ p ∈ ps, isParameter p) (t : Text) :
    plainRule (esc :: '[' :: (ps ++ 'm' :: t)) = some ([], ps.length + 3) := by
  have htake : (ps ++ 'm' :: t).takeWhile isParameter = ps := by
    rw [List.takeWhile_append_of_pos h, List.takeWhile_cons_of_neg (by decide), List.append_nil]
  simp [plainRule, htake]

/-- **Without its sequences** a styled text is the text that has been styled. -/
theorem plain_eq (h : Styled mark after t s) : plain t = s := by
  induction h with
  | nil => rfl
  | char hc _ ih => rw [plain, substitute_keep (plainRule_of_ne hc _), ← plain, ih]
  | @sequence after ps t s hps _ _ ih =>
    have hdrop : ('[' :: (ps ++ 'm' :: t)).drop (ps.length + 2) = t := by
      simp
    rw [plain, substitute_replace (plainRule_sequence hps t), hdrop, ← plain, ih, List.nil_append]

/-! ### The head of a styled text -/

theorem cons_inv {c : Char} (hc : c ≠ esc) (h : Styled mark after (c :: t) s) :
    ∃ s', s = c :: s' ∧ Styled mark (mark c) t s' := by
  cases h with
  | char _ h => exact ⟨_, rfl, h⟩
  | sequence => exact absurd rfl hc

/-- Characters before a text that is styled behind anything. -/
theorem append {xs : Text} (hxs : esc ∉ xs) (h : ∀ after, Styled mark after t s) :
    ∀ after, Styled mark after (xs ++ t) (xs ++ s) := by
  induction xs with
  | nil => exact h
  | cons c rest ih =>
    rw [List.mem_cons, not_or] at hxs
    exact fun _ => .char (fun hc => hxs.1 hc.symm) (ih hxs.2 _)

theorem append_inv {xs : Text} (hxs : esc ∉ xs) (h : Styled mark after (xs ++ t) s) :
    ∃ after' s', s = xs ++ s' ∧ Styled mark after' t s' := by
  induction xs generalizing after s with
  | nil => exact ⟨after, s, rfl, h⟩
  | cons c rest ih =>
    rw [List.mem_cons, not_or] at hxs
    obtain ⟨s', rfl, htail⟩ := cons_inv (fun hc => hxs.1 hc.symm) h
    obtain ⟨after', s'', rfl, hrest⟩ := ih hxs.2 htail
    exact ⟨after', s'', rfl, hrest⟩

/-- Behind a character without a mark, letters without marks are the same in both texts, and
what comes behind them is styled again. -/
theorem takeWhile_dropWhile {p : Char → Bool} (hp : ∀ c, p c → c ≠ esc ∧ mark c = false)
    (h : Styled mark false t s) :
    t.takeWhile p = s.takeWhile p ∧ Styled mark false (t.dropWhile p) (s.dropWhile p) := by
  generalize hafter : false = after at h
  induction h with
  | nil => exact ⟨rfl, .nil⟩
  | @char after c t s hc htail ih =>
    by_cases hpc : p c
    · rw [List.takeWhile_cons_of_pos hpc, List.takeWhile_cons_of_pos hpc,
        List.dropWhile_cons_of_pos hpc, List.dropWhile_cons_of_pos hpc]
      have hmark := (hp c hpc).2
      obtain ⟨htake, hdrop⟩ := ih hmark.symm
      rw [hmark, hafter] at hdrop
      exact ⟨by rw [htake], hdrop⟩
    · rw [List.takeWhile_cons_of_neg hpc, List.takeWhile_cons_of_neg hpc,
        List.dropWhile_cons_of_neg hpc, List.dropWhile_cons_of_neg hpc]
      exact ⟨rfl, .char hc htail⟩
  | @sequence after ps t s hps hside htail ih =>
    -- the sequence stands before a mark, at which both sides stop
    subst hafter
    have hesc : ¬ p esc := fun h => (hp esc h).1 rfl
    rcases hside with hbehind | ⟨c, hc, hbefore⟩
    · cases hbehind
    · cases s with
      | nil => cases hc
      | cons d s =>
        obtain rfl : d = c := by simpa using hc
        have hd : ¬ p d := fun h => by simp [(hp d h).2] at hbefore
        rw [List.takeWhile_cons_of_neg hesc, List.takeWhile_cons_of_neg hd,
          List.dropWhile_cons_of_neg hesc, List.dropWhile_cons_of_neg hd]
        exact ⟨rfl, .sequence hps (.inr ⟨d, rfl, hbefore⟩) htail⟩

/-! ### A styled text in two -/

theorem inSequence {ps : Text} (hps : ∀ p ∈ ps, isParameter p) {c : Char}
    (hc : c ∈ esc :: '[' :: (ps ++ ['m'])) : InSequence c := by
  simp only [List.mem_cons, List.mem_append, List.not_mem_nil, or_false] at hc
  rcases hc with rfl | rfl | hc | rfl
  · exact .inl rfl
  · exact .inr (.inl rfl)
  · exact .inr (.inr (.inr (hps c hc)))
  · exact .inr (.inr (.inl rfl))

/-- A character that no sequence holds comes behind the whole of a sequence. -/
theorem sequence_before {u v ps : Text} {q : Char} (hq : ¬ InSequence q)
    (hps : ∀ p ∈ ps, isParameter p) (h : u ++ q :: v = esc :: '[' :: (ps ++ 'm' :: t)) :
    ∃ u₀, u = esc :: '[' :: (ps ++ 'm' :: u₀) ∧ u₀ ++ q :: v = t := by
  have heq : u ++ q :: v = (esc :: '[' :: (ps ++ ['m'])) ++ t := by rw [h]; simp
  rcases List.append_eq_append_iff.mp heq with ⟨w, hw, hrest⟩ | ⟨w, hw, hrest⟩
  · cases w with
    | nil => exact ⟨[], by simpa using hw.symm, by simpa using hrest⟩
    | cons d w =>
      obtain ⟨rfl, -⟩ := List.cons_eq_cons.mp hrest
      exact absurd (inSequence hps (by rw [hw]; simp)) hq
  · exact ⟨w, by rw [hw]; simp, hrest.symm⟩

/-- **A styled text in two** at a character that no sequence holds; another text may be styled
from there on. -/
theorem split {u v : Text} {q : Char} (hq : ¬ InSequence q)
    (h : Styled mark after (u ++ q :: v) s) :
    ∃ u' s', s = u' ++ q :: s' ∧ Styled mark (mark q) v s' ∧
      ∀ y z, (∀ after', Styled mark after' y (q :: z)) →
        Styled mark after (u ++ y) (u' ++ q :: z) := by
  generalize ht : u ++ q :: v = t at h
  induction h generalizing u with
  | nil => simp at ht
  | @char after c t s hc htail ih =>
    cases u with
    | nil =>
      obtain ⟨rfl, rfl⟩ := List.cons_eq_cons.mp ht
      exact ⟨[], s, rfl, htail, fun y z hy => hy after⟩
    | cons d u =>
      obtain ⟨hd, hrest⟩ := List.cons_eq_cons.mp ht
      obtain ⟨u', s', rfl, hv, hjoin⟩ := ih hrest
      subst hd
      exact ⟨d :: u', s', rfl, hv, fun y z hy => .char hc (hjoin y z hy)⟩
  | @sequence after ps t s hps hside htail ih =>
    obtain ⟨u₀, rfl, hu₀⟩ := sequence_before hq hps ht
    obtain ⟨u', s', rfl, hv, hjoin⟩ := ih hu₀
    refine ⟨u', s', rfl, hv, fun y z hy => ?_⟩
    have hside' : after = true ∨ ∃ c ∈ (u' ++ q :: z).head?, mark c := by
      cases u' with
      | nil => simpa using hside
      | cons c u' => simpa using hside
    simpa using Styled.sequence hps hside' (hjoin y z hy)

/-! ### Colours -/

/-- A colour before or behind a mark. -/
theorem coloured (hcolour : IsColour colour) (hside : after = true ∨ ∃ c ∈ s.head?, mark c)
    (h : Styled mark after t s) : Styled mark after (colour ++ t) s := by
  obtain ⟨parameters, hps, rfl⟩ := hcolour
  simpa [Display.sequence] using Styled.sequence (List.all_eq_true.mp hps) hside h

theorem isColour_reset : IsColour reset := ⟨"0", by decide, rfl⟩

/-- A painted piece that begins and ends with a mark. -/
theorem painted {w : Text} (hcolour : IsColour colour) (hesc : esc ∉ w)
    (hbegin : ∃ c ∈ w.head?, mark c) (hend : ∃ c ∈ w.getLast?, mark c)
    (h : Styled mark after' t s) (after : Bool) :
    Styled mark after (Display.painted colour w ++ t) (w ++ s) := by
  obtain ⟨c, hc, hmark⟩ := hend
  obtain ⟨w, rfl⟩ : ∃ w', w = w' ++ [c] := by
    have hne : w ≠ [] := fun hnil => by simp [hnil] at hc
    rw [List.getLast?_eq_some_getLast hne, Option.mem_def, Option.some.injEq] at hc
    exact ⟨w.dropLast, by rw [← hc, List.dropLast_append_getLast]⟩
  have hw : esc ∉ w ∧ esc ≠ c := by simpa using hesc
  have hlast : ∀ after, Styled mark after (c :: (reset ++ t)) (c :: s) := fun after =>
    .char hw.2.symm (coloured isColour_reset (.inl hmark) (h.mono (fun _ => id) fun _ => hmark))
  have hpiece := append hw.1 hlast after
  -- the colour begins before the first character of the piece, which may be its last as well
  have hside : ∃ d ∈ (w ++ c :: s).head?, mark d := by
    cases w with
    | nil => exact ⟨c, rfl, hmark⟩
    | cons d w => simpa using hbegin
  simpa [Display.painted] using coloured hcolour (.inr hside) hpiece

end Styled

/-! ### Replacements in styled texts -/

/-- What a rule does to a text with some marks, step by step: it leaves sequences alone, and a text
with what it puts in is styled again, with more marks; `shown` tells what becomes of the text
that is styled. -/
structure Repaints (mark mark' : Char → Bool) (rule : Rule) (shown : Text → Text) : Prop where
  marks : ∀ c, mark c → mark' c
  sequences : ∀ c, InSequence c → ∀ t, rule (c :: t) = none
  nil : shown [] = []
  head : ∀ c s, ∃ s', shown (c :: s) = c :: s'
  step : ∀ {c t s}, c ≠ esc → Styled mark (mark c) t s →
    (rule (c :: t) = none ∧ shown (c :: s) = c :: shown s) ∨
    ∃ out n after s', rule (c :: t) = some (out, n + 1) ∧ Styled mark after (t.drop n) s' ∧
      ∀ y, Styled mark' after y (shown s') →
        ∀ before, Styled mark' before (out ++ y) (shown (c :: s))

/-- **A pass over a styled text** gives a styled text. -/
theorem Repaints.substitute {mark mark' : Char → Bool} {rule : Rule} {shown : Text → Text}
    (hr : Repaints mark mark' rule shown) {after : Bool} {t s : Text} (h : Styled mark after t s) :
    Styled mark' after (substitute rule t) (shown s) := by
  -- what is replaced may be long, so the induction is on the length
  induction hn : t.length using Nat.strong_induction_on generalizing after t s with
  | _ n ih =>
    cases h with
    | nil =>
      rw [hr.nil]
      exact .nil
    | @char _ c t s hc htail =>
      rcases hr.step hc htail with ⟨hnone, hshown⟩ | ⟨out, k, after', s', hsome, hrest, hjoin⟩
      · -- the character stays, and it may have become a mark
        rw [substitute_keep hnone, hshown]
        exact .char hc ((ih t.length (by simp [← hn]) htail rfl).mono (fun _ => id) (hr.marks c))
      · rw [substitute_replace hsome]
        have hshorter : (t.drop k).length < n := by
          rw [List.length_drop, ← hn, List.length_cons]
          omega
        exact hjoin _ (ih (t.drop k).length hshorter hrest rfl) after
    | @sequence _ ps t s hps hside htail =>
      -- the sequence stays where it is: beside a mark, of which there are only more now
      have hskip : ∀ c ∈ esc :: '[' :: (ps ++ ['m']), ∀ u, rule (c :: u) = none :=
        fun c hc => hr.sequences c (Styled.inSequence hps hc)
      have hside' : after = true ∨ ∃ c ∈ (shown s).head?, mark' c := by
        rcases hside with hbehind | ⟨c, hc, hbefore⟩
        · exact .inl hbehind
        · cases s with
          | nil => cases hc
          | cons d s =>
            obtain ⟨s', hs'⟩ := hr.head d s
            exact .inr ⟨c, by rw [hs']; exact hc, hr.marks c hbefore⟩
      have hpass := ih t.length (by simp [← hn]; omega) htail rfl
      have heq : esc :: '[' :: (ps ++ 'm' :: t) = (esc :: '[' :: (ps ++ ['m'])) ++ t := by simp
      rw [heq, substitute_append hskip]
      simpa using Styled.sequence hps hside' hpass

end Display

end LiveQuery
