/-
LiveQuery/Proofs/Completion/Narrowing.lean

What typing more of a key does to the keys that are offered.

A key is compared with the typed text after both have been put into lower case, each of them as a
whole.  Character by character that keeps beginnings, but for one letter: the lower case of a
capital sigma depends on whether a letter comes behind it (`lowerAt_eq_iff`).  So a text that ends
in a capital sigma changes its lower case when a letter is typed behind it, and only then
(`lowerAfter_prefix_iff`).

Main result: `narrows_iff`.
-/
import LiveQuery.Completion.Suggestions
import Mathlib.Data.List.Basic

namespace LiveQuery

namespace Text

variable {before t more : Text} {c : Char}

/-! ### Capital sigmas at the end of a word -/

/-- The lower case of `c` with `before` before it, nearest first, and `after` behind it. -/
def lowerAt (before : Text) (c : Char) (after : Text) : Text :=
  if c = 'Σ' then if meetsCased before && !meetsCased after then ['ς'] else ['σ']
  else lowerChar c

theorem lowerAfter_cons (before : Text) (c : Char) (rest : Text) :
    lowerAfter before (c :: rest) = lowerAt before c rest ++ lowerAfter (c :: before) rest := rfl

/-- Whether `t` ends in a capital sigma that closes a word, where `before` holds the characters
before it, nearest first: a letter comes before the sigma, and nothing that counts behind it. -/
def EndsInSigma (before t : Text) : Prop :=
  ∃ front back, t = front ++ 'Σ' :: back ∧ meetsCased (front.reverse ++ before) ∧
    ∀ c ∈ back, isCaseIgnorable c

@[simp] theorem not_endsInSigma_nil (before : Text) : ¬EndsInSigma before [] := by
  rintro ⟨front, back, h, -⟩
  cases front <;> cases h

theorem endsInSigma_cons :
    EndsInSigma before (c :: t) ↔
      (c = 'Σ' ∧ meetsCased before ∧ ∀ d ∈ t, isCaseIgnorable d) ∨
        EndsInSigma (c :: before) t := by
  constructor
  · rintro ⟨front, back, h, hmeets, hback⟩
    cases front with
    | nil =>
      obtain ⟨rfl, rfl⟩ := List.cons.inj h
      exact .inl ⟨rfl, hmeets, hback⟩
    | cons d front =>
      obtain ⟨rfl, rfl⟩ := List.cons.inj h
      exact .inr ⟨front, back, rfl, by simpa using hmeets, hback⟩
  · rintro (⟨rfl, hmeets, hall⟩ | ⟨front, back, rfl, hmeets, hback⟩)
    · exact ⟨[], t, rfl, hmeets, hall⟩
    · exact ⟨c :: front, back, rfl, by simpa using hmeets, hback⟩

/-- Behind characters that count nothing, the next one is met; else it is one of the first text. -/
theorem meetsCased_append (t more : Text) :
    meetsCased (t ++ more) =
      if t.all isCaseIgnorable then meetsCased more else meetsCased t := by
  induction t with
  | nil => simp
  | cons c t ih =>
    by_cases hc : isCaseIgnorable c
    · have hskip (u : Text) : meetsCased (c :: u) = meetsCased u := by
        simp [meetsCased, List.dropWhile_cons_of_pos hc]
      rw [List.cons_append, hskip, hskip, ih]
      simp [hc]
    · have hmeet (u : Text) : meetsCased (c :: u) = isCased c := by
        simp [meetsCased, List.dropWhile_cons_of_neg hc]
      rw [List.cons_append, hmeet, hmeet]
      simp [hc]

theorem meetsCased_of_ignorable (h : ∀ c ∈ t, isCaseIgnorable c) : meetsCased t = false := by
  have happ := meetsCased_append t []
  rw [List.append_nil, if_pos (List.all_eq_true.mpr h)] at happ
  exact happ

/-- What comes further behind a character changes its lower case only if it is a capital sigma that
closes a word, and a letter then follows. -/
theorem lowerAt_eq_iff :
    lowerAt before c t = lowerAt before c (t ++ more) ↔
      ¬((c = 'Σ' ∧ meetsCased before ∧ ∀ d ∈ t, isCaseIgnorable d) ∧ meetsCased more) := by
  by_cases hsigma : c = 'Σ'
  · rw [lowerAt, lowerAt, if_pos hsigma, if_pos hsigma, meetsCased_append]
    by_cases hall : ∀ d ∈ t, isCaseIgnorable d
    · rw [if_pos (List.all_eq_true.mpr hall), meetsCased_of_ignorable hall]
      cases meetsCased before <;> cases meetsCased more <;> simp +contextual [hsigma, hall]
    · rw [if_neg (mt List.all_eq_true.mp hall)]
      simp only [hall, and_false, false_and, not_false_iff]
  · rw [lowerAt, lowerAt, if_neg hsigma, if_neg hsigma]
    simp only [hsigma, false_and, not_false_iff]

/-- The length of a character in lower case does not depend on what comes behind it. -/
theorem lowerAt_length (before : Text) (c : Char) (after after' : Text) :
    (lowerAt before c after).length = (lowerAt before c after').length := by
  unfold lowerAt
  split
  · split <;> split <;> rfl
  · rfl

/-- **Lower case keeps a beginning**, unless it ends in a capital sigma and a letter is next. -/
theorem lowerAfter_prefix_iff (before t more : Text) :
    lowerAfter before t <+: lowerAfter before (t ++ more) ↔
      ¬(EndsInSigma before t ∧ meetsCased more) := by
  induction t generalizing before with
  | nil => simp [lowerAfter]
  | cons c t ih =>
    rw [List.cons_append, lowerAfter_cons, lowerAfter_cons, endsInSigma_cons, or_and_right, not_or,
      ← lowerAt_eq_iff, ← ih]
    constructor
    · -- the first pieces are of one length, so they are equal
      rintro ⟨rest, h⟩
      rw [List.append_assoc] at h
      obtain ⟨hfirst, hrest⟩ := List.append_inj h (lowerAt_length ..)
      exact ⟨hfirst, rest, hrest⟩
    · rintro ⟨hfirst, rest, hrest⟩
      exact ⟨rest, by rw [hfirst, List.append_assoc, hrest]⟩

theorem lower_prefix_iff (t more : Text) :
    t.lower <+: Text.lower (t ++ more) ↔ ¬(EndsInSigma [] t ∧ meetsCased more) :=
  lowerAfter_prefix_iff [] t more

theorem lowerAfter_length_le (before t more : Text) :
    (lowerAfter before t).length ≤ (lowerAfter before (t ++ more)).length := by
  induction t generalizing before with
  | nil => exact Nat.zero_le _
  | cons c t ih =>
    rw [List.cons_append, lowerAfter_cons, lowerAfter_cons, List.length_append, List.length_append,
      lowerAt_length before c t (t ++ more)]
    exact Nat.add_le_add_left (ih _) _

end Text

/-! ### Keys under a longer text -/

variable {keys : List Text} {typed more k : Text}

theorem mem_matchPrefix : k ∈ matchPrefix keys typed ↔ k ∈ keys ∧ typed.lower <+: k.lower := by
  rw [matchPrefix, List.mem_filter, Text.startsWith, List.isPrefixOf_iff_prefix]

/-- A key under both texts begins with both of them in lower case, so the shorter one is the
beginning of the longer one. -/
theorem lower_prefix_of_mem (hlong : k ∈ matchPrefix keys (typed ++ more))
    (hshort : k ∈ matchPrefix keys typed) : typed.lower <+: Text.lower (typed ++ more) :=
  List.prefix_of_prefix_length_le (mem_matchPrefix.mp hshort).2 (mem_matchPrefix.mp hlong).2
    (Text.lowerAfter_length_le [] typed more)

theorem matchPrefix_sublist (h : typed.lower <+: Text.lower (typed ++ more)) :
    (matchPrefix keys (typed ++ more)).Sublist (matchPrefix keys typed) := by
  refine List.monotone_filter_right keys fun k hk => ?_
  rw [Text.startsWith, List.isPrefixOf_iff_prefix] at hk ⊢
  exact h.trans hk

/-- **Typing more narrows the keys that are offered**, and a key is offered at each of its own
beginnings, except where the typed text ends in a capital sigma that closes a word and the first
character behind it that counts is a letter.  There a key is not offered at that beginning of its
own, and none that the longer text offers has been offered before. -/
theorem narrows_iff (keys : List Text) (typed more : Text) :
    (typed ++ more ∈ matchPrefix keys typed ↔
      typed ++ more ∈ keys ∧ ¬(Text.EndsInSigma [] typed ∧ Text.meetsCased more)) ∧
    ((matchPrefix keys (typed ++ more)).Sublist (matchPrefix keys typed) ↔
      ¬(Text.EndsInSigma [] typed ∧ Text.meetsCased more) ∨
        matchPrefix keys (typed ++ more) = []) := by
  rw [← Text.lower_prefix_iff]
  refine ⟨mem_matchPrefix, fun hsub => ?_, ?_⟩
  · rcases hlong : matchPrefix keys (typed ++ more) with - | ⟨k, rest⟩
    · exact .inr rfl
    · -- one key under both texts is enough to compare them in lower case
      have hk : k ∈ matchPrefix keys (typed ++ more) := by simp [hlong]
      exact .inl (lower_prefix_of_mem hk (hsub.subset hk))
  · rintro (hkept | hnone)
    · exact matchPrefix_sublist hkept
    · rw [hnone]
      exact List.nil_sublist _

/-- The key `ΑΣΑ` is not offered for its own beginning `ΑΣ`, whose lower case ends in a final sigma,
and is offered when the last letter is typed. -/
theorem not_offered_at_beginning :
    let typed : Text := ['Α', 'Σ']
    let more : Text := ['Α']
    typed ++ more ∉ matchPrefix [typed ++ more] typed ∧
    ¬(matchPrefix [typed ++ more] (typed ++ more)).Sublist (matchPrefix [typed ++ more] typed) := by
  decide +kernel

end LiveQuery
