/-
LiveQuery/Proofs/Display/Pieces.lean

Tidy lines in pieces.

A window shows a piece of a line, so that a number behind a colon may be shown in part only.  What
is left of it is still found by the letters at its head, and the markers and spaces that come behind
it are none: where every colon of a line has its space, every colon of a window on it has
(`Tidy.window`).
-/
import LiveQuery.Proofs.Display.Colours
import LiveQuery.Proofs.Display.Windows

namespace LiveQuery

namespace Display

open Text

variable {letter letter' : Char → Bool} {begins : Text → Bool} {t u : Text}

/-! ### What is found in pieces -/

/-- A predicate that finds something by the letters at the head of a text, in any longer text
too. -/
structure Finds (letter : Char → Bool) (begins : Text → Bool) : Prop where
  reads : Reads letter begins
  nil : ¬ begins []
  append : ∀ {t}, begins t → ∀ u, begins (t ++ u)

/-- More letters tell as much. -/
theorem Reads.mono {β : Type} {f : Text → β} (h : Reads letter f)
    (hletter : ∀ c, letter c → letter' c) : Reads letter' f := by
  intro t
  have hboth : (t.takeWhile letter').takeWhile letter = t.takeWhile letter := by
    rw [List.takeWhile_takeWhile]
    congr 1
    funext c
    by_cases hc : letter c
    · simp [hc, hletter c hc]
    · simp [hc]
  rw [← h (t.takeWhile letter'), hboth, h]

/-- What either of two predicates finds. -/
theorem Finds.or {begins' : Text → Bool} (h : Finds letter begins) (h' : Finds letter begins') :
    Finds letter (fun t => begins t || begins' t) where
  reads t := by
    show (begins (t.takeWhile letter) || begins' (t.takeWhile letter)) = (begins t || begins' t)
    rw [h.reads, h'.reads]
  nil := by simp [h.nil, h'.nil]
  append {t} ht u := by
    rw [Bool.or_eq_true] at ht ⊢
    exact ht.imp (fun hfirst => h.append hfirst u) (fun hsecond => h'.append hsecond u)

theorem digitsLength_append_le (t u : Text) : digitsLength t ≤ digitsLength (t ++ u) := by
  induction t with
  | nil => exact Nat.zero_le _
  | cons c rest ih =>
    by_cases hc : isDigit c
    · simpa [digitsLength, hc] using ih
    · simp [digitsLength, hc]

/-- There are digits, or digits behind a minus. -/
theorem wholeLength_ne_zero_iff (c : Char) (t : Text) :
    wholeLength (c :: t) ≠ 0 ↔ c = '-' ∧ digitsLength t ≠ 0 ∨ digitsLength (c :: t) ≠ 0 := by
  by_cases hc : c = '-' <;> by_cases hdigits : digitsLength t = 0 <;>
    simp [wholeLength, withLead, behindLead, hc, hdigits]

theorem heads_number_iff (t : Text) : heads numberLength? t ↔ wholeLength t ≠ 0 := by
  rw [heads, numberLength?_eq]
  split
  · next hnone => simp [hnone]
  · next hsome => simp [hsome]

theorem finds_number : Finds isNumberLetter (heads numberLength?) where
  reads := literal_number.reads_heads
  nil := by decide
  append {t} ht u := by
    rw [heads_number_iff] at ht ⊢
    cases t with
    | nil => exact absurd part_whole.nil ht
    | cons c rest =>
      -- the digits that make it a number are there in the longer text, and maybe more
      have hrest := digitsLength_append_le rest u
      have hall := digitsLength_append_le (c :: rest) u
      rw [List.cons_append] at hall ⊢
      rw [wholeLength_ne_zero_iff] at ht ⊢
      exact ht.imp (And.imp_right fun h => by omega) fun h => by omega

theorem finds_words {words : List Text} (hletters : ∀ w ∈ words, ∀ c ∈ w, letter c)
    (hempty : [] ∉ words) : Finds letter (heads (wordLength? words)) where
  reads t := by rw [heads, heads, reads_words hletters]
  nil := by
    intro h
    obtain ⟨n, hn⟩ := Option.isSome_iff_exists.mp h
    have := take_of_wordLength? hn
    rw [List.take_nil] at this
    exact hempty this
  append {t} ht u := by
    simp only [heads, wordLength?, Option.isSome_map, List.find?_isSome] at ht ⊢
    obtain ⟨w, hw, hhead⟩ := ht
    refine ⟨w, hw, ?_⟩
    rw [startsWith, List.isPrefixOf_iff_prefix] at hhead ⊢
    exact hhead.trans (List.prefix_append t u)

/-- The letters of what is painted behind a colon. -/
def isLiteralLetter (c : Char) : Bool := isNumberLetter c || "truefalsn".toList.contains c

theorem finds_literal : Finds isLiteralLetter startsLiteral := by
  have hnumber : Finds isLiteralLetter (heads numberLength?) :=
    { finds_number with reads := finds_number.reads.mono fun c hc => by simp [isLiteralLetter, hc] }
  have hwords (words : List Text) (h : (words.all fun w => w.all isLiteralLetter) = true)
      (hempty : [] ∉ words) : Finds isLiteralLetter (heads (wordLength? words)) :=
    finds_words (fun w hw c hc => List.all_eq_true.mp (List.all_eq_true.mp h w hw) c hc) hempty
  exact (hnumber.or (hwords boolWords (by decide) (by decide))).or
    (hwords nullWords (by decide) (by decide))

/-! ### Tidy texts in pieces -/

theorem Tidy.of_append_right (h : Tidy begins (t ++ u)) : Tidy begins u := by
  rintro before rest rfl hbegins
  exact h (t ++ before) rest (List.append_assoc _ _ _).symm hbegins

theorem trimLeft_append (t u : Text) (h : trimLeft t ≠ []) :
    trimLeft (t ++ u) = trimLeft t ++ u := by
  rw [trimLeft, List.dropWhile_append, if_neg (by rwa [List.isEmpty_iff])]
  rfl

/-- What is found in the first part of a text is found in the text. -/
theorem Tidy.of_append_left (hf : Finds letter begins) (h : Tidy begins (t ++ u)) :
    Tidy begins t := by
  rintro before rest rfl hbegins
  have hne : trimLeft rest ≠ [] := fun hnil => hf.nil (hnil ▸ hbegins)
  have htrim := trimLeft_append rest u hne
  have hspace : rest ++ u = ' ' :: trimLeft (rest ++ u) :=
    h before (rest ++ u) (by simp) (htrim ▸ hf.append hbegins u)
  rw [htrim, ← List.cons_append] at hspace
  exact List.append_cancel_right hspace

/-- A colon is in the first part of a text, where it is not in the second. -/
theorem colon_in_first {before rest : Text} (hcolon : ':' ∉ u)
    (heq : t ++ u = before ++ ':' :: rest) :
    ∃ rest', rest = rest' ++ u ∧ t = before ++ ':' :: rest' := by
  rcases List.append_eq_append_iff.mp heq with ⟨a, -, hu⟩ | ⟨a, ht, hrest⟩
  · exact absurd (hu ▸ List.mem_append_right a List.mem_cons_self) hcolon
  · cases a with
    | nil =>
      rw [List.nil_append] at hrest
      exact absurd (hrest ▸ List.mem_cons_self) hcolon
    | cons c a =>
      obtain ⟨rfl, rfl⟩ := List.cons_eq_cons.mp hrest
      exact ⟨a, rfl, ht⟩

/-- Behind a tidy text, characters that are no letters leave it tidy: nothing is found in them, and
what is found before them stays what it is. -/
theorem Tidy.append (hf : Finds letter begins) (h : Tidy begins t) (hcolon : ':' ∉ u)
    (hletter : ∀ c ∈ u, ¬ letter c) : Tidy begins (t ++ u) := by
  intro before rest heq hbegins
  obtain ⟨rest, rfl, ht⟩ := colon_in_first hcolon heq
  have hhead : ∀ c ∈ u.head?, ¬ letter c := fun c hc => hletter c (List.mem_of_mem_head? hc)
  have hne : trimLeft rest ≠ [] := by
    -- otherwise it would be found among what comes behind
    intro hnil
    have htrim : trimLeft (rest ++ u) = trimLeft u := by
      rw [trimLeft, List.dropWhile_append, if_pos (by rwa [List.isEmpty_iff])]
      rfl
    have hnone : (trimLeft u).takeWhile letter = [] := by
      rw [List.takeWhile_eq_nil_iff]
      intro hpos hc
      exact hletter _ ((List.dropWhile_sublist isBlank).subset (List.getElem_mem hpos)) hc
    rw [htrim, ← hf.reads, hnone] at hbegins
    exact hf.nil hbegins
  have htrim := trimLeft_append rest u hne
  rw [htrim, ← hf.reads, (span_append hhead _).1, hf.reads] at hbegins
  rw [htrim, ← List.cons_append, ← h before rest ht hbegins]

/-! ### Windows on tidy lines -/

/-- **A window on a tidy line** is tidy. -/
theorem Tidy.window [Glyphs] {line : Text} (h : Tidy startsLiteral line) (x width : Int) :
    Tidy startsLiteral (Display.window line x width).text := by
  obtain ⟨before, body, after, left, n, right, hline, htext⟩ := exists_window_text line x width
  have hbody : Tidy startsLiteral body := by
    rw [hline] at h
    exact (h.of_append_left finds_literal).of_append_right
  -- the markers and spaces are no colons, and no letters of a literal
  have htail : Tidy startsLiteral (body ++ (spaces n ++ markIf right)) := by
    refine hbody.append finds_literal (fun hc => ?_) fun c hc => ?_
    · rcases mem_fill hc with h | h <;> exact absurd h (by decide)
    · rcases mem_fill hc with rfl | rfl <;> decide
  rw [htext]
  cases left with
  | false => exact htail
  | true => exact tidy_cons_iff.mpr ⟨fun h => absurd h (by decide), htail⟩

end Display

end LiveQuery
