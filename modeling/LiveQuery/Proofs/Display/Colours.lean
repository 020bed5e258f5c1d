/-
LiveQuery/Proofs/Display/Colours.lean

What is left of a line when its colours are taken off again.

The passes for brackets, keys and strings only put sequences in.  The passes for numbers, booleans
and null also rewrite what stands before the literal: a colon and any blanks become a colon and
one space.  They do so wherever there is a colon, inside strings too, so that a line comes back as
it was exactly where each of these colons has one space behind it.

Design.  A text with marks is taken through the passes (`Repaints`), each of which adds the edges of
its own pieces to the marks: brackets and quotation marks first, then digits and the minus, then the
edges of the words.  No pass looks for letters that an earlier one has marked.

Main results: what is seen of a painted line (`plain_paint`), and when it is the line itself
(`plain_paint_eq_iff`).
-/
import LiveQuery.Proofs.Display.Literals
import LiveQuery.Proofs.Display.Styled
import LiveQuery.Proofs.Json.Printed

namespace LiveQuery

namespace Display

open Text

/-! ### Brackets -/

/-- The characters next to which the first three passes put sequences. -/
def isMark (c : Char) : Bool := c = '"' || c = '{' || c = '}' || c = '[' || c = ']'

theorem styled_brackets {after : Bool} {t : Text} (h : esc ∉ t) :
    Styled isMark after (substitute bracketRule t) t := by
  induction t generalizing after with
  | nil => exact .nil
  | cons c rest ih =>
    rw [List.mem_cons, not_or] at h
    by_cases hc : c = '{' || c = '}' || c = '[' || c = ']'
    · have hrule : bracketRule (c :: rest) = some (painted bracketColour [c], 0 + 1) := by
        rw [bracketRule, if_pos hc]
      have hmark : isMark c := by
        simp only [isMark, Bool.or_eq_true, decide_eq_true_eq] at hc ⊢
        tauto
      have hrest : Styled isMark after (substitute bracketRule rest) rest := ih h.2
      rw [substitute_replace hrule]
      exact Styled.painted ⟨"37", by decide, rfl⟩ (by simpa using h.1) ⟨c, rfl, hmark⟩
        ⟨c, rfl, hmark⟩ hrest after
    · have hrule : bracketRule (c :: rest) = none := by rw [bracketRule, if_neg hc]
      rw [substitute_keep hrule]
      exact .char (fun hesc => h.1 hesc.symm) (ih h.2)

/-! ### Keys -/

theorem not_inSequence_quote : ¬ InSequence '"' := by
  rintro (h | h | h | h) <;> revert h <;> decide

/-- What is found at quotation marks only is not found in a sequence. -/
theorem none_of_inSequence {rule : Rule} {c : Char} (hc : InSequence c)
    (hquote : ∀ {t out n}, rule t = some (out, n) → ∃ u, t = '"' :: u) (t : Text) :
    rule (c :: t) = none := by
  rcases h : rule (c :: t) with - | ⟨out, n⟩
  · rfl
  · obtain ⟨u, heq⟩ := hquote h
    obtain ⟨rfl, -⟩ := List.cons_eq_cons.mp heq
    exact absurd hc not_inSequence_quote

theorem not_inSequence_colon : ¬ InSequence ':' := by
  rintro (h | h | h | h) <;> revert h <;> decide

theorem esc_not_mem_of_blanks {blanks : Text} (h : ∀ b ∈ blanks, isBlank b) : esc ∉ blanks :=
  fun hesc => absurd (h esc hesc) (by decide)

/-- A key is a name between quotation marks, before blanks and a colon. -/
theorem keyRule_some {t out : Text} {n : Nat} (h : keyRule t = some (out, n)) :
    ∃ name blanks more, t = '"' :: (name ++ '"' :: (blanks ++ ':' :: more)) ∧
      (∀ b ∈ blanks, isBlank b) ∧
      out = '"' :: (painted keyColour name ++ '"' :: (blanks ++ [':'])) ∧
      n = name.length + blanks.length + 2 + 1 := by
  unfold keyRule at h
  split at h
  · next rest =>
    simp only [drop_takeWhile] at h
    split at h
    · cases h
    · next after hafter _ =>
      split at h
      · next more hmore =>
        simp only [Option.some.injEq, Prod.mk.injEq] at h
        obtain ⟨rfl, rfl⟩ := h
        refine ⟨_, _, more, ?_, fun b hb => List.mem_takeWhile_imp hb, rfl, by omega⟩
        rw [← hmore, List.takeWhile_append_dropWhile, ← hafter, List.takeWhile_append_dropWhile]
      · cases h
    · cases h
  · cases h

theorem repaints_keys : Repaints isMark isMark keyRule id where
  marks _ := id
  sequences c hc := none_of_inSequence hc fun h => by
    obtain ⟨_, _, _, heq, -⟩ := keyRule_some h
    exact ⟨_, heq⟩
  nil := rfl
  head c s := ⟨s, rfl⟩
  step {c t s} hc h := by
    rcases hrule : keyRule (c :: t) with - | ⟨out, n⟩
    · exact .inl ⟨rfl, rfl⟩
    · obtain ⟨name, blanks, more, heq, hblanks, rfl, rfl⟩ := keyRule_some hrule
      obtain ⟨rfl, rfl⟩ := List.cons_eq_cons.mp heq
      -- the name may have been styled, the blanks and the colon have not
      obtain ⟨name', s', rfl, hbehind, hjoin⟩ := h.split not_inSequence_quote
      obtain ⟨after, s'', rfl, hcolon⟩ :=
        Styled.append_inv (esc_not_mem_of_blanks hblanks) hbehind
      obtain ⟨rest, rfl, hmore⟩ := hcolon.cons_inv (by decide)
      have hdrop : (name ++ '"' :: (blanks ++ ':' :: more)).drop (name.length + blanks.length + 2)
          = more := by
        have heq : name ++ '"' :: (blanks ++ ':' :: more)
            = (name ++ '"' :: (blanks ++ [':'])) ++ more := by simp
        rw [heq]
        exact List.drop_left' (by simp; omega)
      refine .inr ⟨_, _, _, rest, rfl, by rwa [hdrop], fun y hy before => ?_⟩
      have hend : ∀ after, Styled isMark after (reset ++ '"' :: (blanks ++ ':' :: y))
          ('"' :: (blanks ++ ':' :: rest)) := fun after =>
        Styled.coloured Styled.isColour_reset (.inr ⟨_, rfl, rfl⟩) (.char (by decide)
          (Styled.append (esc_not_mem_of_blanks hblanks) (fun _ => .char (by decide) hy) _))
      have hcolour : IsColour keyColour := ⟨"36", by decide, rfl⟩
      have hkey : Styled isMark before
          ('"' :: (keyColour ++ (name ++ (reset ++ '"' :: (blanks ++ ':' :: y)))))
          ('"' :: (name' ++ '"' :: (blanks ++ ':' :: rest))) :=
        .char (by decide) (Styled.coloured hcolour (.inl rfl) (hjoin _ _ hend))
      simpa [painted] using hkey

/-! ### Strings -/

/-- A string ends with a quotation mark. -/
theorem stringLength?_some {t : Text} {n : Nat} (h : stringLength? t = some n) :
    ∃ u v, t = u ++ '"' :: v ∧ n = u.length + 1 := by
  induction t using stringLength?.induct generalizing n with
  | case1 => cases h
  | case2 rest =>
    cases h
    exact ⟨[], rest, rfl, rfl⟩
  | case3 rest => simp [stringLength?] at h
  | case4 c rest hc ih =>
    rw [stringLength?, if_neg hc] at h
    obtain ⟨m, hm, rfl⟩ := Option.map_eq_some_iff.mp h
    obtain ⟨u, v, rfl, rfl⟩ := ih hm
    exact ⟨'\\' :: c :: u, v, rfl, rfl⟩
  | case5 => simp [stringLength?] at h
  | case6 c rest hquote hescape hlast ih =>
    rw [stringLength?] at h
    · obtain ⟨m, hm, rfl⟩ := Option.map_eq_some_iff.mp h
      obtain ⟨u, v, rfl, rfl⟩ := ih hm
      exact ⟨c :: u, v, rfl, rfl⟩
    · exact hquote
    · exact hescape
    · exact hlast

theorem stringRule_some {t out : Text} {n : Nat} (h : stringRule t = some (out, n)) :
    ∃ u v, t = '"' :: (u ++ '"' :: v) ∧ n = u.length + 1 + 1 ∧
      (out = '"' :: (u ++ ['"']) ∨ out = painted stringColour ('"' :: (u ++ ['"']))) := by
  unfold stringRule at h
  split at h
  · next rest =>
    split at h
    · next m hm =>
      obtain ⟨u, v, rfl, rfl⟩ := stringLength?_some hm
      have htake : (u ++ '"' :: v).take (u.length + 1) = u ++ ['"'] := by
        simp [List.take_append, List.take_of_length_le]
      simp only [Option.some.injEq, Prod.mk.injEq, htake] at h
      obtain ⟨rfl, rfl⟩ := h
      refine ⟨u, v, rfl, rfl, ?_⟩
      split
      · exact .inl rfl
      · exact .inr rfl
    · cases h
  · cases h

theorem repaints_strings : Repaints isMark isMark stringRule id where
  marks _ := id
  sequences c hc := none_of_inSequence hc fun h => by
    obtain ⟨_, _, heq, -⟩ := stringRule_some h
    exact ⟨_, heq⟩
  nil := rfl
  head c s := ⟨s, rfl⟩
  step {c t s} hc h := by
    rcases hrule : stringRule (c :: t) with - | ⟨out, n⟩
    · exact .inl ⟨rfl, rfl⟩
    · obtain ⟨u, v, heq, rfl, hout⟩ := stringRule_some hrule
      obtain ⟨rfl, rfl⟩ := List.cons_eq_cons.mp heq
      obtain ⟨u', s', rfl, hbehind, hjoin⟩ := h.split not_inSequence_quote
      have hdrop : (u ++ '"' :: v).drop (u.length + 1) = v := by simp [List.drop_append]
      refine .inr ⟨out, _, _, s', rfl, by rwa [hdrop], fun y hy before => ?_⟩
      rcases hout with rfl | rfl
      · -- a string with a sequence in it stays as it is
        have hstring : Styled isMark before ('"' :: (u ++ '"' :: y)) ('"' :: (u' ++ '"' :: s')) :=
          .char (by decide) (hjoin _ _ fun _ => .char (by decide) hy)
        simpa using hstring
      · have hend (after : Bool) : Styled isMark after ('"' :: (reset ++ y)) ('"' :: s') :=
          .char (by decide) (Styled.coloured Styled.isColour_reset (.inl rfl) hy)
        have hstring : Styled isMark before ('"' :: (u ++ '"' :: (reset ++ y)))
            ('"' :: (u' ++ '"' :: s')) := .char (by decide) (hjoin _ _ hend)
        have hcolour : IsColour stringColour := ⟨"32", by decide, rfl⟩
        simpa [painted] using Styled.coloured hcolour (.inr ⟨_, rfl, rfl⟩) hstring

/-! ### Literals behind colons -/

section Literals

variable {letter edge mark : Char → Bool} {piece : Text → Option Nat} {colour : Text}

/-- Whether a piece stands at the head of a text. -/
def heads (piece : Text → Option Nat) (t : Text) : Bool := (piece t).isSome

theorem Literal.reads_heads (hl : Literal letter edge piece) : Reads letter (heads piece) := by
  intro t
  rw [heads, heads, hl.reads]

theorem afterColon_ne {c : Char} (hc : c ≠ ':') (t : Text) :
    afterColon colour piece (c :: t) = none := by
  unfold afterColon
  split
  · next heq => exact absurd (List.cons_eq_cons.mp heq).1 hc
  · rfl

theorem afterColon_eq (t : Text) :
    afterColon colour piece (':' :: t) = (piece (trimLeft t)).map fun n =>
      (':' :: ' ' :: painted colour ((trimLeft t).take n),
        (t.takeWhile isBlank).length + n + 1) := by
  rw [afterColon, trimLeft]
  simp only [drop_takeWhile]
  cases piece (t.dropWhile isBlank) with
  | none => rfl
  | some n => rfl

/-- A literal without marks is found in a styled text where it is found in the text itself. -/
theorem Literal.piece_eq (hl : Literal letter edge piece)
    (hletter : ∀ c, letter c → c ≠ esc ∧ c ≠ ':' ∧ mark c = false) {t s : Text}
    (h : Styled mark false t s) : piece t = piece s := by
  have hsame := (h.takeWhile_dropWhile (p := letter)
    fun d hd => ⟨(hletter d hd).1, (hletter d hd).2.2⟩).1
  rw [← hl.reads, ← hl.reads s]
  exact congrArg piece hsame

/-- A pass for literals puts one space before each of them. -/
theorem repaints_literals (hcolour : IsColour colour) (hl : Literal letter edge piece)
    (hletter : ∀ c, letter c → c ≠ esc ∧ c ≠ ':' ∧ mark c = false)
    (hblank : ∀ c, isBlank c → mark c = false) (hcolon : mark ':' = false) :
    Repaints mark (fun c => mark c || edge c) (afterColon colour piece) (spaced (heads piece)) where
  marks c hc := by simp [hc]
  sequences c hc t := afterColon_ne (fun h => not_inSequence_colon (h ▸ hc)) t
  nil := rfl
  head := exists_spaced_cons
  step {c t s} hc h := by
    by_cases hne : c = ':'
    · subst hne
      rw [hcolon] at h
      -- the blanks are the same on both sides, and so is the literal behind them
      have hbody : Styled mark false (trimLeft t) (trimLeft s) :=
        (h.takeWhile_dropWhile (p := isBlank)
          fun b hb => ⟨fun hesc => absurd (hesc ▸ hb) (by decide), hblank b hb⟩).2
      have hpiece : piece (trimLeft t) = piece (trimLeft s) := hl.piece_eq hletter hbody
      rw [afterColon_eq, spaced_colon, heads, ← hpiece]
      rcases hfound : piece (trimLeft t) with - | n
      · exact .inl ⟨rfl, rfl⟩
      · have hletters := hl.letters hfound
        have hesc : esc ∉ (trimLeft t).take n := fun h => (hletter esc (hletters esc h)).1 rfl
        have hnocolon : ':' ∉ (trimLeft t).take n :=
          fun h => (hletter ':' (hletters ':' h)).2.1 rfl
        have hwhole := List.take_append_drop n (trimLeft t)
        rw [← hwhole] at hbody
        obtain ⟨after, s', hshown, hrest⟩ := Styled.append_inv hesc hbody
        refine .inr ⟨_, _, after, s', rfl, ?_, fun y hy before => ?_⟩
        · rw [← List.drop_drop, drop_takeWhile]
          exact hrest
        · obtain ⟨b, hb, hbedge⟩ := hl.begins hfound
          obtain ⟨e, he, heedge⟩ := hl.ends hfound
          rw [hshown, spaced_append hnocolon]
          refine .char (by decide) (.char (by decide) ?_)
          exact Styled.painted hcolour hesc ⟨b, hb, by simp [hbedge]⟩ ⟨e, he, by simp [heedge]⟩ hy _
    · exact .inl ⟨afterColon_ne hne t, spaced_cons hne s⟩

end Literals

/-! ### The three passes for literals -/

theorem isDigit_eq_false_of_isBlank {c : Char} (h : isBlank c) : isDigit c = false := by
  -- each run of ten digits lies before or behind each range of blanks
  have hfar : ∀ z ∈ digitZeros, ∀ r ∈ (0x1C, 0x1F) :: spaceRanges, z + 10 ≤ r.1 ∨ r.2 < z := by
    decide
  by_contra hdigit
  simp only [isDigit, digitValue?, Bool.not_eq_false, Option.isSome_map, List.find?_isSome,
    Bool.and_eq_true, decide_eq_true_eq] at hdigit
  obtain ⟨z, hz, hlow, hhigh⟩ := hdigit
  have hrange : ∃ r ∈ (0x1C, 0x1F) :: spaceRanges, r.1 ≤ c.toNat ∧ c.toNat ≤ r.2 := by
    simp only [isBlank, isSpace, Ranges.has, Bool.or_eq_true, List.any_eq_true,
      Bool.and_eq_true, decide_eq_true_eq] at h
    rcases h with ⟨r, hr, hin⟩ | ⟨r, hr, hin⟩
    · exact ⟨r, List.mem_cons_of_mem _ hr, hin⟩
    · exact ⟨r, by simpa using .inl (List.mem_singleton.mp hr), hin⟩
  obtain ⟨r, hr, hfrom, hto⟩ := hrange
  have := hfar z hz r hr
  omega

/-- The marks after the passes for numbers, for booleans and for null. -/
def isNumberMark (c : Char) : Bool := isMark c || isNumberEdge c
def isBoolMark (c : Char) : Bool := isNumberMark c || (c = 't' || c = 'f' || c = 'e')
def isNullMark (c : Char) : Bool := isBoolMark c || (c = 'n' || c = 'l')

/-- The words that are painted. -/
def boolWords : List Text := ["true".toList, "false".toList]
def nullWords : List Text := ["null".toList]

theorem ne_of_letter {letter : Char → Bool} {c q : Char} (hq : letter q = false) (hc : letter c) :
    c ≠ q := by
  rintro rfl
  simp [hq] at hc

theorem isMark_eq_false {letter : Char → Bool}
    (h : ['"', '{', '}', '[', ']'].any letter = false) {c : Char} (hc : letter c) :
    isMark c = false := by
  have hne : ∀ q ∈ ['"', '{', '}', '[', ']'], c ≠ q := fun q hq =>
    ne_of_letter (Bool.eq_false_iff.mpr (List.any_eq_false.mp h q hq)) hc
  simpa [isMark, and_assoc] using hne

theorem isBoolMark_eq_false_of_isBlank {c : Char} (h : isBlank c) : isBoolMark c = false := by
  have hne (q : Char) (hq : isBlank q = false) : c ≠ q := ne_of_letter hq h
  simp [isBoolMark, isNumberMark, isMark_eq_false (by decide) h, isNumberEdge,
    isDigit_eq_false_of_isBlank h, hne '-' (by decide), hne 't' (by decide), hne 'f' (by decide),
    hne 'e' (by decide)]

theorem repaints_numbers :
    Repaints isMark isNumberMark numberRule (spaced (heads numberLength?)) := by
  refine repaints_literals ⟨"33", by decide, rfl⟩ literal_number (fun c hc => ?_)
    (fun c hc => isMark_eq_false (by decide) hc) (by decide)
  exact ⟨ne_of_letter (by decide) hc, ne_of_letter (by decide) hc, isMark_eq_false (by decide) hc⟩

theorem literal_bool :
    Literal (fun c => "truefalse".toList.contains c) (fun c => c = 't' || c = 'f' || c = 'e')
      (wordLength? boolWords) :=
  literal_words (by decide) (by decide) (by decide)

theorem literal_null :
    Literal (fun c => "null".toList.contains c) (fun c => c = 'n' || c = 'l')
      (wordLength? nullWords) :=
  literal_words (by decide) (by decide) (by decide)

/-- Letters that are none of the characters a pass must not read. -/
theorem letters_apart {mark : Char → Bool} {letters : Text}
    (h : letters.all fun c => c ≠ esc && c ≠ ':' && !mark c) {c : Char} (hc : c ∈ letters) :
    c ≠ esc ∧ c ≠ ':' ∧ mark c = false := by
  simpa [and_assoc] using List.all_eq_true.mp h c hc

theorem repaints_bools :
    Repaints isNumberMark isBoolMark boolRule (spaced (heads (wordLength? boolWords))) := by
  refine repaints_literals ⟨"35", by decide, rfl⟩ literal_bool (fun c hc => ?_)
    (fun c hc => ?_) (by decide)
  · exact letters_apart (by decide) (List.contains_iff_mem.mp hc)
  · exact (Bool.or_eq_false_iff.mp (isBoolMark_eq_false_of_isBlank hc)).1

theorem repaints_nulls :
    Repaints isBoolMark isNullMark nullRule (spaced (heads (wordLength? nullWords))) := by
  refine repaints_literals ⟨"90", by decide, rfl⟩ literal_null (fun c hc => ?_)
    (fun c hc => isBoolMark_eq_false_of_isBlank hc) (by decide)
  exact letters_apart (by decide) (List.contains_iff_mem.mp hc)

/-! ### All passes -/

/-- Whether a number, a boolean or null stands at the head of a text. -/
def startsLiteral (t : Text) : Bool :=
  heads numberLength? t || heads (wordLength? boolWords) t || heads (wordLength? nullWords) t

/-- **What is seen of a painted line**: the line with one space between each colon and the literal
behind it. -/
theorem plain_paint {line : Text} (h : esc ∉ line) :
    plain (paint line) = spaced startsLiteral line := by
  have hbrackets : Styled isMark false (substitute bracketRule line) line := styled_brackets h
  have hstrings := repaints_strings.substitute (repaints_keys.substitute hbrackets)
  have hstyled := repaints_nulls.substitute (repaints_bools.substitute
    (repaints_numbers.substitute hstrings))
  calc plain (paint line)
      = spaced (heads (wordLength? nullWords)) (spaced (heads (wordLength? boolWords))
          (spaced (heads numberLength?) line)) := hstyled.plain_eq
    _ = spaced startsLiteral line := by
        rw [spaced_spaced literal_bool.reads_heads (by decide),
          spaced_spaced literal_null.reads_heads (by decide)]
        rfl

/-- **A line comes back as it was** when its colours are taken off, exactly where each number,
boolean and null behind a colon has one space before it.  The line may be any that holds no
sequence of its own, and any line of a printed value is one of these. -/
theorem plain_paint_eq_iff {line : Text} (h : esc ∉ line ∨ ∃ v : Value, line ∈ lines v.pretty) :
    plain (paint line) = line ↔ Tidy startsLiteral line := by
  have hesc : esc ∉ line := by
    rcases h with hesc | ⟨v, hline⟩
    · exact hesc
    · exact fun hesc => absurd (Value.visible_of_mem_lines hline esc hesc) (by decide)
  rw [plain_paint hesc, spaced_eq_self_iff]

/-- A printed line that keeps its blanks, behind both of its colons, and a line that does not. -/
theorem plain_paint_eq_iff_printed :
    let v := Value.object [("at: 12".toList, .int 34)]
    let line := "  \"at: 12\": 34".toList
    let tab := ":\tnull".toList
    (line ∈ lines v.pretty ∧ plain (paint line) = line ∧ Tidy startsLiteral line) ∧
      esc ∉ tab ∧ plain (paint tab) = ": null".toList ∧ ¬ Tidy startsLiteral tab := by
  intro v line tab
  have hline : line ∈ lines v.pretty := by decide +kernel
  have hkeeps : plain (paint line) = line := by decide +kernel
  have hesc : esc ∉ tab := by decide
  have hmoves : plain (paint tab) = ": null".toList := by decide +kernel
  refine ⟨⟨hline, hkeeps, (plain_paint_eq_iff (.inr ⟨v, hline⟩)).mp hkeeps⟩, hesc, hmoves, ?_⟩
  intro htidy
  have hsame := (plain_paint_eq_iff (.inl hesc)).mpr htidy
  rw [hmoves] at hsame
  exact absurd hsame (by decide)

/-- A printed string in which the digits behind a colon are moved. -/
theorem plain_paint_ne :
    let line := "  \"t\": \"12:30\"".toList
    line ∈ lines (Value.object [("t".toList, .string "12:30".toList)]).pretty ∧ esc ∉ line ∧
      plain (paint line) = "  \"t\": \"12: 30\"".toList ∧ plain (paint line) ≠ line := by
  decide +kernel

end Display

end LiveQuery
