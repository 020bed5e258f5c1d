/-
LiveQuery/Proofs/Display/Scrolling.lean

What can be scrolled into view.

The offsets at which a window may stand are counted in cells of the lines: from the first cell to
the one at which the widest line would just fill the window.  The markers take cells of the window
away again, and the last offset leaves no room for what they hide: there the right side is not
reported as cut off, but the marker of the left side pushes the last character out.

Design.  A window shows the characters that end behind its first cell and at or before its last
one (`shows_iff`).  Away from the start of the line the last cell only grows with the offset
(`lastCell_mono`), so that a character that comes into view at all does so at its own first cell or
at one of the ends of the range.

Main result: `shows_within_iff`.
-/
import LiveQuery.Display.Wide
import LiveQuery.Proofs.Display.Windows
import LiveQuery.Proofs.Path.Stream
import LiveQuery.Proofs.Session.Inputs

namespace LiveQuery

namespace Display

open Text

section

variable [Glyphs] {line : Text} {x y width : Int} {i : Nat}

/-- The window on a line shows the character at a position between its markers. -/
def Shows (line : Text) (x width : Int) (i : Nat) : Prop :=
  let first := (line.fit (firstCell line x)).length
  first ≤ i ∧ i < first + (piece line x width).length

instance (line : Text) (x width : Int) (i : Nat) : Decidable (Shows line x width i) :=
  inferInstanceAs (Decidable (_ ∧ _))

/-- The cells of the characters that end at or before the first cell. -/
def passed (line : Text) (x : Int) : Nat := (line.fit (firstCell line x)).width

/-- The cell at or before which a character has to end if the window is to show it. -/
def lastCell (line : Text) (x width : Int) : Nat := passed line x + room line x width

/-- **A character is shown** where it ends behind the first cell and at or before the last. -/
theorem shows_iff (hi : i < line.length) :
    Shows line x width i ↔
      firstCell line x < line.cellAt (i + 1) ∧ line.cellAt (i + 1) ≤ lastCell line x width := by
  have hbehind : (line.fit (firstCell line x)).length ≤ i ↔
      firstCell line x < line.cellAt (i + 1) := by
    rw [← Nat.not_lt, lt_length_fit_iff hi, Nat.not_le]
  rw [Shows, hbehind]
  refine and_congr_right fun hfirst => ?_
  rw [← hbehind] at hfirst
  -- the piece is cut from what comes behind the characters that are passed over
  have hline := fit_append_dropCells (firstCell line x) line
  rw [lastCell, passed, piece]
  generalize line.fit (firstCell line x) = before at hline hfirst ⊢
  generalize dropCells (firstCell line x) line = rest at hline ⊢
  subst hline
  have hcell : Text.cellAt (before ++ rest) (i + 1) =
      before.width + Text.cellAt rest (i - before.length + 1) := by
    rw [cellAt, List.take_append, List.take_of_length_le (by omega), Nat.sub_add_comm hfirst,
      width_append, ← cellAt]
  have hlength : i - before.length < rest.length := by
    rw [List.length_append] at hi
    omega
  rw [hcell, Nat.add_le_add_iff_left, ← lt_length_fit_iff hlength]
  omega

/-! ### The first cell -/

/-- One character may begin before the first cell and end behind it. -/
theorem passed_le_firstCell (line : Text) (x : Int) : passed line x ≤ firstCell line x :=
  width_fit_le _ line

theorem firstCell_le (hwide : ∀ c, cells c ≤ 2) (line : Text) (x : Int) :
    firstCell line x ≤ passed line x + 1 :=
  le_width_fit hwide (Nat.min_le_right _ _)

theorem firstCell_mono (line : Text) (hxy : x ≤ y) : firstCell line x ≤ firstCell line y := by
  unfold firstCell
  omega

theorem passed_mono (line : Text) (hxy : x ≤ y) : passed line x ≤ passed line y := by
  have hfit : line.fit (firstCell line x) <+: line.fit (firstCell line y) := by
    rw [← Nat.min_eq_left (firstCell_mono line hxy), ← fit_fit]
    exact fit_isPrefix _ _
  exact width_le_of_prefix hfit

/-! ### The last cell -/

/-- A clip ends where the line does, or within one cell of the edge of the window. -/
theorem clip_ends (hwide : ∀ c, cells c ≤ 2) (h : 0 < width) (line : Text) (x : Int) :
    (clip line x width).text.width ≤ width.toNat ∧
    (passed line x + width.toNat < line.width →
      width.toNat ≤ (clip line x width).text.width + 1) ∧
    (line.width ≤ passed line x + width.toNat →
      passed line x + (clip line x width).text.width = line.width) := by
  have hsum : passed line x + (dropCells (firstCell line x) line).width = line.width :=
    width_fit_add_dropCells _ _
  rw [clip_text h]
  refine ⟨width_fit_le _ _, fun hlong => le_width_fit hwide (by omega), fun hshort => ?_⟩
  rw [fit_of_width_le (by omega), hsum]

/-- One cell is taken off for each marker. -/
theorem lastCell_eq (h : 0 < width) (line : Text) (x : Int) :
    lastCell line x width = passed line x + (width.toNat - ((if 0 < x then 1 else 0) +
      if firstCell line x + (clip line x width).text.width < line.width then 1 else 0)) := by
  have hnat (b : Bool) : b.toNat = if b = true then 1 else 0 := by cases b <;> rfl
  simp only [lastCell, room, hnat, clip_left h, clip_right h]

/-- **The last cell grows with the offset**, behind the start of the line. -/
theorem lastCell_mono (hwide : ∀ c, cells c ≤ 2) (h : 0 < width) (line : Text) (hx : 0 < x)
    (hxy : x ≤ y) :
    lastCell line x width ≤ lastCell line y width := by
  have hpassed := passed_mono line hxy
  rw [lastCell_eq h, lastCell_eq h, if_pos hx, if_pos (show 0 < y by omega)]
  rcases Nat.eq_or_lt_of_le (firstCell_mono line hxy) with heq | hlt
  · have hsame : (clip line x width).text = (clip line y width).text := by
      rw [clip_text h, clip_text h, heq]
    rw [hsame, heq]
    omega
  · -- a window that is cut off on the right is so at every offset before
    obtain ⟨-, hlong, hshort⟩ := clip_ends hwide h line y
    have hx := (clip_ends hwide h line x).1
    have hy := passed_le_firstCell line y
    split_ifs <;> omega

/-! ### Offsets -/

theorem firstCell_of_le (hx : x.toNat ≤ line.width) : firstCell line x = x.toNat :=
  Nat.min_eq_left hx

/-- A window of four cells shows each character at the offset at which it begins. -/
theorem shows_at_cellAt (hwide : ∀ c, cells c ≤ 2) (h : 4 ≤ width) (hi : i < line.length) :
    Shows line (line.cellAt i) width i := by
  have hfirst : firstCell line (line.cellAt i) = line.cellAt i :=
    firstCell_of_le (cellAt_le_width line i)
  have hpassed : passed line (line.cellAt i) = line.cellAt i := by
    rw [passed, hfirst, fit_cellAt, ← cellAt]
  obtain ⟨hone, htwo⟩ := cellAt_lt_succ hwide hi
  rw [shows_iff hi, hfirst, lastCell_eq (by omega), hpassed]
  split_ifs <;> omega

/-- What comes into view behind the start of the line stays in view up to the offset at which it
ends. -/
theorem Shows.mono (hs : Shows line x width i) (hwide : ∀ c, cells c ≤ 2) (h : 0 < width)
    (hi : i < line.length) (hx : 0 < x) (hxy : x ≤ y) (hy : y < line.cellAt (i + 1)) :
    Shows line y width i := by
  have hends := cellAt_le_width line (i + 1)
  have hmono := lastCell_mono hwide h line hx hxy
  have hfirst : firstCell line y = y.toNat := firstCell_of_le (by omega)
  rw [shows_iff hi] at hs ⊢
  omega

/-- A line that fits is shown whole. -/
theorem shows_of_fits (hwide : ∀ c, cells c ≤ 2) (h : 0 < width) (hfits : line.width ≤ width)
    (hi : i < line.length) :
    Shows line 0 width i := by
  obtain ⟨hone, htwo⟩ := cellAt_lt_succ hwide hi
  have hends := cellAt_le_width line (i + 1)
  have hshort := (clip_ends hwide h line 0).2.2
  have hfirst : firstCell line 0 = 0 := firstCell_of_le (Nat.zero_le _)
  have hpassed := passed_le_firstCell line 0
  rw [shows_iff hi, lastCell_eq h]
  split_ifs <;> omega

/-- The last character of a line that is too wide is not shown, as long as the window does not
reach beyond the end of the line. -/
theorem not_shows_last (h : 0 < width) (hlong : width < line.width) (hlast : i + 1 = line.length)
    (hx : 0 ≤ x) (hend : x + width ≤ line.width) : ¬ Shows line x width i := by
  intro hs
  have hwhole : line.cellAt (i + 1) = line.width := by rw [hlast, cellAt_length]
  have hpassed := passed_le_firstCell line x
  have hfirst : firstCell line x ≤ x.toNat := Nat.min_le_left _ _
  rw [shows_iff (by omega), lastCell_eq h, hwhole] at hs
  -- the left marker takes the cell in which the line would end
  obtain ⟨-, hs⟩ := hs
  split_ifs at hs <;> omega

/-- **What can be scrolled into view**, in a window of four cells or more, where no character takes
more than two.  A character can be, at
an offset up to the last one, exactly if it begins there or before, or one of the two outermost
offsets shows it.  This holds of every character of a line that fits, of a line narrower than the
widest one by two cells, and of all that ends three cells before the end of its line.  It never
holds of the last character of the widest line, where that does not fit. -/
theorem shows_within_iff (hwide : ∀ c, cells c ≤ 2) (h : 4 ≤ width) {lines : List Text}
    (hline : line ∈ lines) (hi : i < line.length) :
    let last : Int := max 0 (maxWidth lines - width)
    let reachable := ∃ x, 0 ≤ x ∧ x ≤ last ∧ Shows line x width i
    (reachable ↔ line.cellAt i ≤ last ∨ Shows line 0 width i ∨ Shows line last width i) ∧
    (line.width ≤ width ∨ line.width + 2 ≤ maxWidth lines ∨ line.cellAt (i + 1) + 3 ≤ line.width →
      reachable) ∧
    (line.width = maxWidth lines → width < line.width → i + 1 = line.length → ¬ reachable) := by
  intro last reachable
  have hpos : 0 < width := by omega
  have hwidest : line.width ≤ maxWidth lines := le_maxWidth hline
  obtain ⟨hone, htwo⟩ := cellAt_lt_succ hwide hi
  have hends := cellAt_le_width line (i + 1)
  have hown (hcell : line.cellAt i ≤ last) : reachable :=
    ⟨line.cellAt i, by omega, hcell, shows_at_cellAt hwide h hi⟩
  have hzero (hs : Shows line 0 width i) : reachable := ⟨0, by omega, by omega, hs⟩
  have hlast (hs : Shows line last width i) : reachable := ⟨last, by omega, by omega, hs⟩
  refine ⟨⟨?_, ?_⟩, ?_, ?_⟩
  · rintro ⟨x, hx, hxlast, hs⟩
    rcases Int.lt_or_eq_of_le hx with hx | rfl
    · by_cases hbefore : line.cellAt i ≤ last
      · exact .inl hbefore
      · exact .inr (.inr (hs.mono hwide hpos hi hx hxlast (by omega)))
    · exact .inr (.inl hs)
  · rintro (hbefore | hs | hs)
    · exact hown hbefore
    · exact hzero hs
    · exact hlast hs
  · intro hcase
    by_cases hfits : line.width ≤ width
    · exact hzero (shows_of_fits hwide hpos hfits hi)
    · by_cases hbefore : line.cellAt i ≤ last
      · exact hown hbefore
      · -- behind the last offset, the markers hide no more than three cells
        have hfirst : firstCell line last = last.toNat := firstCell_of_le (by omega)
        have hpassed := firstCell_le hwide line last
        have hshort := (clip_ends hwide hpos line last).2.2
        refine hlast ?_
        rw [shows_iff hi, lastCell_eq hpos]
        split_ifs <;> omega
  · rintro hwidest' hlong hlastchar ⟨x, hx, hxlast, hs⟩
    exact not_shows_last hpos hlong hlastchar hx (by omega) hs

end

/-- The letter between two wide characters is in view at the first offset only: at the other one
the first character is shown whole, and the last one cut off. -/
theorem shows_within_iff_wide :
    let line := "日b本".toList
    let last : Int := max 0 (maxWidth [line] - 4)
    ((∀ c, cells c ≤ 2) ∧ 4 ≤ (4 : Int) ∧ line ∈ [line] ∧ 1 < line.length) ∧
      Shows line 0 4 1 ∧ ¬ Shows line last 4 1 ∧ ∃ x, 0 ≤ x ∧ x ≤ last ∧ Shows line x 4 1 := by
  intro line last
  have hwide : ∀ c, cells c ≤ 2 := cells_le_two
  have hwidth : 4 ≤ (4 : Int) := by decide
  have hmem : line ∈ [line] := List.mem_singleton_self line
  have hi : 1 < line.length := by decide
  have hfirst : Shows line 0 4 1 := by decide +kernel
  have hlast : ¬ Shows line last 4 1 := by decide +kernel
  exact ⟨⟨hwide, hwidth, hmem, hi⟩, hfirst, hlast,
    (shows_within_iff hwide hwidth hmem hi).1.mpr (.inr (.inl hfirst))⟩

/-- The window is moved to the end of a line of nine digits.  Its text ends in the eighth, and no
other offset shows the ninth. -/
theorem end_not_shown :
    let source := Source.overPaths (.int 123456789)
    let es : List (Desk.Happening Float) :=
      [.input .start, .host (.complete 0), .host (.deliver 0), .input (.resize 4), .input .toEnd]
    let s := (Desk.after es (Desk.ofSession (Session.ofSource source [] 16) false)).client
    let line := "123456789".toList
    let last : Int := max 0 (maxWidth s.lines - s.width)
    s.lines = [line] ∧ s.width = 4 ∧ s.x = last ∧
      (window line s.x s.width).text = "…678".toList ∧
      ∀ x, 0 ≤ x → x ≤ last → ¬ Shows line x s.width 8 := by
  intro source es s line last
  have hlines : s.lines = [line] := by decide +kernel
  have hwidth : s.width = 4 := by decide +kernel
  have hlast : last = 5 := by decide +kernel
  refine ⟨hlines, hwidth, by decide +kernel, by decide +kernel, fun x hx hxlast => ?_⟩
  have hline : Text.width line = 9 := by decide +kernel
  exact not_shows_last (by omega) (by omega) (by decide) hx (by omega)

end Display

end LiveQuery
