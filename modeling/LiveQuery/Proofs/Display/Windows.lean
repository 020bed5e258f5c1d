/-
LiveQuery/Proofs/Display/Windows.lean

Windows on a line are as wide as they should be.

A line that is cut off is shown as a piece of it between markers and spaces: the piece begins with
the first character that ends behind the offset, and goes on as long as there is room beside the
markers.  Nothing here depends on which characters are wide: it is enough that the marker and the
space take one cell each.

Main results: what a window shows (`window_text_of_uncut`, `window_text_of_cut`), and its width
(`window_width`).
-/
import LiveQuery.Display.Wide
import LiveQuery.Proofs.Display.Cells

namespace LiveQuery

namespace Display

open Text

section

variable [Glyphs] {line : Text} {x width : Int}

/-! ### Clips -/

/-- The first cell that a window shows. -/
def firstCell (line : Text) (x : Int) : Nat := min x.toNat line.width

section Clips

variable (h : 0 < width) (line : Text) (x : Int)
include h

/-- A clip of a line that is not empty. -/
theorem clip_cons (c : Char) (rest : Text) :
    let first := firstCell (c :: rest) x
    let text := (dropCells first (c :: rest)).fit width.toNat
    clip (c :: rest) x width = ⟨text, 0 < first, first + text.width < Text.width (c :: rest)⟩ := by
  rw [clip, if_neg (Int.not_le.mpr h)]
  rfl

theorem clip_text : (clip line x width).text =
    (dropCells (firstCell line x) line).fit width.toNat := by
  cases line with
  | nil => simp [clip, dropCells, fit, Int.not_le.mpr h]
  | cons c rest => rw [clip_cons h]

/-- The left side is cut off where the offset is positive, on an empty line too. -/
theorem clip_left : (clip line x width).left = true ↔ 0 < x := by
  cases line with
  | nil => simp [clip, Int.not_le.mpr h]
  | cons c rest =>
    have := cells_pos c
    rw [clip_cons h, decide_eq_true_iff, firstCell, width_cons]
    omega

theorem clip_right : (clip line x width).right = true ↔
    firstCell line x + (clip line x width).text.width < line.width := by
  cases line with
  | nil => simp [clip, Int.not_le.mpr h]
  | cons c rest => rw [clip_cons h, decide_eq_true_iff]

end Clips

/-- Nothing is cut off a line: it fits, and is shown whole. -/
theorem clip_of_uncut (h : 0 < width) (hleft : (clip line x width).left = false)
    (hright : (clip line x width).right = false) :
    firstCell line x = 0 ∧ (clip line x width).text = line ∧ (line.width : Int) ≤ width := by
  rw [Bool.eq_false_iff, ne_eq, clip_left h] at hleft
  rw [Bool.eq_false_iff, ne_eq, clip_right h, clip_text h] at hright
  have hfirst : firstCell line x = 0 := by
    rw [firstCell]
    omega
  rw [hfirst, dropCells_zero, Nat.zero_add, Nat.not_lt] at hright
  have hall : line.fit width.toNat = line :=
    eq_of_prefix_of_width_le (fit_isPrefix width.toNat line) hright
  have hfits := width_fit_le width.toNat line
  rw [hall] at hfits
  rw [clip_text h, hfirst, dropCells_zero]
  exact ⟨rfl, hall, by omega⟩

/-! ### Markers -/

/-- The marker of a side, if the side is cut off. -/
def markIf (cut : Bool) : Text := if cut then [mark] else []

theorem width_markIf (hmark : cells mark = 1) (cut : Bool) :
    (markIf cut).width = cut.toNat := by
  cases cut with
  | false => rfl
  | true => exact hmark

theorem withMarks_uncut (h : 0 < width) (t : Text) : withMarks t width false false = t := by
  simp [withMarks, Int.not_le.mpr h]

/-- In a single cell there is room for one marker only. -/
theorem withMarks_one {left right : Bool} (hcut : left ∨ right) (t : Text) :
    withMarks t 1 left right = [mark] := by
  rcases hcut with rfl | rfl
  · rfl
  · cases left <;> rfl

/-- A text with markers: as much of it as fits between them, and spaces. -/
theorem withMarks_cut (h : 2 ≤ width) {left right : Bool} (hcut : left ∨ right) (t : Text) :
    let room := width.toNat - (left.toNat + right.toNat)
    withMarks t width left right = markIf left ++ (t.fit room ++
      (spaces (room - (t.fit room).width) ++ markIf right)) := by
  have hpos : ¬ width ≤ 0 := by omega
  have hone : ¬ width = 1 := by omega
  cases left with
  | false =>
    obtain rfl : right = true := by simpa using hcut
    simp [withMarks, hpos, hone, markIf]
  | true => cases right <;> simp [withMarks, hpos, hone, markIf]

/-- **A text that is cut off** takes all cells of its window, markers and spaces included. -/
theorem width_withMarks (hspace : cells ' ' = 1) (hmark : cells mark = 1) (h : 1 ≤ width)
    {left right : Bool} (hcut : left ∨ right) (t : Text) :
    ((withMarks t width left right).width : Int) = width := by
  by_cases hone : width = 1
  · subst hone
    rw [withMarks_one hcut, width_cons, hmark]
    rfl
  · have hfits := width_fit_le (width.toNat - (left.toNat + right.toNat)) t
    have hleft := Bool.toNat_le left
    have hright := Bool.toNat_le right
    rw [withMarks_cut (by omega) hcut]
    simp only [width_append, width_markIf hmark, width_spaces hspace]
    omega

/-! ### Windows -/

/-- The room beside the markers. -/
def room (line : Text) (x width : Int) : Nat :=
  width.toNat - ((clip line x width).left.toNat + (clip line x width).right.toNat)

/-- What a window shows of a line between its markers. -/
def piece (line : Text) (x width : Int) : Text :=
  (dropCells (firstCell line x) line).fit (room line x width)

/-- The piece comes right behind the characters that end at or before the first cell. -/
theorem exists_line_eq (line : Text) (x width : Int) :
    ∃ after, line = line.fit (firstCell line x) ++ piece line x width ++ after := by
  obtain ⟨after, hafter⟩ := fit_isPrefix (room line x width) (dropCells (firstCell line x) line)
  refine ⟨after, ?_⟩
  rw [List.append_assoc, piece, hafter, fit_append_dropCells]

theorem window_text_of_uncut (h : 1 ≤ width) (hleft : (window line x width).left = false)
    (hright : (window line x width).right = false) :
    (window line x width).text = line ∧ piece line x width = line ∧ (line.width : Int) ≤ width := by
  have hl : (clip line x width).left = false := hleft
  have hr : (clip line x width).right = false := hright
  obtain ⟨hfirst, htext, hfits⟩ := clip_of_uncut (by omega) hl hr
  refine ⟨?_, ?_, hfits⟩
  · show withMarks _ width (clip line x width).left (clip line x width).right = line
    rw [hl, hr, withMarks_uncut (by omega), htext]
  · rw [piece, room, hl, hr, hfirst, dropCells_zero]
    exact fit_of_width_le (by simp; omega)

/-- **The parts of a window** on a line that is cut off: the piece between the markers, and
spaces. -/
theorem window_text_of_cut (h : 2 ≤ width)
    (hcut : (window line x width).left ∨ (window line x width).right) :
    (window line x width).text = markIf (window line x width).left ++ (piece line x width ++
      (spaces (room line x width - (piece line x width).width) ++
        markIf (window line x width).right)) := by
  have hroom : room line x width ≤ width.toNat := Nat.sub_le _ _
  have hpiece : (clip line x width).text.fit (room line x width) = piece line x width := by
    rw [clip_text (by omega), fit_fit, piece, Nat.min_eq_left hroom]
  have htext := withMarks_cut h hcut (clip line x width).text
  rw [← hpiece]
  exact htext

theorem window_text_of_nonpos (h : width ≤ 0) : (window line x width).text = [] := by
  show withMarks _ width _ _ = []
  rw [withMarks, if_pos h]

/-- Whatever its width, a window shows a piece of the line, and else markers and spaces only. -/
theorem exists_window_text (line : Text) (x width : Int) :
    ∃ before body after left n right, line = before ++ body ++ after ∧
      (window line x width).text = markIf left ++ (body ++ (spaces n ++ markIf right)) := by
  by_cases hnone : width ≤ 0
  · exact ⟨[], [], line, false, 0, false, rfl, window_text_of_nonpos hnone⟩
  · by_cases hcut : (window line x width).left = true ∨ (window line x width).right = true
    · by_cases hone : width = 1
      · subst hone
        exact ⟨[], [], line, true, 0, false, rfl, withMarks_one hcut _⟩
      · obtain ⟨after, hline⟩ := exists_line_eq line x width
        exact ⟨_, _, after, _, _, _, hline, window_text_of_cut (by omega) hcut⟩
    · rw [not_or, Bool.not_eq_true, Bool.not_eq_true] at hcut
      obtain ⟨htext, -, -⟩ := window_text_of_uncut (by omega) hcut.1 hcut.2
      refine ⟨[], line, [], false, 0, false, (List.append_nil line).symm, ?_⟩
      rw [htext]
      exact (List.append_nil line).symm

omit [Glyphs] in
theorem mem_fill {c : Char} {n : Nat} {cut : Bool} (h : c ∈ spaces n ++ markIf cut) :
    c = ' ' ∨ c = mark := by
  rcases List.mem_append.mp h with hspace | hmark
  · exact .inl (List.eq_of_mem_replicate hspace)
  · cases cut with
    | false => cases hmark
    | true => exact .inr (List.mem_singleton.mp hmark)

theorem mem_window_text {c : Char} (h : c ∈ (window line x width).text) :
    c ∈ line ∨ c = ' ' ∨ c = mark := by
  obtain ⟨before, body, after, left, n, right, hline, htext⟩ := exists_window_text line x width
  rw [htext] at h
  rcases List.mem_append.mp h with hleft | hrest
  · -- a marker, with no spaces before it
    exact .inr (mem_fill (show c ∈ spaces 0 ++ markIf left from hleft))
  · rcases List.mem_append.mp hrest with hbody | hfill
    · exact .inl (by simp [hline, hbody])
    · exact .inr (mem_fill hfill)

/-- **The width of a window.**  Either a side is reported as cut off, and the text takes exactly
the cells of the window; or neither is, and the text is the line, which fits.  Between the markers,
of which there is none on a side that is not cut off, stands a piece of the line in whole
characters, from the first one on that ends behind the first cell. -/
theorem window_width (hspace : cells ' ' = 1) (hmark : cells mark = 1) (line : Text) (x : Int)
    (h : 1 ≤ width) :
    let w := window line x width
    (((w.left = true ∨ w.right = true) ∧ (w.text.width : Int) = width) ∨
      (w.left = false ∧ w.right = false ∧ w.text = line ∧ (line.width : Int) ≤ width)) ∧
    ∃ body after first n last, line = line.fit (firstCell line x) ++ body ++ after ∧
      w.text = first ++ (body ++ (spaces n ++ last)) ∧
      (first = [] ∨ w.left = true ∧ first = [mark]) ∧
      (last = [] ∨ w.right = true ∧ last = [mark]) := by
  intro w
  obtain ⟨after, hline⟩ := exists_line_eq line x width
  have hmarkIf (cut : Bool) : markIf cut = [] ∨ cut = true ∧ markIf cut = [mark] := by
    cases cut with
    | false => exact .inl rfl
    | true => exact .inr ⟨rfl, rfl⟩
  by_cases hcut : w.left = true ∨ w.right = true
  · have hwidth : (w.text.width : Int) = width := width_withMarks hspace hmark h hcut _
    refine ⟨.inl ⟨hcut, hwidth⟩, ?_⟩
    by_cases hone : width = 1
    · -- one marker stands for both sides
      subst hone
      have htext : w.text = [mark] := withMarks_one hcut _
      have hempty : line =
          line.fit (firstCell line x) ++ [] ++ dropCells (firstCell line x) line := by
        rw [List.append_nil, fit_append_dropCells]
      rcases hcut with hleft | hright
      · exact ⟨[], _, [mark], 0, [], hempty, htext, .inr ⟨hleft, rfl⟩, .inl rfl⟩
      · exact ⟨[], _, [], 0, [mark], hempty, htext, .inl rfl, .inr ⟨hright, rfl⟩⟩
    · exact ⟨_, after, _, _, _, hline, window_text_of_cut (by omega) hcut, hmarkIf w.left,
        hmarkIf w.right⟩
  · rw [not_or, Bool.not_eq_true, Bool.not_eq_true] at hcut
    obtain ⟨htext, hpiece, hfits⟩ := window_text_of_uncut h hcut.1 hcut.2
    refine ⟨.inr ⟨hcut.1, hcut.2, htext, hfits⟩, piece line x width, after, [], 0, [], hline, ?_,
      .inl rfl, .inl rfl⟩
    show w.text = piece line x width ++ []
    rw [hpiece, List.append_nil]
    exact htext

end

/-- The second character of `日本語` reaches over the edge of the window and is shown whole; the
third one finds no room beside the marker. -/
theorem window_width_wide :
    (cells ' ' = 1 ∧ cells mark = 1 ∧ 1 ≤ (4 : Int)) ∧
    let line := "日本語".toList
    let w := window line 3 4
    w.text = "…本 ".toList ∧ w.left = true ∧ (w.text.width : Int) = 4 := by
  have hspace : cells ' ' = 1 := by decide
  have hmark : cells mark = 1 := by decide
  refine ⟨⟨hspace, hmark, by decide⟩, ?_⟩
  intro line w
  have htext : w.text = "…本 ".toList := by decide +kernel
  have hleft : w.left = true := by decide +kernel
  refine ⟨htext, hleft, ?_⟩
  have hwindow := window_width hspace hmark line 3 (show 1 ≤ (4 : Int) by decide)
  rcases hwindow.1 with ⟨-, hwidth⟩ | ⟨huncut, -⟩
  · exact hwidth
  · exact absurd hleft (Bool.eq_false_iff.mp huncut)

end Display

end LiveQuery
