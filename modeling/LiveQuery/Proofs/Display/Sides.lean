/-
LiveQuery/Proofs/Display/Sides.lean

Which sides of a line are reported as cut off.

A clip is a slice of its line: it begins with the first character that ends behind the offset, and
characters are left on its right where the line goes on behind it.  Whether that is so is not read
off the slice.  It is counted in cells from the offset on, and the offset may fall into a wide
character, which the slice shows whole.  The count is ahead then, and misses what is left on the
right if that takes no more cells than it is ahead: a single cell, if wide characters take two.

Main result: `clip_right_iff_behind`.
-/
import LiveQuery.Display.Wide
import LiveQuery.Proofs.Display.Scrolling

namespace LiveQuery

namespace Display

open Text

section

variable [Glyphs] {line : Text} {x width : Int}

/-- The position at which a clip begins: that of the first character that ends behind its first
cell. -/
def startOf (line : Text) (x : Int) : Nat := (line.fit (firstCell line x)).length

/-- The position behind a clip. -/
def endOf (line : Text) (x width : Int) : Nat :=
  startOf line x + (clip line x width).text.length

/-- The first cell is one of a wide character, but not its first one. -/
def Straddles (line : Text) (x : Int) : Prop := passed line x < firstCell line x

instance (line : Text) (x : Int) : Decidable (Straddles line x) :=
  inferInstanceAs (Decidable (_ < _))

/-- A text takes cells where it has characters. -/
theorem width_pos_iff {t : Text} : 0 < t.width ↔ 0 < t.length := by
  cases t with
  | nil => exact Iff.rfl
  | cons c rest =>
    have := cells_pos c
    rw [width_cons, List.length_cons]
    omega

/-- **A line falls into three parts**: what is passed over, the clip, and what is behind it. -/
theorem clip_parts (h : 0 < width) (line : Text) (x : Int) :
    line = line.fit (firstCell line x) ++
      ((clip line x width).text ++ line.drop (endOf line x width)) := by
  obtain ⟨rest, hrest⟩ := fit_isPrefix width.toNat (dropCells (firstCell line x) line)
  rw [← clip_text h] at hrest
  have hline : line.fit (firstCell line x) ++ ((clip line x width).text ++ rest) = line := by
    rw [hrest, fit_append_dropCells]
  have hbehind : line.drop (endOf line x width) = rest := by
    rw [endOf, startOf, ← List.length_append]
    conv_lhs => arg 2; rw [← hline, ← List.append_assoc]
    exact List.drop_left
  rw [hbehind, hline]

/-- A clip is the slice of its line between its two positions. -/
theorem clip_text_eq_slice (h : 0 < width) (line : Text) (x : Int) :
    (clip line x width).text =
      (line.drop (startOf line x)).take (clip line x width).text.length := by
  have hparts := clip_parts h line x
  have hdrop : line.drop (startOf line x) =
      (clip line x width).text ++ line.drop (endOf line x width) := by
    conv_lhs => arg 2; rw [hparts]
    exact List.drop_left
  rw [hdrop, List.take_left]

/-- The right side is reported where the cells behind the clip outnumber those that the offset is
ahead. -/
theorem clip_right_iff_cells (h : 0 < width) (line : Text) (x : Int) :
    (clip line x width).right = true ↔
      firstCell line x < passed line x + Text.width (line.drop (endOf line x width)) := by
  have hcells := congrArg Text.width (clip_parts h line x)
  rw [width_append, width_append, ← passed] at hcells
  rw [clip_right h]
  omega

/-- **What the report of the right side says.**  It is made where a character of the line comes
behind the clip, unless the offset falls into a wide character and all that is left takes no more
cells than that character has before the offset.  So it is never made wrongly, and is missing in
that case and no other.  Where no character takes more than two cells, a single cell is left
then. -/
theorem clip_right_iff_behind (h : 1 ≤ width) (line : Text) (x : Int) :
    let c := clip line x width
    let behind := Text.width (line.drop (endOf line x width))
    let missed := 0 < behind ∧ passed line x + behind ≤ firstCell line x
    c.text = (line.drop (startOf line x)).take c.text.length ∧
    (c.right = true ↔ startOf line x + c.text.length < line.length ∧ ¬ missed) ∧
    ((c.right = true ↔ startOf line x + c.text.length < line.length) ↔ ¬ missed) ∧
    ((∀ c, cells c ≤ 2) → (missed ↔ Straddles line x ∧ behind = 1)) := by
  intro c behind missed
  have hleast := passed_le_firstCell line x
  have hbehind : startOf line x + c.text.length < line.length ↔ 0 < behind := by
    rw [width_pos_iff, List.length_drop, Nat.sub_pos_iff_lt]
    rfl
  have hright : c.right = true ↔ startOf line x + c.text.length < line.length ∧ ¬ missed := by
    rw [hbehind, clip_right_iff_cells h]
    simp only [missed, behind]
    omega
  refine ⟨clip_text_eq_slice h line x, hright, ?_, fun hwide => ?_⟩
  · rw [hright]
    constructor
    · intro htold hmissed
      exact (htold.mpr (hbehind.mpr hmissed.1)).2 hmissed
    · intro hmissed
      exact and_iff_left hmissed
  · have hahead := firstCell_le hwide line x
    simp only [missed, Straddles]
    omega

end

/-- The offset falls into the first character, and two cells are left behind it: one of them is
missed in the count, and the other one is not. -/
theorem clip_right_iff_behind_straddling :
    let line := "漢ab".toList
    1 ≤ (2 : Int) ∧ Straddles line 1 ∧ (clip line 1 2).text = "漢".toList ∧
      (clip line 1 2).right = true := by
  intro line
  have htext : (clip line 1 2).text = "漢".toList := by decide +kernel
  refine ⟨by decide, by decide +kernel, htext, ?_⟩
  exact (clip_right_iff_behind (show 1 ≤ (2 : Int) by decide) line 1).2.1.mpr
    ⟨by decide +kernel, by decide +kernel⟩

/-- The offset falls into the first character, and the letter behind it takes the one cell that is
left: nothing is reported on the right. -/
theorem clip_right_missing :
    let line := "漢a".toList
    let c := clip line 1 2
    line ≠ [] ∧ c.text = "漢".toList ∧ c.right = false ∧
      ¬ (c.right = true ↔ startOf line 1 + c.text.length < line.length) := by
  decide +kernel

end Display

end LiveQuery
