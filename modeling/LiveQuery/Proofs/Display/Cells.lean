/-
LiveQuery/Proofs/Display/Cells.lean

Counting cells.

A character takes a cell or more, so that a cell boundary may fall into a character.  At any cell
a text falls into two parts: the characters that end there or before (`Text.fit`), and all others
(`dropCells`).  The cell of a position (`cellAt`) is the width of what comes before it.

Nothing else is known here of the sizes of characters.  Where no character takes more than two
cells, the first part falls short of the cell by one at most; this is a hypothesis of the lemmas
that need it, and so is that a space takes one cell.

Main results: the two parts make up the text (`fit_append_dropCells`); which characters belong to
the first one (`lt_length_fit_iff`); and how many cells it takes (`width_fit_le`, `le_width_fit`).
-/
import Mathlib.Data.List.Infix
import LiveQuery.Display.Window

namespace LiveQuery

namespace Text

open Display

variable [Glyphs] {s t : Text}

theorem cells_pos (c : Char) : 0 < cells c := Nat.le_max_left 1 (Glyphs.size c)

/-! ### Widths -/

@[simp] theorem width_nil : width [] = 0 := rfl

@[simp] theorem width_cons (c : Char) (t : Text) : width (c :: t) = cells c + width t := rfl

@[simp] theorem width_append (s t : Text) : width (s ++ t) = width s + width t := by
  induction s with
  | nil => simp
  | cons c rest ih => rw [List.cons_append, width_cons, width_cons, ih, Nat.add_assoc]

theorem width_spaces (hspace : cells ' ' = 1) (n : Nat) : width (spaces n) = n := by
  induction n with
  | zero => rfl
  | succ n ih => rw [spaces, List.replicate_succ, width_cons, ← spaces, ih, hspace, Nat.add_comm]

theorem width_le_of_prefix (h : s <+: t) : width s ≤ width t := by
  obtain ⟨rest, rfl⟩ := h
  rw [width_append]
  exact Nat.le_add_right _ _

/-- A part from the start of a text that is as wide as the text is all of it. -/
theorem eq_of_prefix_of_width_le (h : s <+: t) (hw : width t ≤ width s) : s = t := by
  obtain ⟨rest, rfl⟩ := h
  cases rest with
  | nil => exact (List.append_nil s).symm
  | cons c rest =>
    have := cells_pos c
    rw [width_append, width_cons] at hw
    omega

/-- The cell at which the character at a position begins, and the one before it ends. -/
def cellAt (t : Text) (i : Nat) : Nat := width (t.take i)

@[simp] theorem cellAt_zero (t : Text) : t.cellAt 0 = 0 := rfl

theorem cellAt_cons (c : Char) (t : Text) (i : Nat) :
    Text.cellAt (c :: t) (i + 1) = cells c + t.cellAt i := rfl

theorem cellAt_succ {i : Nat} (hi : i < t.length) : t.cellAt (i + 1) = t.cellAt i + cells t[i] := by
  rw [cellAt, List.take_succ_eq_append_getElem hi, width_append, width_cons, width_nil,
    Nat.add_zero, ← cellAt]

/-- The next character begins one cell further on, or two. -/
theorem cellAt_lt_succ (hwide : ∀ c, cells c ≤ 2) {i : Nat} (hi : i < t.length) :
    t.cellAt i < t.cellAt (i + 1) ∧ t.cellAt (i + 1) ≤ t.cellAt i + 2 := by
  have hpos := cells_pos t[i]
  have htwo := hwide t[i]
  rw [cellAt_succ hi]
  omega

theorem cellAt_le_width (t : Text) (i : Nat) : t.cellAt i ≤ width t :=
  width_le_of_prefix (List.take_prefix i t)

theorem cellAt_length (t : Text) : t.cellAt t.length = width t := by
  rw [cellAt, List.take_length]

theorem le_maxWidth {ls : List Text} (h : t ∈ ls) : width t ≤ maxWidth ls := by
  induction ls with
  | nil => cases h
  | cons l rest ih =>
    have hmax : maxWidth (l :: rest) = max (width l) (maxWidth rest) := rfl
    rcases List.mem_cons.mp h with rfl | hrest
    · omega
    · have := ih hrest
      omega

/-! ### The characters that end at or before a cell -/

variable {room : Nat}

theorem fit_isPrefix (room : Nat) (t : Text) : fit room t <+: t := by
  induction t generalizing room with
  | nil => exact List.prefix_rfl
  | cons c rest ih =>
    rw [fit]
    split
    · exact (List.prefix_cons_inj c).mpr (ih (room - cells c))
    · exact List.nil_prefix

theorem width_fit_le (room : Nat) (t : Text) : width (fit room t) ≤ room := by
  induction t generalizing room with
  | nil => exact Nat.zero_le room
  | cons c rest ih =>
    rw [fit]
    split
    · have := ih (room - cells c)
      rw [width_cons]
      omega
    · exact Nat.zero_le room

/-- **The parts** before and behind a cell make up the text. -/
theorem fit_append_dropCells (x : Nat) (t : Text) : fit x t ++ dropCells x t = t := by
  induction t generalizing x with
  | nil => rfl
  | cons c rest ih =>
    by_cases hc : cells c ≤ x
    · rw [fit, dropCells, if_pos hc, if_pos hc, List.cons_append, ih]
    · rw [fit, dropCells, if_neg hc, if_neg hc, List.nil_append]

theorem width_fit_add_dropCells (x : Nat) (t : Text) :
    width (fit x t) + width (dropCells x t) = width t := by
  rw [← width_append, fit_append_dropCells]

/-- Fitting twice is fitting into the smaller room. -/
theorem fit_fit (a b : Nat) (t : Text) : fit a (fit b t) = fit (min a b) t := by
  induction t generalizing a b with
  | nil => rfl
  | cons c rest ih =>
    rw [fit, fit]
    by_cases hb : cells c ≤ b
    · rw [if_pos hb, fit]
      by_cases ha : cells c ≤ a
      · have hmin : min (a - cells c) (b - cells c) = min a b - cells c := by omega
        rw [if_pos ha, if_pos (by omega), ih, hmin]
      · rw [if_neg ha, if_neg (by omega)]
    · rw [if_neg hb, if_neg (by omega)]
      rfl

/-- **A character belongs to the first part** exactly where it ends at or before the cell. -/
theorem lt_length_fit_iff {i : Nat} (hi : i < t.length) :
    i < (fit room t).length ↔ t.cellAt (i + 1) ≤ room := by
  induction t generalizing room i with
  | nil => cases hi
  | cons c rest ih =>
    rw [cellAt_cons, fit]
    by_cases hc : cells c ≤ room
    · rw [if_pos hc, List.length_cons]
      cases i with
      | zero => simpa using hc
      | succ i =>
        rw [Nat.add_lt_add_iff_right, ih (by simpa using hi)]
        omega
    · rw [if_neg hc]
      simp only [List.length_nil, Nat.not_lt_zero, false_iff]
      omega

/-- The cell at which a character begins tells which characters come before it. -/
theorem fit_cellAt (t : Text) (i : Nat) : fit (t.cellAt i) t = t.take i := by
  induction t generalizing i with
  | nil => simp [fit]
  | cons c rest ih =>
    cases i with
    | zero =>
      have := cells_pos c
      rw [cellAt_zero, fit, if_neg (by omega), List.take_zero]
    | succ i =>
      rw [cellAt_cons, fit, if_pos (Nat.le_add_right _ _), Nat.add_sub_cancel_left, ih,
        List.take_succ_cons]

theorem fit_of_width_le (h : width t ≤ room) : fit room t = t := by
  induction t generalizing room with
  | nil => rfl
  | cons c rest ih =>
    rw [width_cons] at h
    rw [fit, if_pos (by omega), ih (by omega)]

/-- The first part falls short of the cell by one at most. -/
theorem le_width_fit (hwide : ∀ c, cells c ≤ 2) (h : room ≤ width t) :
    room ≤ width (fit room t) + 1 := by
  induction t generalizing room with
  | nil => exact Nat.le_succ_of_le h
  | cons c rest ih =>
    rw [width_cons] at h
    have htwo := hwide c
    rw [fit]
    split
    · have := ih (show room - cells c ≤ width rest by omega)
      rw [width_cons]
      omega
    · rw [width_nil]
      omega

/-- Nothing ends at or before the first cell. -/
theorem dropCells_zero (t : Text) : dropCells 0 t = t := by
  cases t with
  | nil => rfl
  | cons c rest =>
    have := cells_pos c
    rw [dropCells, if_neg (by omega)]

end Text

end LiveQuery
