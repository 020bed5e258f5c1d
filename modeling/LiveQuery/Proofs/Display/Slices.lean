/-
LiveQuery/Proofs/Display/Slices.lean

Cuts leave as much as fits.

A text is cut to a number of cells by going on from its start up to the first character for which
there is no room.  A clip is such a cut too, of what a window does not pass over on the left.  What
is left is the longest part that fits (`LongestFit`), and no other part is (`longestFit_iff`): a
longer part is wider, since each character takes a cell at least.  Nothing else is used here of the
widths of characters.

Main result: `clip_longest`.
-/
import Mathlib.Data.Nat.Count
import LiveQuery.Proofs.Display.Sides

namespace LiveQuery

section

variable [Glyphs]

namespace Text

variable {room : Int} {s s' t u : Text}

/-! ### Parts that fit -/

/-- The second text is the longest part from the start of the first one that fits into a number of
cells; into none of them where the number is not positive. -/
structure LongestFit (room : Int) (t s : Text) : Prop where
  isPrefix : s <+: t
  fits : (s.width : Int) ≤ max 0 room
  longest : ∀ u : Text, u <+: t → (u.width : Int) ≤ max 0 room → u.length ≤ s.length

/-- A part from the start of a text is what fits into its own cells. -/
theorem fit_width_of_prefix (h : u <+: t) : fit u.width t = u := by
  obtain ⟨rest, rfl⟩ := h
  have hcell : cellAt (u ++ rest) u.length = u.width := by rw [cellAt, List.take_left]
  rw [← hcell, fit_cellAt, List.take_left]

/-- A part that fits ends at the cut or before it. -/
theorem prefix_fit {n : Nat} (h : u <+: t) (hu : u.width ≤ n) : u <+: fit n t := by
  have hagain : fit u.width (fit n t) = u := by
    rw [fit_fit, Nat.min_eq_left hu, fit_width_of_prefix h]
  have hprefix := fit_isPrefix u.width (fit n t)
  rwa [hagain] at hprefix

theorem longestFit_trimToWidth (t : Text) (room : Int) :
    LongestFit room t (t.trimToWidth room) where
  isPrefix := fit_isPrefix room.toNat t
  fits := by
    have hwidth := width_fit_le room.toNat t
    show ((fit room.toNat t).width : Int) ≤ max 0 room
    omega
  longest := by
    intro u hu hfits
    have hcut : u <+: fit room.toNat t := prefix_fit hu (by omega)
    exact hcut.length_le

/-- Of two parts that are both the longest, neither is longer. -/
theorem LongestFit.unique (h : LongestFit room t s) (h' : LongestFit room t s') : s = s' := by
  have hle : s.length ≤ s'.length := h'.longest s h.isPrefix h.fits
  have hge : s'.length ≤ s.length := h.longest s' h'.isPrefix h'.fits
  have hprefix : s <+: s' := List.prefix_of_prefix_length_le h.isPrefix h'.isPrefix hle
  exact hprefix.eq_of_length (Nat.le_antisymm hle hge)

/-- **A cut text** is the longest part that fits. -/
theorem longestFit_iff : LongestFit room t s ↔ s = t.trimToWidth room := by
  constructor
  · intro h
    exact h.unique (longestFit_trimToWidth t room)
  · rintro rfl
    exact longestFit_trimToWidth t room

/-- There is no room for the character behind the longest part. -/
theorem LongestFit.next (h : LongestFit room t s) (hlt : s.length < t.length) :
    max 0 room < s.width + cells t[s.length] := by
  have hs : t.take s.length = s := (List.prefix_iff_eq_take.mp h.isPrefix).symm
  have hwidth : Text.width (t.take (s.length + 1)) = s.width + cells t[s.length] := by
    rw [← cellAt, cellAt_succ hlt, cellAt, hs]
  have hlength : (t.take (s.length + 1)).length = s.length + 1 := List.length_take_of_le hlt
  by_contra hroom
  have hfits : (Text.width (t.take (s.length + 1)) : Int) ≤ max 0 room := by omega
  have hle := h.longest (t.take (s.length + 1)) (List.take_prefix _ t) hfits
  omega

/-! ### Characters up to a cell -/

/-- The number of characters of a text that end at or before a cell. -/
def endedBy (t : Text) (x : Nat) : Nat := Nat.count (fun i => t.cellAt (i + 1) ≤ x) t.length

/-- The characters that end at or before a cell are those of the cut at this cell. -/
theorem endedBy_eq (t : Text) (x : Nat) : t.endedBy x = (fit x t).length := by
  have hle : (fit x t).length ≤ t.length := (fit_isPrefix x t).length_le
  have hbefore : ∀ i < (fit x t).length, t.cellAt (i + 1) ≤ x :=
    fun i hi => (lt_length_fit_iff (by omega)).mp hi
  have hbehind : ∀ i < t.length - (fit x t).length,
      ¬ t.cellAt ((fit x t).length + i + 1) ≤ x := by
    intro i hi hcell
    have := (lt_length_fit_iff (by omega)).mpr hcell
    omega
  rw [endedBy, ← Nat.add_sub_of_le hle, Nat.count_add, Nat.count_of_forall hbefore,
    Nat.count_of_forall_not hbehind, Nat.add_zero]

end Text

namespace Display

open Text

variable {width : Int}

/-! ### Clips -/

theorem drop_startOf (line : Text) (x : Int) :
    line.drop (startOf line x) = dropCells (firstCell line x) line := by
  calc line.drop (startOf line x)
      = (line.fit (firstCell line x) ++ dropCells (firstCell line x) line).drop
          (startOf line x) := by rw [fit_append_dropCells]
    _ = dropCells (firstCell line x) line := List.drop_left

/-- A clip is the longest part that fits of what is not passed over. -/
theorem longestFit_clip (h : 0 < width) (line : Text) (x : Int) :
    LongestFit width (line.drop (startOf line x)) (clip line x width).text := by
  rw [longestFit_iff, clip_text h, drop_startOf]
  rfl

/-- **Clips are the longest slices that fit.**  The first cell is the offset, moved into the line.
A clip begins behind the characters that end there or before, which are the leading ones, and is no
wider than the window.  It goes on up to the end of the line, or up to a character for which there
is no room.  A text that is cut to a number of cells is the longest part from its start that fits
into them. -/
theorem clip_longest :
    (∀ (line : Text) (x width : Int), 1 ≤ width →
      let start := startOf line x
      let stop := endOf line x width
      let text := (clip line x width).text
      start = line.endedBy (firstCell line x) ∧
      (∀ i < line.length, i < start ↔ line.cellAt (i + 1) ≤ firstCell line x) ∧
      stop ≤ line.length ∧ text = line.extract start stop ∧
      (text.width : Int) ≤ width ∧
      (stop = line.length ∨
        ∃ h : stop < line.length, width < text.width + cells (line.get ⟨stop, h⟩)) ∧
      LongestFit width (line.drop start) text) ∧
    ∀ (t : Text) (room : Int) (s : Text), s = t.trimToWidth room ↔ LongestFit room t s := by
  refine ⟨?_, fun t room s => longestFit_iff.symm⟩
  intro line x width h start stop text
  have hlongest : LongestFit width (line.drop start) text := longestFit_clip h line x
  have hstart : start ≤ line.length := (fit_isPrefix _ line).length_le
  have hstop : stop = start + text.length := rfl
  have hbound : stop ≤ line.length := by
    have hlength := hlongest.isPrefix.length_le
    rw [List.length_drop] at hlength
    omega
  refine ⟨(endedBy_eq line _).symm, fun i hi => lt_length_fit_iff hi, hbound, ?_, ?_, ?_, hlongest⟩
  · calc text
        = (line.drop start).take text.length := clip_text_eq_slice h line x
      _ = line.extract start stop := by
          rw [hstop, List.extract_eq_take_drop, Nat.add_sub_cancel_left]
  · have hfits := hlongest.fits
    omega
  · rcases Nat.eq_or_lt_of_le hbound with hend | hnext
    · exact .inl hend
    · -- the character behind the clip is the next one of what is not passed over
      have hroom := hlongest.next (by rw [List.length_drop]; omega)
      rw [List.getElem_drop] at hroom
      have hwide : max 0 width < text.width + cells (line.get ⟨stop, hnext⟩) := hroom
      exact .inr ⟨hnext, by omega⟩

end Display

end

namespace Display

open Text

/-- The first cell is the second one of a wide character, and the window ends within the next wide
one, for which there is no room. -/
theorem clip_longest_wide :
    let line := "a漢字b".toList
    1 ≤ (3 : Int) ∧ startOf line 2 = 1 ∧ (clip line 2 3).text = "漢".toList ∧
      LongestFit 3 "漢字b".toList "漢".toList := by
  intro line
  have hwidth : 1 ≤ (3 : Int) := by decide
  have hstart : startOf line 2 = 1 := by decide +kernel
  have htext : (clip line 2 3).text = "漢".toList := by decide +kernel
  obtain ⟨-, -, -, -, -, -, hlongest⟩ := clip_longest.1 line 2 3 hwidth
  rw [hstart, htext] at hlongest
  exact ⟨hwidth, hstart, htext, hlongest⟩

end Display

end LiveQuery
