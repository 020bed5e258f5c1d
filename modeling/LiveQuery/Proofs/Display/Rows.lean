/-
LiveQuery/Proofs/Display/Rows.lean

Rows of a window are as wide as the window, or wider where colours move a colon.

Each row is a line seen through the window, painted and filled with spaces.  The store does not
matter: what it keeps is what painting gives (`PaintStore.Coherent`).  Painting an error changes
nothing that is seen, and painting JSON changes the blanks behind colons, so that a row may come out
wider than its window; it is never narrower.

Main results: the rows as a function of the lines alone (`rows_eq`), and their widths
(`rows_width_iff`).
-/
import LiveQuery.Proofs.Display.Padding
import LiveQuery.Proofs.Display.Pieces

namespace LiveQuery

open Display

/-! ### The store -/

namespace PaintStore

variable {s : PaintStore} {line : Text}

/-- What is kept for a line is its painted form. -/
def Coherent (s : PaintStore) : Prop := ∀ e ∈ s.lines, e.2 = Display.paint e.1

/-- The store after painting some lines. -/
def after (s : PaintStore) (asked : List Text) : PaintStore :=
  asked.foldl (fun s line => (s.paint line).2) s

theorem coherent_ofCapacity (capacity : Int) : (ofCapacity capacity).Coherent :=
  fun e he => absurd (show e ∈ [] from he) List.not_mem_nil

theorem Coherent.get?_eq (hs : s.Coherent) {styled : Text} (h : s.get? line = some styled) :
    styled = Display.paint line := by
  obtain ⟨e, hfound, rfl⟩ := Option.map_eq_some_iff.mp h
  have hline : e.1 = line := by simpa using List.find?_some hfound
  rw [hs e (List.mem_of_find?_eq_some hfound), hline]

/-- **Painting through the store** is painting, and leaves what is kept right. -/
theorem Coherent.paint (hs : s.Coherent) (line : Text) :
    (s.paint line).1 = Display.paint line ∧ (s.paint line).2.Coherent := by
  rw [PaintStore.paint]
  split
  · next hempty =>
    rw [List.isEmpty_iff] at hempty
    subst hempty
    exact ⟨rfl, hs⟩
  · split
    · next styled hkept => exact ⟨hs.get?_eq hkept, hs⟩
    · -- the oldest line may leave; all others stay, and the new one is right
      refine ⟨rfl, fun e he => ?_⟩
      have hmem : e ∈ s.lines ++ [(line, Display.paint line)] := by
        by_cases hfull : s.capacity < (s.lines ++ [(line, Display.paint line)]).length
        · simp only [if_pos hfull] at he
          exact List.mem_of_mem_drop he
        · simpa only [if_neg hfull] using he
      rcases List.mem_append.mp hmem with hold | hnew
      · exact hs e hold
      · obtain rfl := List.mem_singleton.mp hnew
        rfl

theorem Coherent.after (hs : s.Coherent) (asked : List Text) : (s.after asked).Coherent := by
  induction asked generalizing s with
  | nil => exact hs
  | cons line rest ih => exact ih (hs.paint line).2

end PaintStore

namespace Display

open Text

section

variable [Glyphs] {v : View} {isError : Bool} {line : Text} {lines : List Text}

/-! ### Painted texts -/

omit [Glyphs] in
theorem plain_paintError (h : esc ∉ line) : plain (paintError line) = line := by
  rw [paintError]
  split
  · next hempty =>
    rw [List.isEmpty_iff] at hempty
    subst hempty
    rfl
  · next hne =>
    have hline : line ≠ [] := fun hnil => hne (List.isEmpty_iff.mpr hnil)
    have hbegin : ∃ c ∈ line.head?, (fun _ => true) c = true :=
      ⟨_, List.head?_eq_some_head hline, rfl⟩
    have hend : ∃ c ∈ line.getLast?, (fun _ => true) c = true :=
      ⟨_, List.getLast?_eq_some_getLast hline, rfl⟩
    have hnil : Styled (fun _ => true) true [] [] := .nil
    have hstyled := Styled.painted ⟨"31", by decide, rfl⟩ h hbegin hend hnil true
    simpa [errorColour] using hstyled.plain_eq

/-- A line in the colours of JSON or of an error. -/
def styledLine (isError : Bool) (line : Text) : Text :=
  if isError then paintError line else paint line

/-! ### Rows -/

/-- The lines a window shows. -/
def shownLines (v : View) (lines : List Text) : List Text :=
  ((if lines.isEmpty then [[]] else lines).drop v.y.toNat).take v.height.toNat

/-- The row of a line, whatever has been painted before. -/
def rowOf (v : View) (isError : Bool) (line : Text) : Text :=
  pad (styledLine isError (window line v.x v.width).text) v.width

theorem row_eq (v : View) (isError : Bool) {store : PaintStore} (hs : store.Coherent)
    (line : Text) :
    (row v isError store line).1 = rowOf v isError line ∧
      (row v isError store line).2.Coherent := by
  cases isError with
  | true => exact ⟨rfl, hs⟩
  | false =>
    obtain ⟨hpaint, hkept⟩ := hs.paint (window line v.x v.width).text
    refine ⟨?_, hkept⟩
    show pad (store.paint _).1 v.width = pad (paint _) v.width
    rw [hpaint]

theorem rowsOf_eq (v : View) (isError : Bool) {store : PaintStore} (hs : store.Coherent)
    (lines : List Text) :
    (rowsOf v isError store lines).1 = lines.map (rowOf v isError) ∧
      (rowsOf v isError store lines).2.Coherent := by
  induction lines generalizing store with
  | nil => exact ⟨rfl, hs⟩
  | cons line rest ih =>
    obtain ⟨hrow, hkept⟩ := row_eq v isError hs line
    obtain ⟨hrows, hkept⟩ := ih hkept
    refine ⟨?_, hkept⟩
    show (row v isError store line).1 ::
      (rowsOf v isError (row v isError store line).2 rest).1 = _
    rw [hrow, hrows, List.map_cons]

/-- **The rows of a window** do not depend on what is kept. -/
theorem rows_eq (v : View) (isError : Bool) {store : PaintStore} (hs : store.Coherent)
    (lines : List Text) :
    (rows v isError store lines).1 = (shownLines v lines).map (rowOf v isError) ++
      List.replicate (v.height.toNat - (shownLines v lines).length) (spaces v.width.toNat) := by
  have hrows := (rowsOf_eq v isError hs (shownLines v lines)).1
  show (rowsOf v isError store (shownLines v lines)).1 ++ List.replicate (v.height.toNat -
    (rowsOf v isError store (shownLines v lines)).1.length) _ = _
  rw [hrows, List.length_map]

/-! ### Widths -/

theorem esc_not_mem_window (h : esc ∉ line) (x width : Int) : esc ∉ (window line x width).text := by
  intro hesc
  rcases mem_window_text hesc with hline | hspace | hmark
  · exact h hline
  · exact absurd hspace (by decide)
  · exact absurd hmark (by decide)

theorem width_window_le (hspace : cells ' ' = 1) (hmark : cells mark = 1) (line : Text) (x : Int)
    {width : Int} (h : 0 ≤ width) :
    ((window line x width).text.width : Int) ≤ width := by
  rcases Int.lt_or_eq_of_le h with hpos | rfl
  · by_cases hcut : (window line x width).left = true ∨ (window line x width).right = true
    · exact Int.le_of_eq (width_withMarks hspace hmark hpos hcut _)
    · rw [not_or, Bool.not_eq_true, Bool.not_eq_true] at hcut
      obtain ⟨htext, -, hfits⟩ := window_text_of_uncut hpos hcut.1 hcut.2
      rw [htext]
      exact hfits
  · -- in no cells nothing is shown
    rw [window_text_of_nonpos (Int.le_refl 0)]
    exact Int.le_refl 0

/-- The text that a row shows of JSON: with one space between each colon and the literal behind
it. -/
def spacedText (v : View) (line : Text) : Text :=
  spaced startsLiteral (window line v.x v.width).text

/-- Padding makes a row as wide as the window at least. -/
theorem le_visibleWidth_rowOf (hspace : cells ' ' = 1) (v : View) (isError : Bool) (line : Text) :
    v.width ≤ visibleWidth (rowOf v isError line) := by
  rw [rowOf, visibleWidth_pad hspace]
  exact Int.le_max_left _ _

/-- **The width of a row** is that of the window; a row of JSON is wider where its spaced text
is. -/
theorem visibleWidth_rowOf (hspace : cells ' ' = 1) (hmark : cells mark = 1) (hv : 0 ≤ v.width)
    (h : esc ∉ line) :
    (visibleWidth (rowOf v isError line) : Int) =
      if isError then v.width else max v.width (spacedText v line).width := by
  have hesc := esc_not_mem_window h v.x v.width
  rw [rowOf, visibleWidth_pad hspace, visibleWidth]
  cases isError with
  | true =>
    have hshown : plain (styledLine true (window line v.x v.width).text) = _ :=
      plain_paintError hesc
    rw [hshown, if_pos rfl]
    exact Int.max_eq_left (width_window_le hspace hmark line v.x hv)
  | false =>
    have hshown : plain (styledLine false (window line v.x v.width).text) = _ := plain_paint hesc
    rw [hshown]
    rfl

/-- A window on a tidy line shows it as it is. -/
theorem spacedText_of_tidy (h : Tidy startsLiteral line) :
    spacedText v line = (window line v.x v.width).text :=
  (spaced_eq_self_iff _).mpr (h.window v.x v.width)

omit [Glyphs] in
/-- The lines shown are lines of the list, or the empty line where there are none. -/
theorem forall_mem_shownLines (v : View) {P : Text → Prop} (hnil : P [])
    (h : ∀ line ∈ lines, P line) : ∀ line ∈ shownLines v lines, P line := by
  intro line hline
  have hmem := List.mem_of_mem_drop (List.mem_of_mem_take hline)
  split at hmem
  · rw [List.mem_singleton.mp hmem]
    exact hnil
  · exact h line hmem

theorem visibleWidth_blank (hspace : cells ' ' = 1) (hv : 0 ≤ v.width) :
    (visibleWidth (spaces v.width.toNat) : Int) = v.width := by
  rw [visibleWidth_spaces hspace]
  omega

section Rows

variable {store : PaintStore} (hs : store.Coherent)
include hs

theorem length_rows : ((rows v isError store lines).1.length : Int) = max 0 v.height := by
  have hshown : (shownLines v lines).length ≤ v.height.toNat := List.length_take_le _ _
  rw [rows_eq v isError hs, List.length_append, List.length_map, List.length_replicate]
  omega

/-- What holds of blank rows and of the row of each line shown holds of all rows. -/
theorem forall_mem_rows_iff {P : Text → Prop} (hblank : P (spaces v.width.toNat)) :
    (∀ r ∈ (rows v isError store lines).1, P r) ↔
      ∀ line ∈ shownLines v lines, P (rowOf v isError line) := by
  rw [rows_eq v isError hs, List.forall_mem_append, List.forall_mem_map]
  refine and_iff_left fun r hr => ?_
  rw [List.eq_of_mem_replicate hr]
  exact hblank

/-- **All rows are exact** if they show an error, or no spaced text is wider than the window. -/
theorem exact_rows_iff (hspace : cells ' ' = 1) (hmark : cells mark = 1) (hv : 0 ≤ v.width)
    (hesc : ∀ line ∈ lines, esc ∉ line) :
    (∀ r ∈ (rows v isError store lines).1, (visibleWidth r : Int) = v.width) ↔
      isError = true ∨
        ∀ line ∈ shownLines v lines, ((spacedText v line).width : Int) ≤ v.width := by
  have hrow : ∀ line ∈ shownLines v lines, (visibleWidth (rowOf v isError line) : Int) =
      if isError then v.width else max v.width (spacedText v line).width := fun line hline =>
    visibleWidth_rowOf hspace hmark hv (forall_mem_shownLines v List.not_mem_nil hesc line hline)
  refine (forall_mem_rows_iff hs (visibleWidth_blank hspace hv)).trans ?_
  cases isError with
  | true => exact iff_of_true hrow (.inl rfl)
  | false =>
    rw [or_iff_right Bool.false_ne_true]
    refine forall₂_congr fun line hline => ?_
    rw [hrow line hline, if_neg Bool.false_ne_true]
    omega

end Rows

/-- **The rows of a window**, whatever has been painted before: there are as many as the window is
high, and none is narrower than the window.  All of them are exactly as wide if they show an error;
rows of JSON are so exactly if no text becomes wider than the window where one space is put before
each literal behind a colon.  None does in a window on lines that have these spaces. -/
theorem rows_width_iff (hspace : cells ' ' = 1) (hmark : cells mark = 1) (capacity : Int)
    (asked : List Text) (v : View) (isError : Bool) {lines : List Text} (hv : 0 ≤ v.width)
    (hesc : ∀ line ∈ lines, esc ∉ line) :
    let rs := (rows v isError ((PaintStore.ofCapacity capacity).after asked) lines).1
    let allExact := ∀ r ∈ rs, (visibleWidth r : Int) = v.width
    (rs.length : Int) = max 0 v.height ∧
    (∀ r ∈ rs, v.width ≤ visibleWidth r) ∧
    (allExact ↔ isError = true ∨
      ∀ line ∈ shownLines v lines, ((spacedText v line).width : Int) ≤ v.width) ∧
    ((∀ line ∈ lines, Tidy startsLiteral line) → allExact) := by
  intro rs allExact
  have hs := (PaintStore.coherent_ofCapacity capacity).after asked
  have hexact : allExact ↔ _ := exact_rows_iff hs hspace hmark hv hesc
  refine ⟨length_rows hs, ?_, hexact, fun htidy => ?_⟩
  · rw [forall_mem_rows_iff hs (Int.le_of_eq (visibleWidth_blank hspace hv).symm)]
    exact fun line _ => le_visibleWidth_rowOf hspace v isError line
  · refine hexact.mpr (.inr fun line hline => ?_)
    rw [spacedText_of_tidy (forall_mem_shownLines v tidy_nil htidy line hline)]
    exact width_window_le hspace hmark line v.x hv

end

/-- A window into the middle of a line, of which it shows one digit of four, and a row below it;
the store has room for one line and has been used. -/
theorem rows_width_iff_cut :
    let v : View := ⟨3, 0, 8, 2⟩
    let lines := ["  \"at\": 1234".toList]
    let rs := (rows v false ((PaintStore.ofCapacity 0).after ["[".toList, "]".toList]) lines).1
    (cells ' ' = 1 ∧ cells mark = 1 ∧ 0 ≤ v.width ∧ ∀ line ∈ lines, esc ∉ line) ∧
      rs.map plain = ["…at\": 1…".toList, "        ".toList] ∧
      ∀ r ∈ rs, (visibleWidth r : Int) = v.width := by
  intro v lines rs
  have hspace : cells ' ' = 1 := by decide
  have hmark : cells mark = 1 := by decide
  have hwidth : 0 ≤ v.width := by decide
  have hesc : ∀ line ∈ lines, esc ∉ line := by decide
  have hspaced : ∀ line ∈ lines, spaced startsLiteral line = line := by decide +kernel
  have hplain : rs.map plain = ["…at\": 1…".toList, "        ".toList] := by decide +kernel
  have hwidths := (rows_width_iff hspace hmark 0 ["[".toList, "]".toList] v false hwidth hesc).2.2.2
  exact ⟨⟨hspace, hmark, hwidth, hesc⟩, hplain,
    hwidths fun line hline => (spaced_eq_self_iff line).mp (hspaced line hline)⟩

/-- A line of fourteen cells in a window of fourteen: the digits of the string get a space, and the
row a cell more than the window has. -/
theorem row_too_wide :
    let line := "  \"t\": \"12:30\"".toList
    let rs := (rows ⟨0, 0, 14, 1⟩ false (PaintStore.ofCapacity 4096) [line]).1
    esc ∉ line ∧ rs.map plain = ["  \"t\": \"12: 30\"".toList] ∧ rs.map visibleWidth = [15] := by
  decide +kernel

end Display

end LiveQuery
