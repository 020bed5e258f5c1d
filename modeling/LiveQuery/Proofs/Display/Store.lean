/-
LiveQuery/Proofs/Display/Store.lean

The store of painted lines forgets the oldest line first, and nobody sees it.

A line is missed if it is painted while the store does not keep it.  A missed line goes to the end
of the store, where it was kept before or not, and a line that is found stays where it is.

Design.  What is kept after some lines is described by the lines missed on the way (`missed`): a
missed line is put behind them, and the store keeps their end, as much of it as there is room for.
This is an invariant of each single line (`keys_paint`), whatever was missed before.  A window
paints the lines that it shows one after the other, so that the history of a store is a list of
lines, windows included (`rows_after`).

Main result: `keeps_last_missed`.
-/
import Mathlib.Data.List.DropRight
import LiveQuery.Display.Wide
import LiveQuery.Proofs.Display.Rows

namespace LiveQuery

open Display

/-! ### Ends of lists -/

section

variable {α : Type} {l : List α} {n : Nat}

theorem length_rtake (l : List α) (n : Nat) : (l.rtake n).length = min n l.length := by
  rw [List.rtake, List.length_drop]
  omega

/-- The end of a longer list is the end of the shorter one with the new item, less the item at its
front if it is full. -/
theorem rtake_concat (l : List α) (n : Nat) (a : α) :
    (l ++ [a]).rtake n =
      if n < (l.rtake n ++ [a]).length then (l.rtake n ++ [a]).drop 1 else l.rtake n ++ [a] := by
  have hlength : (l.rtake n ++ [a]).length = min n l.length + 1 := by
    rw [List.length_append, length_rtake, List.length_singleton]
  rw [hlength]
  split
  · next hfull =>
    -- the list has been cut already, and loses one item more
    have hcut : l.length + 1 - n = l.length - n + 1 := by omega
    rw [List.rtake, List.rtake, List.length_append, List.length_singleton, hcut,
      ← List.drop_append_of_le_length (Nat.sub_le l.length n), List.drop_drop]
  · next hroom =>
    have huncut : l.length + 1 - n = 0 := by omega
    have huncut' : l.length - n = 0 := by omega
    rw [List.rtake, List.rtake, List.length_append, List.length_singleton, huncut, huncut']
    rfl

end

namespace PaintStore

variable {s : PaintStore} {line : Text}

/-! ### What is kept -/

/-- The lines that are kept, oldest first. -/
def keys (s : PaintStore) : List Text := s.lines.map Prod.fst

/-- Whether painting a line puts it into the store: it is not empty, and not kept. -/
def misses (s : PaintStore) (line : Text) : Bool := !line.isEmpty && !s.keys.contains line

/-- The lines that are missed while some are painted one after the other. -/
def missed (s : PaintStore) : List Text → List Text
  | [] => []
  | line :: rest =>
    (if s.misses line then [line] else []) ++ missed (s.paint line).2 rest

theorem get?_eq_none_iff : s.get? line = none ↔ line ∉ s.keys := by
  rw [get?, Option.map_eq_none_iff, List.find?_eq_none, keys, List.mem_map]
  constructor
  · rintro h ⟨e, he, rfl⟩
    exact h e he (decide_eq_true rfl)
  · intro h e he heq
    exact h ⟨e, he, of_decide_eq_true heq⟩

/-- A line that is missed is put at the end, and the oldest one makes room; all other lines leave
the store as it is. -/
theorem keys_paint (s : PaintStore) (line : Text) :
    (s.paint line).2.capacity = s.capacity ∧
      (s.paint line).2.keys =
        if s.misses line then
          if s.capacity < (s.keys ++ [line]).length then (s.keys ++ [line]).drop 1
          else s.keys ++ [line]
        else s.keys := by
  unfold paint misses
  rcases hempty : line.isEmpty with - | -
  · rcases hkept : s.get? line with - | styled
    · have hmiss : line ∉ s.keys := get?_eq_none_iff.mp hkept
      have hlength : (s.lines ++ [(line, Display.paint line)]).length =
          (s.keys ++ [line]).length := by simp [keys]
      have hkeys : (s.lines ++ [(line, Display.paint line)]).map Prod.fst = s.keys ++ [line] := by
        simp [keys]
      refine ⟨rfl, ?_⟩
      simp only [Bool.not_false, Bool.true_and, List.contains_eq_mem, hmiss, decide_false,
        if_true, Bool.false_eq_true, if_false, hlength]
      split
      · rw [← hkeys, ← List.map_drop]
        rfl
      · exact hkeys
    · have hfound : line ∈ s.keys := by
        by_contra hmiss
        exact absurd (get?_eq_none_iff.mpr hmiss) (by simp [hkept])
      simp [hfound]
  · simp

/-- **A store that keeps the end of what was missed goes on to do so.** -/
theorem keys_after (past asked : List Text) (hs : s.keys = past.rtake s.capacity) :
    (s.after asked).keys = (past ++ s.missed asked).rtake s.capacity := by
  induction asked generalizing s past with
  | nil =>
    rw [missed, List.append_nil]
    exact hs
  | cons line rest ih =>
    obtain ⟨hcapacity, hkeys⟩ := keys_paint s line
    have hstep : (s.paint line).2.keys =
        (past ++ if s.misses line then [line] else []).rtake s.capacity := by
      rw [hkeys, hs]
      split
      · exact (rtake_concat past s.capacity line).symm
      · rw [List.append_nil]
    have hrest := ih _ (hstep.trans (by rw [hcapacity]))
    rw [hcapacity, List.append_assoc] at hrest
    exact hrest

theorem after_append (s : PaintStore) (asked more : List Text) :
    s.after (asked ++ more) = (s.after asked).after more := List.foldl_append

end PaintStore

namespace Display

open PaintStore

section

variable [Glyphs]

/-! ### Windows -/

/-- The lines that a window paints: none if it shows an error. -/
def asksFor (v : View) (isError : Bool) (lines : List Text) : List Text :=
  if isError then [] else lines.map fun line => (window line v.x v.width).text

theorem rowsOf_after (v : View) (isError : Bool) (store : PaintStore) (lines : List Text) :
    (rowsOf v isError store lines).2 = store.after (asksFor v isError lines) := by
  induction lines generalizing store with
  | nil => cases isError <;> rfl
  | cons line rest ih =>
    have hrow : (row v isError store line).2 = store.after (asksFor v isError [line]) := by
      cases isError <;> rfl
    have hasks : asksFor v isError (line :: rest) =
        asksFor v isError [line] ++ asksFor v isError rest := by
      cases isError <;> rfl
    rw [hasks, PaintStore.after_append, ← hrow]
    exact ih _

/-- Drawing a window paints the lines that it shows. -/
theorem rows_after (v : View) (isError : Bool) (store : PaintStore) (lines : List Text) :
    (rows v isError store lines).2 = store.after (asksFor v isError (shownLines v lines)) :=
  rowsOf_after v isError store (shownLines v lines)

end

end Display

namespace PaintStore

section

variable [Glyphs]

/-! ### The history of a store -/

/-- What is asked of a store: a line, or the rows of a window. -/
inductive Request
  | line (text : Text)
  | rows (v : View) (isError : Bool) (lines : List Text)

/-- The state after a request. -/
def Request.next : Request → PaintStore → PaintStore
  | line text, s => (s.paint text).2
  | rows v isError lines, s => (Display.rows v isError s lines).2

/-- The lines that a request paints. -/
def Request.lines : Request → List Text
  | line text => [text]
  | rows v isError lines => asksFor v isError (shownLines v lines)

/-- The state after some requests. -/
def served (rs : List Request) (s : PaintStore) : PaintStore := rs.foldl (fun s r => r.next s) s

/-- Requests are the lines that they paint, one after the other. -/
theorem served_eq (rs : List Request) (s : PaintStore) :
    served rs s = s.after (rs.flatMap Request.lines) := by
  induction rs generalizing s with
  | nil => rfl
  | cons r rest ih =>
    have hfirst : r.next s = s.after r.lines := by
      cases r with
      | line text => rfl
      | rows v isError lines => exact rows_after v isError s lines
    rw [List.flatMap_cons, after_append, ← hfirst]
    exact ih (r.next s)

/-- **The store keeps the lines that were missed last, and is not seen.**  Whatever has been asked
of a store of any capacity, it keeps the last of the lines it has missed, as many as there is room
for, in the order in which they were missed; each line comes out as painting gives it, and the rows
of a window are those that any other store would give. -/
theorem keeps_last_missed (capacity : Int) (rs : List Request) :
    let s := served rs (ofCapacity capacity)
    let missed := (ofCapacity capacity).missed (rs.flatMap Request.lines)
    s.keys = missed.rtake (max 1 capacity.toNat) ∧
      s.size = min (max 1 capacity.toNat) missed.length ∧
      (∀ line, (s.paint line).1 = Display.paint line) ∧ Display.paint [] = [] ∧
      ∀ v isError lines capacity' rs',
        (Display.rows v isError s lines).1 =
          (Display.rows v isError (served rs' (ofCapacity capacity')) lines).1 := by
  intro s missed
  have hcoherent (c : Int) (rs : List Request) : (served rs (ofCapacity c)).Coherent := by
    rw [served_eq]
    exact (coherent_ofCapacity c).after _
  have hkeys : s.keys = missed.rtake (max 1 capacity.toNat) := by
    have hafter := keys_after (s := ofCapacity capacity) [] (rs.flatMap Request.lines)
      (List.rtake_nil _ |>.symm)
    rw [← served_eq] at hafter
    exact hafter
  refine ⟨hkeys, ?_, fun line => ((hcoherent capacity rs).paint line).1, rfl, ?_⟩
  · rw [← length_rtake, ← hkeys, keys, List.length_map]
    rfl
  · intro v isError lines capacity' rs'
    rw [rows_eq v isError (hcoherent capacity rs), rows_eq v isError (hcoherent capacity' rs')]

end

/-- A line that has been forgotten comes back as the newest one, and one that is found stays. -/
example :
    (served [.line "a".toList, .line "b".toList, .line "a".toList, .line "c".toList,
      .line "a".toList] (ofCapacity 2)).keys = ["c".toList, "a".toList] := by
  decide +kernel

end PaintStore

end LiveQuery
