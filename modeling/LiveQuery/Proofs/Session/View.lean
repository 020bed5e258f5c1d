/-
LiveQuery/Proofs/Session/View.lean

What is seen of a session: the lines of its outcome, the window that stands on them, and the
suggestion that is selected.

A command may move the window by any number, backwards or past the end, give it any width, or
select any suggestion, and at any moment an outcome with fewer or narrower lines may take the place
of the one that is shown.

Design.  What a command may do to all this is said once (`Session.Viewed`, `viewed_inputNext`).
That the window stands on its lines (`Session.Framed`) and the selection is among the suggestions
(`Session.Selects`) then follow, except that a selection by number may be any.

Main result: `view_after`.
-/
import LiveQuery.Display.Wide
import LiveQuery.Proofs.Path.Stream
import LiveQuery.Proofs.Session.Upkeep

namespace LiveQuery

theorem Text.pieces_ne_nil (c : Char) (t : Text) : pieces c t ≠ [] := by
  cases t with
  | nil => simp [pieces]
  | cons d rest =>
    rw [pieces]
    split
    · simp
    · split <;> simp

theorem Outcome.lines_ne_nil (o : Outcome) : o.lines ≠ [] := by
  cases o with
  | output t => exact Text.pieces_ne_nil Text.newline t
  | failed e => exact Text.pieces_ne_nil Text.newline e.message

namespace Session

variable {c c' : Session}

/-! ### Windows and selections -/

/-- A session shows the lines of an outcome that was not cancelled, and its window stands on
them. -/
structure Framed [Glyphs] (c : Session) : Prop where
  lines : c.lines = c.outcome.lines
  maxWidth : c.maxWidth = Text.maxWidth c.lines
  y_lt : c.y < c.lines.length
  x_le : c.x ≤ c.maxX
  shown : c.outcome.isCancelled = false

/-- The selection is among the suggestions, in the first place where there is none. -/
def Selects (c : Session) : Prop :=
  0 ≤ c.selected ∧ c.selected < max 1 (c.suggestions.length : Int)

/-- What a command may do to what is seen: the window is left where it is or put on the lines, and
so is the selection among the suggestions. -/
structure Viewed (c c' : Session) : Prop where
  outcome : c'.outcome = c.outcome
  lines : c'.lines = c.lines
  maxWidth : c'.maxWidth = c.maxWidth
  y_le : c'.y ≤ c.y ∨ c'.y ≤ c.lines.length - 1
  x_le : c'.x = c.x ∧ c'.width = c.width ∨ c'.x ≤ c'.maxX
  selection : c'.selected = c.selected ∧ c'.suggestions = c.suggestions ∨ c'.Selects

theorem Viewed.refl (c : Session) : Viewed c c :=
  ⟨rfl, rfl, rfl, .inl (Nat.le_refl _), .inl ⟨rfl, rfl⟩, .inl ⟨rfl, rfl⟩⟩

theorem Framed.viewed [Glyphs] (h : Framed c) (hv : Viewed c c') : Framed c' where
  lines := by rw [hv.lines, hv.outcome, h.lines]
  maxWidth := by rw [hv.maxWidth, hv.lines, h.maxWidth]
  y_lt := by
    have hy := h.y_lt
    rw [hv.lines]
    rcases hv.y_le with hle | hle <;> omega
  x_le := by
    rcases hv.x_le with ⟨hx, hwidth⟩ | hx
    · have hmax : c'.maxX = c.maxX := by rw [maxX, maxX, hv.maxWidth, hwidth]
      rw [hx, hmax]
      exact h.x_le
    · exact hx
  shown := by rw [hv.outcome, h.shown]

theorem Selects.viewed (h : Selects c) (hv : Viewed c c') : Selects c' := by
  rcases hv.selection with ⟨hselected, hsuggestions⟩ | hselects
  · unfold Selects
    rw [hselected, hsuggestions]
    exact h
  · exact hselects

/-! ### Moves of the window -/

theorem x_moveTo_le (x : Int) (c : Session) : (c.moveTo x).x ≤ (c.moveTo x).maxX := by
  show (min x (c.maxX : Int)).toNat ≤ c.maxX
  omega

theorem framed_ofSource [Glyphs] (source : Source) (name : Text) (capacity : Int) :
    Framed (Session.ofSource source name capacity) :=
  ⟨rfl, rfl, Nat.one_pos, Nat.zero_le _, rfl⟩

/-- An outcome that is taken may be shorter and narrower than the one before. -/
theorem framed_present [Glyphs] {o : Outcome} (ho : o.isCancelled = false) (c : Session) :
    Framed (Session.present o c) where
  lines := rfl
  maxWidth := rfl
  y_lt := by
    show min c.y (o.lines.length - 1) < o.lines.length
    have hlines := List.length_pos_iff.mpr o.lines_ne_nil
    omega
  x_le := x_moveTo_le ..
  shown := ho

/-- Wherever the window is moved to, it is put on the lines. -/
theorem viewed_moveTo (x : Int) (c : Session) : Viewed c (c.moveTo x) :=
  { Viewed.refl c with x_le := .inr (x_moveTo_le x c) }

theorem viewed_resize (width : Int) (c : Session) :
    Viewed c (Session.moveTo c.x { c with width }) :=
  { Viewed.refl c with x_le := .inr (x_moveTo_le c.x { c with width }) }

theorem viewed_scroll (dy : Int) (c : Session) :
    Viewed c { c with y := (min (c.y + dy) (c.lines.length - 1)).toNat } := by
  refine { Viewed.refl c with y_le := .inr ?_ }
  show (min ((c.y : Int) + dy) (c.lines.length - 1)).toNat ≤ c.lines.length - 1
  omega

/-! ### Moves of the selection -/

/-- The first place is a selection, whatever is suggested. -/
theorem selects_first (h : c.selected = 0) : c.Selects := by
  unfold Selects
  omega

/-- The selection is moved around the ends of the suggestions. -/
theorem viewed_cycle (hc : c.suggestions ≠ []) (i : Int) :
    Viewed c { c with selected := Int.fmod i c.suggestions.length } := by
  have hlength : (0 : Int) < c.suggestions.length :=
    Int.natCast_pos.mpr (List.length_pos_iff.mpr hc)
  have hnonneg := Int.fmod_nonneg_of_pos i hlength
  have hlt := Int.fmod_lt_of_pos i hlength
  refine { Viewed.refl c with selection := .inr ?_ }
  show 0 ≤ Int.fmod i c.suggestions.length ∧
    Int.fmod i c.suggestions.length < max 1 (c.suggestions.length : Int)
  omega

end Session

namespace Desk

open Dispatcher

variable {τ : Type} {d : Desk τ}

/-! ### What happens to a session -/

/-- A request of a command changes nothing of what is seen but the keys. -/
theorem viewed_fetched [Glyphs] {c : Session} (h : Session.Viewed c d.client) :
    Session.Viewed c (fetched d).client := by
  rcases fetched_cases d with ⟨-, he⟩ | ⟨-, -, he⟩
  · rw [he]
    exact h
  · rw [he]
    exact { h with }

/-- After completing, the first suggestion is selected. -/
theorem viewed_tabbed (c : Session) : Session.Viewed c (tabbed c) := by
  have hsame := Session.Viewed.refl c
  unfold tabbed
  split
  · exact { hsame with selection := .inr (Session.selects_first rfl) }
  · exact { hsame with selection := .inr (Session.selects_first rfl) }

section

variable [Time τ] [Glyphs]

/-- **What commands do to the view.**  No command but a selection by number takes the window off its
lines or the selection off the suggestions. -/
theorem viewed_inputNext (hd : d.shut = false) {i : Input} (hi : ∀ j, i ≠ .select j) :
    Session.Viewed d.client (i.next d).client := by
  have hsame := Session.Viewed.refl d.client
  cases i with
  | start =>
    rw [Input.next, start_eq hd]
    exact viewed_fetched (d := ran d) hsame
  | setFilter text =>
    rw [Input.next, setFilter_eq hd]
    exact viewed_fetched (d := (d.onClient (Session.setText text)).queue) { hsame with }
  | tab =>
    rw [Input.next, tab_eq hd]
    split
    · exact viewed_fetched (d := (d.onClient tabbed).queue) (viewed_tabbed d.client)
    · exact viewed_tabbed d.client
  | accept =>
    rw [Input.next, accept_eq hd]
    split
    · next text _ =>
      exact viewed_fetched (d := ran (d.onClient (settled text)))
        { hsame with selection := .inr (Session.selects_first rfl) }
    · exact hsame
  | pickRecent text =>
    rw [Input.next, pickRecent_eq hd]
    exact viewed_fetched (d := ran (d.onClient fun s =>
      { Session.setText text s with mode := .normal })) { hsame with }
  | runNow text =>
    rw [Input.next, runNow_eq hd]
    exact { hsame with }
  | cycle step =>
    simp only [Input.next, Desk.cycle, session_bind]
    split
    · exact hsame
    · next hsome => exact Session.viewed_cycle (fun hnil => hsome (by simp [hnil])) _
  | select j => exact absurd rfl (hi j)
  | cancel => exact { hsame with selection := .inr (Session.selects_first rfl) }
  | commit =>
    simp only [Input.next, Desk.commit, session_bind]
    rcases d.client.outcome with raw | e
    · dsimp only
      split
      · exact hsame
      · exact { hsame with }
    · exact hsame
  | scroll dy => exact Session.viewed_scroll dy d.client
  | scrollAcross dx => exact Session.viewed_moveTo _ d.client
  | home => exact { hsame with x_le := .inr (Nat.zero_le _) }
  | toEnd => exact { hsame with x_le := .inr (Nat.le_refl _) }
  | resize width => exact Session.viewed_resize width d.client
  | visibleRows width height =>
    rcases width with - | w
    · exact { hsame with }
    · simp only [Input.next, Desk.visibleRows, session_bind]
      split
      · exact { Session.viewed_resize w d.client with }
      · exact { hsame with }

/-- Whatever the host does, the window stays on its lines: it is put back where an outcome comes
that is shorter or narrower, and one that was cancelled is not taken. -/
theorem framed_hostNext (hd : d.shut = false) (h : d.client.Framed) (m : HostMove τ) :
    (m.next d).client.Framed := by
  rw [HostMove.next, Move.act_eq hd]
  cases m with
  | fire i =>
    show (d.fired Session.hooks i).client.Framed
    rcases fired_cases Session.hooks i d with ⟨-, he⟩ | ⟨-, he⟩ | ⟨seq, -, -, he⟩
    all_goals
      rw [he]
      exact h
  | complete i =>
    show (d.complete Session.hooks i).client.Framed
    obtain ⟨memo, jobs, posted, he⟩ := complete_keeps d i
    rw [he]
    exact { h with }
  | deliver i =>
    show (d.delivered Session.hooks i).client.Framed
    rcases delivered_cases Session.hooks i d with
      ⟨-, he⟩ | ⟨seq, -, he⟩ | ⟨seq, o, -, he⟩ | ⟨path, answer, -, he⟩
    · rw [he]
      exact h
    · rw [he, Dispatcher.elapsed]
      split <;> exact h
    · rw [he]
      show (if d.commits seq o then Session.present o d.client else d.client).Framed
      split
      · next hcommits =>
        have ho : o.isCancelled = false := by
          simpa using (Bool.and_eq_true_iff.mp hcommits).2
        exact Session.framed_present ho d.client
      · exact h
    · rw [he]
      show (if d.wants Session.hooks path then Session.takeKeys path answer.toOption d.client
        else d.client).Framed
      split
      · exact { h with }
      · exact h
  | tick now => exact h

/-- Every happening keeps the window on its lines. -/
theorem framed_next (hd : d.shut = false) (h : d.client.Framed) (e : Happening τ) :
    (e.next d).client.Framed := by
  cases e with
  | host m => exact framed_hostNext hd h m
  | input i =>
    by_cases hi : ∃ j, i = .select j
    · obtain ⟨j, rfl⟩ := hi
      exact { h with }
    · exact h.viewed (viewed_inputNext hd fun j hj => hi ⟨j, hj⟩)

/-- Every happening but a selection by number keeps the selection among the suggestions. -/
theorem selects_next (hd : d.shut = false) (h : d.client.Selects) {e : Happening τ}
    (he : ∀ j, e ≠ .input (.select j)) : (e.next d).client.Selects := by
  cases e with
  | host m =>
    obtain ⟨memo, available, keysPath, outcome, lines, maxWidth, x, y, hclient⟩ :=
      hostNext_frame hd m
    show (m.next d).client.Selects
    rw [hclient]
    exact h
  | input i => exact h.viewed (viewed_inputNext hd fun j hj => he j (hj ▸ rfl))

/-! ### Runs -/

/-- What each happening of a run keeps of a session in order, the run keeps. -/
theorem inOrder_after {s : Source} {P : Session → Prop} {es : List (Happening τ)}
    (hnext : ∀ e ∈ es, ∀ d : Desk τ, d.shut = false → P d.client → P (e.next d).client)
    (ho : InOrder s d) (h : P d.client) : InOrder s (after es d) ∧ P (after es d).client := by
  induction es generalizing d with
  | nil => exact ⟨ho, h⟩
  | cons e rest ih =>
    have hfirst := hnext e List.mem_cons_self d ho.shut h
    exact ih (fun e' he' => hnext e' (List.mem_cons_of_mem e he')) (ho.next e) hfirst

/-- **What is seen of a session.**  Whatever has happened to it, a session shows the lines of its
outcome, of which there is at least one and which was not cancelled; its window stands on these
lines and within the widest of them; and its context is the one of its filter.  The selection is
among the suggestions, as long as none has been selected by its number. -/
theorem view_after (source : Source) (name : Text) (capacity : Int) (recording : Bool)
    (es : List (Happening τ)) :
    let c := (after es (ofSession (Session.ofSource source name capacity) recording)).client
    c.lines = c.outcome.lines ∧ c.lines ≠ [] ∧ c.outcome.isCancelled = false ∧
      c.maxWidth = Text.maxWidth c.lines ∧
      (c.y : Int) ≤ c.lines.length - 1 ∧ (c.x : Int) ≤ max 0 ((c.maxWidth : Int) - c.width) ∧
      c.context = Context.ofText (m := Id) source.evaluator.isValid c.filter ∧
      ((∀ j, .input (.select j) ∉ es) →
        0 ≤ c.selected ∧ c.selected < max 1 (c.suggestions.length : Int)) := by
  intro c
  have hstart : InOrder source
      (ofSession (Session.ofSource source name capacity) recording : Desk τ) :=
    .ofSession source name capacity recording
  have hall : ∀ e ∈ es, ∀ d : Desk τ, d.shut = false → d.client.Framed →
      (e.next d).client.Framed :=
    fun e _ d hd h => framed_next hd h e
  obtain ⟨ho, hframed⟩ :=
    inOrder_after hall hstart (Session.framed_ofSource source name capacity)
  have hy : c.y < c.lines.length := hframed.y_lt
  have hx : c.x ≤ ((c.maxWidth : Int) - c.width).toNat := hframed.x_le
  refine ⟨hframed.lines, ?_, hframed.shown, hframed.maxWidth, by omega, by omega,
    ho.fits.context, ?_⟩
  · exact List.ne_nil_of_length_pos (Nat.zero_lt_of_lt hy)
  · intro hes
    have hnext : ∀ e ∈ es, ∀ d : Desk τ, d.shut = false → d.client.Selects →
        (e.next d).client.Selects := by
      intro e he d hd h
      exact selects_next hd h fun j hj => hes j (hj ▸ he)
    exact (inOrder_after hnext hstart (Session.selects_first rfl)).2

end

/-- The window stands on the last of three lines, and a suggestion is selected backwards; then the
output becomes a single line. -/
theorem view_after_shrunk :
    let source := Source.overPaths (.object [("a".toList, .int 1)])
    let es : List (Happening Float) :=
      [.input .start, .host (.complete 0), .host (.deliver 0), .input (.scroll 9), .input .tab,
       .input (.cycle (-1)), .input (.setFilter ".a".toList), .host (.fire 0), .host (.complete 2),
       .host (.deliver 0)]
    let c := (after es (ofSession (Session.ofSource source [] 16) false)).client
    (∀ j, .input (.select j) ∉ es) ∧
      c.lines = ["1".toList] ∧ (c.y : Int) ≤ c.lines.length - 1 ∧
      c.suggestions = ["a".toList] ∧ 0 ≤ c.selected ∧
      c.selected < max 1 (c.suggestions.length : Int) := by
  intro source es c
  have hes : ∀ j, .input (.select j) ∉ es := by simp [es]
  obtain ⟨-, -, -, -, hy, -, -, hselects⟩ := view_after source [] 16 false es
  exact ⟨hes, by decide +kernel, hy, by decide +kernel, hselects hes⟩

end Desk

end LiveQuery
