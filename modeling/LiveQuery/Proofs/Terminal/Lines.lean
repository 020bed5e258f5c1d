/-
LiveQuery/Proofs/Terminal/Lines.lean

What an interactive loop has shown and kept after lines that are filters.

Design.  Printing leaves the session as it is (`Prints`), so that a line does to the session what
its commands do: the filter is typed and waited for, the window is drawn, and a result without an
error is committed (`answerLine_plain`).  After each line the session is idle at that line, whatever
the lines before it have left behind (`Looped.Answered`), and the lines follow by induction from the
last one.

Main result: `recent_of_lines`, that after each line the result is that of executing this line, and
which lines have been kept.
-/
import LiveQuery.Display.Wide
import LiveQuery.Proofs.Host.Typing
import LiveQuery.Proofs.Session.Recent
import LiveQuery.Terminal.Repl

namespace LiveQuery

namespace Terminal

open Looped

/-! ### Printing -/

section Printing

variable {τ : Type}

/-- The operation prints something and does nothing else. -/
def Prints (op : Op τ Unit) : Prop := ∀ c, ∃ out, op c = (.ok (), { c with out })

theorem Prints.bind {x : Op τ Unit} {f : Unit → Op τ Unit} (hx : Prints x)
    (hf : Prints (f ())) : Prints (x >>= f) := by
  intro c
  obtain ⟨out, hx⟩ := hx c
  obtain ⟨out', hf⟩ := hf { c with out }
  exact ⟨out', (bind_ok hx).trans hf⟩

theorem prints_pure : Prints (pure () : Op τ Unit) := fun c => ⟨c.out, rfl⟩

theorem prints_say (t : Text) : Prints (say t : Op τ Unit) := fun _ => ⟨_, rfl⟩

theorem tinted_ok (parameters : String) (t : Text) (c : Console τ) :
    ∃ t', tinted parameters t c = (.ok t', c) := by
  unfold tinted
  rw [get_bind]
  split <;> exact ⟨_, rfl⟩

theorem prints_sayIn (parameters : String) (t : Text) :
    Prints (sayIn parameters t : Op τ Unit) := by
  intro c
  obtain ⟨t', ht⟩ := tinted_ok parameters t c
  obtain ⟨out, hsay⟩ := prints_say t' c
  exact ⟨out, (bind_ok ht).trans hsay⟩

theorem prints_rows (f : Text → Text) (rows : List Text) :
    Prints (do for row in rows do say (f row) : Op τ Unit) := by
  refine Prints.bind ?_ prints_pure
  induction rows with
  | nil => exact prints_pure
  | cons row rest ih =>
    intro c
    obtain ⟨out, hsay⟩ := prints_say (f row) c
    obtain ⟨out', hrest⟩ := ih { c with out }
    have hrow : (say (f row) >>= fun _ => pure (.yield ⟨⟩) : Op τ (ForInStep PUnit)) c =
        (.ok (.yield ⟨⟩), { c with out }) := bind_ok hsay
    rw [List.forIn_cons, bind_ok hrow]
    exact ⟨out', hrest⟩

theorem session_bind {α : Type} (f : Session → Op τ α) (c : Console τ) :
    (session >>= f) c = f c.looped.desk.client c := rfl

theorem prints_printKeys : Prints (printKeys : Op τ Unit) := by
  intro c
  unfold printKeys
  rw [session_bind]
  dsimp only
  split
  · exact prints_sayIn _ _ c
  · obtain ⟨t, ht⟩ := tinted_ok quiet _ c
    rw [bind_ok ht]
    exact prints_say _ c

end Printing

section

variable [Glyphs]

/-! ### Commands of the session -/

omit [Glyphs] in
theorem onLoop_ok {α : Type} {op : Looped.Op ℚ α} {c : Console ℚ} {a : α} {s : Looped ℚ}
    (h : op c.looped = (.ok a, s)) : onLoop op c = (.ok a, { c with looped := s }) := by
  show ((op c.looped).1, { c with looped := (op c.looped).2 }) = _
  rw [h]

/-- A command that raises nothing answers at the terminal. -/
theorem command_ok {α : Type} {cmd : Command ℚ α} (hok : ∀ d, ∃ a, (cmd d).1 = .ok a)
    (c : Console ℚ) :
    ∃ a, command cmd c = (.ok a, { c with looped := (perform cmd c.looped).2 }) := by
  obtain ⟨a, ha⟩ := hok { c.looped.desk with now := c.looped.loop.now }
  exact ⟨a, Prod.ext ha rfl⟩

theorem visibleRows_ok (width : Option Int) (height : Int) (d : Desk ℚ) :
    ∃ rows, (Desk.visibleRows width height d).1 = .ok rows := by
  rcases width with - | w
  · exact ⟨_, rfl⟩
  · unfold Desk.visibleRows
    simp only [Desk.session_bind]
    split <;> exact ⟨_, rfl⟩

omit [Glyphs] in
theorem commit_ok (d : Desk ℚ) : ∃ kept, (Desk.commit d).1 = .ok kept := by
  unfold Desk.commit
  rw [Desk.session_bind]
  rcases d.client.outcome with raw | e
  · dsimp only
    split <;> exact ⟨_, rfl⟩
  · exact ⟨_, rfl⟩

/-- The window is printed, and drawn by a command of the session. -/
theorem printWindow_ok (size : Size) (c : Console ℚ) :
    ∃ out, printWindow size c =
      (.ok (), { c with
        out
        looped := (perform (Desk.visibleRows (some size.width) size.height) c.looped).2 }) := by
  obtain ⟨rows, hrows⟩ := command_ok (visibleRows_ok (some size.width) size.height) c
  obtain ⟨out, hprint⟩ := prints_rows
    (fun row => (if c.colours then row else Display.plain row).trimRight) rows
    { c with looped := (perform (Desk.visibleRows (some size.width) size.height) c.looped).2 }
  refine ⟨out, ?_⟩
  unfold printWindow
  rw [bind_ok hrows, get_bind]
  exact hprint

/-! ### Lines -/

/-- A line that is a filter: it is not empty, and no colon is first behind its blanks. -/
def IsFilter (raw : Text) : Prop := raw ≠ [] ∧ raw.trim.startsWith [':'] = false

omit [Glyphs] in
theorem ofText_of_isFilter {raw : Text} (h : IsFilter raw) : Line.ofText raw = .filter raw := by
  unfold Line.ofText
  rw [if_neg (by simpa using h.1)]
  dsimp only
  rw [h.2]
  rfl

/-- Whether executing a filter succeeds with an output that is not empty. -/
def yields (source : Source) (text : Text) : Bool :=
  match Outcome.ofRun (source.execute text .none {}).1.1 with
  | .output raw => !raw.isEmpty
  | .failed _ => false

variable {source : Source} {debounce : ℚ} {raw : Text} {recent : Recent} {s : Looped ℚ}

theorem recent_visibleRows (width : Option Int) (height : Int) (d : Desk ℚ) :
    ((Desk.Input.visibleRows width height).next d).client.recent = d.client.recent := by
  rcases width with - | w
  · rfl
  · simp only [Desk.Input.next, Desk.visibleRows, Desk.session_bind]
    split <;> rfl

omit [Glyphs] in
/-- An answered session shows whether its filter has an output. -/
theorem yields_eq (h : Answered source debounce raw recent s) :
    yields source raw =
      match s.desk.client.outcome with
      | .output output => !output.isEmpty
      | .failed _ => false := by
  rw [yields, ← source.answer_eq_execute, h.outcome]

/-- A commit keeps the filter where its result has an output. -/
theorem recent_commit (h : Answered source debounce raw recent s) :
    (Desk.Input.commit.next { s.desk with now := s.loop.now }).client.recent =
      if yields source raw then recent.add raw else recent := by
  rw [yields_eq h, ← h.recent, ← h.filter]
  simp only [Desk.Input.next, Desk.commit, Desk.session_bind]
  rcases s.desk.client.outcome with (- | ⟨first, rest⟩) | e
  · rfl
  · rfl
  · rfl

/-- The answer to a line leaves it answered, and keeps it where its result has an output. -/
theorem printAnswer_ok (size : Size) (hs : source.NeverCancels) {c : Console ℚ}
    (h : Answered source debounce raw recent c.looped) :
    ∃ out s', printAnswer size c = (.ok (), { c with out, looped := s' }) ∧
      Answered source debounce raw (if yields source raw then recent.add raw else recent) s' := by
  obtain ⟨out, hwindow⟩ := printWindow_ok size c
  have hdrawn := h.look hs (c := Desk.visibleRows (some size.width) size.height)
    (i := .visibleRows (some size.width) size.height) rfl fun _ => rfl
  rw [recent_visibleRows] at hdrawn
  have hdrawn : Answered source debounce raw recent _ := { hdrawn with
    recent := hdrawn.recent.trans h.recent }
  -- from here on only that the session has been drawn matters, not how
  generalize (perform (Desk.visibleRows (some size.width) size.height) c.looped).2 = s
    at hwindow hdrawn
  have hkept := hdrawn.look hs (c := Desk.commit) (i := .commit) rfl fun _ => rfl
  rw [recent_commit hdrawn] at hkept
  unfold printAnswer
  rw [bind_ok hwindow, session_bind]
  rcases houtcome : s.desk.client.outcome with output | e
  · obtain ⟨answer, hcommit⟩ := command_ok commit_ok { c with out, looped := s }
    obtain ⟨out', hkeys⟩ := prints_printKeys { c with out, looped := (perform Desk.commit s).2 }
    refine ⟨out', _, ?_, hkept⟩
    dsimp only
    rw [bind_ok hcommit]
    exact hkeys
  · obtain ⟨out', herror⟩ := prints_sayIn alarm ("Error: ".toList ++ e.message)
      { c with out, looped := s }
    obtain ⟨out'', hkeys⟩ := prints_printKeys { c with out := out', looped := s }
    have hyields : yields source raw = false := by rw [yields_eq hdrawn, houtcome]
    refine ⟨out'', s, ?_, ?_⟩
    · dsimp only
      rw [bind_ok herror]
      exact hkeys
    · rwa [hyields]

omit [Glyphs] in
/-- The loop waits for ten seconds. -/
theorem defaultTimeout_later (h : debounce < 10) :
    (0 : ℚ) < Time.ofMillis defaultTimeout ∧ debounce < Time.ofMillis defaultTimeout := by
  have hten : (Time.ofMillis defaultTimeout : ℚ) = 10 := by
    rw [Time.ofMillis_rat, defaultTimeout]
    norm_num
  rw [hten]
  exact ⟨by norm_num, h⟩

variable {c : Console ℚ}

/-- A line that is a filter is answered, and kept where its result has an output. -/
theorem answerLine_ok (size : Size) (hs : source.NeverCancels) (hdebounce : debounce < 10)
    (h : Goes source debounce c.looped) (hraw : IsFilter raw) :
    ∃ c', answerLine size raw c = (.ok true, c') ∧
      Answered source debounce raw
        (if yields source raw then c.looped.desk.client.recent.add raw
          else c.looped.desk.client.recent) c'.looped := by
  obtain ⟨hpos, hlater⟩ := defaultTimeout_later hdebounce
  obtain ⟨s₁, s₂, hset, hsettle, hanswered⟩ := h.typed hs hpos hlater raw
  obtain ⟨out, s₃, hprint, hkept⟩ := printAnswer_ok size hs (c := { c with looped := s₂ }) hanswered
  have hline : doLine size (.filter raw) c = (.ok true, { c with looped := s₁ }) :=
    bind_ok (onLoop_ok hset)
  have hwait : onLoop (Looped.settle defaultTimeout) { c with looped := s₁ } =
      (.ok true, { c with looped := s₂ }) := onLoop_ok hsettle
  refine ⟨{ c with out, looped := s₃ }, ?_, hkept⟩
  unfold answerLine
  rw [ofText_of_isFilter hraw]
  dsimp only
  rw [bind_ok hline, if_pos rfl, bind_ok hwait, bind_ok hprint]
  rfl

/-- The loop begins with the filter of the document, which is not kept. -/
theorem greet_ok (hs : source.NeverCancels) (hdebounce : debounce < 10)
    (h : Goes source debounce c.looped) :
    ∃ c', greet c = (.ok (), c') ∧ Goes source debounce c'.looped ∧
      c'.looped.desk.client.recent = c.looped.desk.client.recent := by
  obtain ⟨hpos, hlater⟩ := defaultTimeout_later hdebounce
  obtain ⟨o, s', hrun, hgoes, hrecent⟩ := h.run hs hpos hlater ['.']
  obtain ⟨out, husage⟩ := prints_say
    "Type a jq filter and press Enter (empty line to quit).".toList c
  obtain ⟨out', hcommands⟩ := prints_sayIn quiet
    ("Commands: :tab [n], :hist [n], :left, :right, :home, :end, :up, :down, " ++
      ":telemetry, :clear").toList { c with out }
  have hfirst : onLoop (Looped.run ['.'] defaultTimeout) { c with out := out' } =
      (.ok o, { c with out := out', looped := s' }) := onLoop_ok hrun
  refine ⟨{ c with out := out', looped := s' }, ?_, hgoes, hrecent⟩
  unfold greet
  rw [bind_ok husage, bind_ok hcommands, bind_ok hfirst]
  rfl

/-- Lines that are filters are answered one after the other, with whatever lines follow. -/
theorem answerLines_append (size : Size) (hs : source.NeverCancels) (hdebounce : debounce < 10)
    (h : Goes source debounce c.looped) {lines : List Text} (hlines : ∀ raw ∈ lines, IsFilter raw) :
    ∃ c', (∀ rest, answerLines size (lines ++ rest) c = answerLines size rest c') ∧
      Goes source debounce c'.looped ∧
      (∀ raw, lines.getLast? = some raw → c'.looped.desk.client.outcome = source.answer raw) ∧
      c'.looped.desk.client.recent =
        c.looped.desk.client.recent.addAll (lines.filter (yields source)) := by
  -- the result is that of the last line, so the lines are taken off at their end
  induction lines using List.reverseRecOn with
  | nil => exact ⟨c, fun _ => rfl, h, by simp, rfl⟩
  | append_singleton lines raw ih =>
    obtain ⟨c', hbefore, hgoes, -, hrecent⟩ := ih fun raw hraw => hlines raw (by simp [hraw])
    obtain ⟨c'', hline, hanswered⟩ := answerLine_ok size hs hdebounce hgoes
      (hlines raw (by simp))
    refine ⟨c'', fun rest => ?_, hanswered.toGoes, ?_, ?_⟩
    · rw [List.append_assoc, hbefore, List.singleton_append, answerLines, bind_ok hline]
      rfl
    · intro last hlast
      obtain rfl : raw = last := by simpa using hlast
      exact hanswered.outcome
    · rw [hanswered.recent, hrecent, List.filter_append]
      by_cases hyields : yields source raw
      · rw [if_pos hyields, List.filter_cons_of_pos hyields, List.filter_nil,
          Recent.addAll_concat]
      · rw [if_neg hyields, List.filter_cons_of_neg hyields, List.filter_nil, List.append_nil]

/-- **The law of the recent filters.**  An interactive loop over lines that are filters, on a fresh
session whose background ends each job at once, comes to a state from which it goes on with
whatever lines follow, and ends where none does.  There the result is that of executing exactly the
last line, and the recent filters are the lines so far whose execution gave an output: each of them
once, at its last entry, the most recent one first, and fifty of them at most. -/
theorem recent_of_lines (source : Source) (hs : source.NeverCancels) (name : Text) (capacity : Int)
    (recording : Bool) {debounce : ℚ} (hdebounce : debounce < 10) (size : Size) (start : Console ℚ)
    (lines : List Text) (hlines : ∀ raw ∈ lines, IsFilter raw) :
    let desk : Desk ℚ := .ofSession (.ofSource source name capacity) recording
    let c : Console ℚ := { start with looped := .fresh desk true debounce }
    ∃ c', (∀ rest, repl size (lines ++ rest) c = answerLines size rest c') ∧
      repl size lines c = (.ok (), { c' with out := c'.out ++ [Text.newline] }) ∧
      (∀ raw, lines.getLast? = some raw →
        c'.looped.desk.client.outcome = .ofRun (source.execute raw .none {}).1.1) ∧
      c'.looped.desk.client.recent.items =
        (lines.filter (yields source)).dedup.reverse.take 50 := by
  intro desk c
  obtain ⟨c₁, hgreet, hgoes, hnone⟩ := greet_ok (c := c) hs hdebounce
    (goes_fresh source name capacity recording debounce)
  obtain ⟨c', hrest, -, houtcome, hrecent⟩ := answerLines_append size hs hdebounce hgoes hlines
  have hrepl (rest : List Text) : repl size (lines ++ rest) c = answerLines size rest c' := by
    rw [repl, bind_ok hgreet]
    exact hrest rest
  refine ⟨c', hrepl, ?_, fun raw hraw => ?_, ?_⟩
  · have hend := hrepl []
    rw [List.append_nil] at hend
    exact hend
  · rw [houtcome raw hraw, source.answer_eq_execute]
  · rw [hrecent, hnone]
    refine Recent.items_addAll 50 fun raw hraw => ?_
    exact (hlines raw (List.mem_of_mem_filter hraw)).1

end

/-- One of the filters is refused, and one is entered twice. -/
theorem recent_of_lines_repeated :
    let source : Source := ⟨⟨fun text =>
      if text = ".x".toList then .error "no".toList else .ok (.onValue fun v => [.value v])⟩,
      .int 7, 0⟩
    let lines := [".a".toList, ".x".toList, ".b".toList, ".a".toList]
    let desk : Desk ℚ := .ofSession (.ofSource source [] 16) false
    let c : Console ℚ := ⟨.fresh desk true (3 / 100), [], [], false, false⟩
    (source.NeverCancels ∧ (3 / 100 : ℚ) < 10 ∧ ∀ raw ∈ lines, IsFilter raw) ∧
      ∃ c' : Console ℚ,
        repl ⟨80, 20⟩ lines c = (.ok (), { c' with out := c'.out ++ [Text.newline] }) ∧
        c'.looped.desk.client.outcome = .ofRun (source.execute ".a".toList .none {}).1.1 ∧
        c'.looped.desk.client.recent.items = [".a".toList, ".b".toList] := by
  intro source lines desk c
  have hs : source.NeverCancels := by
    intro text program h e he
    have hprogram : program = .onValue fun v => [.value v] := by
      simp only [source] at h
      split at h
      · cases h
      · exact (Except.ok.inj h).symm
    rw [hprogram] at he
    rw [List.mem_singleton.mp he]
    rfl
  have hdebounce : (3 / 100 : ℚ) < 10 := by norm_num
  have hlines : ∀ raw ∈ lines, IsFilter raw := by
    unfold IsFilter
    decide +kernel
  obtain ⟨c', -, hend, houtcome, hitems⟩ :=
    recent_of_lines source hs [] 16 false hdebounce ⟨80, 20⟩ c lines hlines
  have hkept : (lines.filter (yields source)).dedup.reverse.take 50 =
      [".a".toList, ".b".toList] := by decide +kernel
  exact ⟨⟨hs, hdebounce, hlines⟩, c', hend, houtcome _ rfl, hitems.trans hkept⟩

end Terminal

end LiveQuery
