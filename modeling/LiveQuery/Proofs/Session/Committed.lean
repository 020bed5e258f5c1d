/-
LiveQuery/Proofs/Session/Committed.lean

What a commit answers, and what it keeps.

A commit answers the output that is displayed, and keeps the filter as it stands.  The two need not
belong together: what is displayed lags behind the filter until the run of its newest number has
been committed.

Design.  What is displayed is traced back to its run all through the life of a session
(`upToDate_lived`).

Main result: `commit_answers_run`.
-/
import LiveQuery.Display.Wide
import LiveQuery.Proofs.Path.Stream
import LiveQuery.Proofs.Session.Lifetime

namespace LiveQuery

/-- A filter that is kept is the most recent one. -/
theorem Recent.head?_add {r : Recent} (hlimit : 0 < r.limit) {text : Text} (htext : text ≠ []) :
    (r.add text).items.head? = some text := by
  obtain ⟨n, hn⟩ : ∃ n, r.limit.toNat = n + 1 := ⟨r.limit.toNat - 1, by omega⟩
  rw [add, if_neg (by simpa using htext), inFront_of_nonneg (Int.le_of_lt hlimit), hn]
  rfl

namespace Desk

variable {τ : Type} {d : Desk τ}

section

variable [Glyphs]

/-! ### Commits -/

omit [Glyphs] in
/-- A commit answers nothing and keeps nothing, or answers the output that is displayed and keeps
the filter. -/
theorem commit_cases (d : Desk τ) :
    commit d = (.ok none, d) ∨
      ∃ raw, d.client.outcome = .output raw ∧ raw ≠ [] ∧
        commit d =
          (.ok (some raw), d.onClient fun s => { s with recent := s.recent.add s.filter }) := by
  unfold commit
  rw [session_bind]
  rcases d.client.outcome with raw | e
  · dsimp only
    split
    · exact .inl rfl
    · next hraw => exact .inr ⟨raw, rfl, by simpa using hraw, rfl⟩
  · exact .inl rfl

omit [Glyphs] in
/-- A commit that answers an output answers the one that is displayed. -/
theorem commit_output {raw : Text} (h : (commit d).1 = .ok (some raw)) :
    d.client.outcome = .output raw ∧ raw ≠ [] ∧
      (commit d).2 = d.onClient fun s => { s with recent := s.recent.add s.filter } := by
  rcases commit_cases d with he | ⟨output, houtcome, houtput, he⟩
  · rw [he] at h
    cases h
  · rw [he] at h ⊢
    obtain rfl : output = raw := Option.some.inj (Except.ok.inj h)
    exact ⟨houtcome, houtput, rfl⟩

/-- **A commit answers the output of the run that is displayed**, which is what the text of this run
gives on the document, and keeps the filter as it stands.  The text is that filter as long as no
number has been minted after the run's. -/
theorem commit_answers_run [Time τ] (source : Source) (name : Text) (capacity : Int)
    (recording : Bool) (os : List (Occurrence τ)) (raw : Text) :
    let start : Desk τ := ofSession (Session.ofSource source name capacity) recording
    let d := lived os start
    (commit d).1 = .ok (some raw) →
      ∃ seq text, lastShown os start none = some seq ∧
        (∀ text', (seq, text') ∈ d.runs ↔ text' = text) ∧
        (source.execute text .none {}).1.1 = .ok (.output raw) ∧
        (commit d).2.client.recent = d.client.recent.add d.client.filter ∧
        (d.client.filter ≠ [] →
          (commit d).2.client.recent.items.head? = some d.client.filter) ∧
        (seq = d.minted → text = d.client.filter) := by
  intro start d hcommit
  have h : UpToDate source (lastShown os start none) d :=
    upToDate_lived (upToDate_ofSession source name capacity recording) os
  obtain ⟨houtcome, hraw, hstate⟩ := commit_output hcommit
  rcases hlast : lastShown os start none with - | seq
  · -- nothing is displayed at first, and this is not answered
    have hempty : Outcome.output raw = .output [] := houtcome.symm.trans (h.unshown hlast)
    exact absurd (Outcome.output.inj hempty) hraw
  obtain ⟨text, hrun, hshown⟩ := h.shown seq hlast
  have hlive : (source.ending text .live).1 = .ok (.output raw) := by
    rw [houtcome] at hshown
    rcases hr : (source.ending text .live).1 with f | o
    · rw [hr] at hshown
      cases hshown
    · rw [hr] at hshown
      exact congrArg Except.ok hshown.symm
  refine ⟨seq, text, rfl, fun text' => ?_, ?_, ?_, fun hfilter => ?_, ?_⟩
  · exact ⟨h.run_inj seq text text' hrun, fun he => he ▸ hrun⟩
  · rw [(source.execute_answers text .none).eq_fresh]
    rw [Source.ending_none]
    exact hlive
  · rw [hstate]
    rfl
  · rw [hstate]
    exact Recent.head?_add h.limit_pos hfilter
  · rintro rfl
    exact h.newest text hrun

end

/-- The first result is displayed while another filter has been typed. -/
def lagging : List (Occurrence Float) :=
  [.happens (.input .start), .happens (.host (.complete 0)), .happens (.host (.deliver 0)),
    .happens (.input (.setFilter ".a".toList))]

/-- The document is answered, and the filter of a member is kept. -/
theorem commit_keeps_other_filter :
    let source := Source.overPaths (.object [("a".toList, .int 1)])
    let d := lived lagging (ofSession (Session.ofSource source [] 16) false)
    (commit d).1 = .ok (some source.document.pretty) ∧
      (commit d).2.client.recent.items.head? = some ".a".toList ∧
      (source.execute ".a".toList .none {}).1.1 = .ok (.output "1".toList) ∧
      source.document.pretty ≠ "1".toList :=
  ⟨by decide +kernel, by decide +kernel, by decide +kernel, by decide +kernel⟩

/-- The document is what the filter of the start gives. -/
theorem commit_answers_run_lagging :
    let source := Source.overPaths (.object [("a".toList, .int 1)])
    let start := ofSession (Session.ofSource source [] 16) false
    let d := lived lagging start
    let raw := source.document.pretty
    (commit d).1 = .ok (some raw) ∧
      ∃ text, lastShown lagging start none = some 1 ∧ (1, text) ∈ d.runs ∧ d.minted = 2 ∧
        (source.execute text .none {}).1.1 = .ok (.output raw) := by
  intro source start d raw
  have hcommit : (commit d).1 = .ok (some raw) := by decide +kernel
  obtain ⟨seq, text, hlast, hrun, hexecute, -⟩ :=
    commit_answers_run source [] 16 false lagging raw hcommit
  have hfirst : lastShown lagging start none = some 1 := by decide +kernel
  obtain rfl : seq = 1 := Option.some.inj (hlast.symm.trans hfirst)
  exact ⟨hcommit, text, hlast, (hrun text).mpr rfl, by decide +kernel, hexecute⟩

end Desk

end LiveQuery
