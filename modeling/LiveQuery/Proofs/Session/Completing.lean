/-
LiveQuery/Proofs/Session/Completing.lean

What completing makes of the filter.

Design.  The context splits a text, so that a text whose typed part is a suggestion already is given
back by accepting that suggestion.  Hence completing puts dots behind the filter and changes nothing
else of it: one behind a closing bracket, and one behind a suggestion that has been typed out.

Main results: the filter after completing (`tabbed_filter`), and that a session whose background
takes jobs completes without a fault (`tab_ok`).
-/
import LiveQuery.Proofs.Completion.Splits
import LiveQuery.Proofs.Session.Inputs

namespace LiveQuery

/-! ### The context of what is offered -/

namespace Context

variable {σ : Type}

/-- The typed part, put where a chosen key goes, gives the text back. -/
theorem accept_incomplete (valid : Text → StateM σ Bool) (text : Text) (st : σ) :
    (ofText valid text st).1.accept text (ofText valid text st).1.incomplete = text := by
  obtain ⟨lead, segment, hsegment, rfl, hbar, -⟩ := lastSegment_eq text
  rcases hfound : keyDot? valid segment st with ⟨dot?, st'⟩
  have hcontext : (ofText valid (lead ++ segment) st).1 =
      ofSegment segment lead.length dot? := by
    show ofSegment (lastSegment (lead ++ segment)).1 (lastSegment (lead ++ segment)).2
      (keyDot? valid (lastSegment (lead ++ segment)).1 st).1 = _
    rw [hsegment, hfound]
  rw [hcontext]
  rcases dot? with - | dot
  · obtain ⟨kept, rest, rfl, hc⟩ := ofSegment_none segment lead.length
    rw [hc]
    exact (splits_behind lead hbar).2.1
  · obtain ⟨path, rest, rfl, rfl, -⟩ := keyDot?_some hfound
    have hbar' : '|' ∉ (path ++ ['.']) ++ rest := by rwa [List.append_assoc]
    have hsplit := (splits_behind lead hbar').2.1
    rw [List.append_assoc path, List.length_append] at hsplit
    rw [ofSegment_some]
    exact hsplit

end Context

/-- Keys are offered in the context of the text. -/
theorem Source.suggest_context (s : Source) (text : Text) (m : Memo) :
    (s.suggest text m).1.2 = (s.context text m).1 := by
  unfold Source.suggest
  simp only [bind, StateT.bind]
  rcases s.context text m with ⟨c, m'⟩
  dsimp only
  rcases s.keysInContext text c.path m' with ⟨e | keys, m''⟩ <;> rfl

namespace Desk

open Dispatcher

/-! ### The filter after completing -/

/-- Behind a closing bracket a dot is added, and nothing else. -/
theorem drilled_eq (text : Text) : drilled text = text ∨ drilled text = text ++ ['.'] := by
  unfold drilled
  split
  · exact .inr rfl
  · exact .inl rfl

/-- A suggestion that has been typed out is not put in a second time. -/
theorem completed?_offered {s : Session} {text : Text} (h : completed? (offered s) = some text) :
    text = drilled s.filter ++ ['.'] := by
  unfold completed? at h
  split at h
  · next only _ =>
    split at h
    · next hc =>
      have hcontext : (offered s).context = (s.source.context (drilled s.filter) s.memo).1 :=
        s.source.suggest_context (drilled s.filter) s.memo
      rw [Bool.and_eq_true, beq_iff_eq] at hc
      rw [hc.2, hcontext] at h
      rw [← Option.some.inj h]
      exact congrArg (· ++ ['.']) (Context.accept_incomplete s.source.isValid (drilled s.filter)
        s.memo)
    · cases h
  · cases h

/-- **Completing puts at most two dots behind the filter**, and changes nothing else of it. -/
theorem tabbed_filter (s : Session) :
    ∃ dots ∈ [[], ['.'], ['.', '.']], (tabbed s).filter = s.filter ++ dots := by
  have hfilter : (tabbed s).filter = drilled s.filter ∨
      (tabbed s).filter = drilled s.filter ++ ['.'] := by
    rcases hc : completed? (offered s) with - | text
    · exact .inl (congrArg Session.filter (tabbed_of_none hc))
    · rw [tabbed_of_some hc]
      exact .inr (completed?_offered hc)
  rcases drilled_eq s.filter with hd | hd <;> rw [hd] at hfilter
  · rcases hfilter with hf | hf
    · exact ⟨[], by simp, by simp [hf]⟩
    · exact ⟨['.'], by simp, hf⟩
  · rcases hfilter with hf | hf
    · exact ⟨['.'], by simp, hf⟩
    · exact ⟨['.', '.'], by simp, by simp [hf]⟩

/-! ### Completing without a fault -/

variable {τ : Type} {d : Desk τ}

/-- What completing answers is what it offers. -/
theorem tab_answers [Glyphs] (hd : d.shut = false) :
    (tab d).1 = .ok (tab d).2.client.suggestions := by
  rw [tab_eq_tabEnd, tabEnd, session_bind]
  split
  · rw [act_bind, bind_ok (fetchKeys_eq (d := (d.onClient tabbed).queue) hd)]
    rfl
  · rfl

/-- **A session whose background takes jobs completes without a fault.** -/
theorem tab_ok [Glyphs] (hd : d.shut = false) :
    ∃ suggestions, tab d = (.ok suggestions, (tab d).2) :=
  ⟨_, Prod.ext (tab_answers hd) rfl⟩

end Desk

end LiveQuery
