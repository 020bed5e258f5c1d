/-
LiveQuery/Proofs/Session/Descent.lean

What completing does in every state that the life of a session leads to.

Design.  Completing asks for suggestions once, and a second time with a dot behind the text where
the only suggestion has been typed out.  The text that is asked for last is the filter then, so
that what is offered in the end is what is suggested for the filter as it stands.  The filter is
completed before anything is handed over, so that all this holds after the end of the background,
too.

Main result: `tab_extends`.
-/
import LiveQuery.Display.Wide
import LiveQuery.Proofs.Path.Stream
import LiveQuery.Proofs.Session.Completing
import LiveQuery.Proofs.Session.Lifetime

namespace LiveQuery

namespace Desk

open Dispatcher

theorem drilled_append (text : Text) :
    drilled text = text ++ if text.getLast? = some ']' then ['.'] else [] := by
  unfold drilled
  split
  · rfl
  · exact (List.append_nil text).symm

/-- A suggestion has been typed out where it is the only one, and what has been typed. -/
theorem completed?_isSome (c : Session) :
    (completed? c).isSome ↔
      c.suggestions = [c.context.incomplete] ∧ c.context.incomplete ≠ [] := by
  unfold completed?
  split
  · next only hs =>
    rw [hs, List.singleton_inj]
    by_cases honly : only = c.context.incomplete
    · simp [honly]
    · simp [honly]
  · next hs =>
    have hne : c.suggestions ≠ [c.context.incomplete] := fun he => hs _ he
    simp [hne]

/-- The text to complete is the filter in the end, or has one more dot behind it where the only
suggestion for it has been typed out. -/
theorem tabbed_filter_eq (c : Session) :
    (tabbed c).filter =
      let text := drilled c.filter
      let offer := (c.source.suggest text c.memo).1
      text ++ if offer.1 = [offer.2.incomplete] ∧ offer.2.incomplete ≠ [] then ['.'] else [] := by
  have hiff := completed?_isSome (offered c)
  rcases hc : completed? (offered c) with - | text
  · rw [hc] at hiff
    rw [tabbed_of_none hc]
    exact ((congrArg _ (if_neg fun h => absurd (hiff.mpr h) (by simp))).trans
      (List.append_nil _)).symm
  · rw [hc] at hiff
    rw [tabbed_of_some hc]
    exact (completed?_offered hc).trans (congrArg _ (if_pos (hiff.mp rfl)).symm)

section

variable {τ : Type} [Glyphs] {d : Desk τ}

/-- Completing leaves the session completed, but for the keys it lists, and mints a number if the
filter has become another. -/
theorem tab_frame (d : Desk τ) :
    ∃ available, (tab d).2.client = { tabbed d.client with available } ∧
      (tab d).2.minted =
        if (tabbed d.client).filter = d.client.filter then d.minted else d.minted + 1 := by
  rw [tab_eq_tabEnd, tabEnd, session_bind]
  split
  · next hne =>
    change (tabbed d.client).filter ≠ d.client.filter at hne
    rw [act_bind, if_neg hne]
    refine kept_bind (P := fun d' => ∃ available,
      d'.client = { tabbed d.client with available } ∧ d'.minted = d.minted + 1) ?_
      fun _ _ h => h
    -- the number has been minted before a lookup may be refused
    obtain ⟨available, awaited, lookUps, -, he⟩ := fetchKeys_frame (d.onClient tabbed).queue
    rw [he]
    exact ⟨available, rfl, rfl⟩
  · next heq => exact ⟨(tabbed d.client).available, rfl, (if_pos (not_not.mp heq)).symm⟩

/-- **Completing extends the filter.**  It puts a dot behind a closing bracket, and another one
where the only suggestion has been typed out, and changes nothing else of the filter; what it offers
is what is suggested for the filter then, and it mints a number exactly if the filter has become
another.  Unless the background has been ended, it answers what it offers. -/
theorem tab_extends [Time τ] (source : Source) (name : Text) (capacity : Int) (recording : Bool)
    (os : List (Occurrence τ)) :
    let d := lived os (ofSession (Session.ofSource source name capacity) recording)
    let d' := (tab d).2
    let text := d.client.filter ++ if d.client.filter.getLast? = some ']' then ['.'] else []
    let offer := (source.suggest text d.client.memo).1
    d'.client.filter =
        text ++ (if offer.1 = [offer.2.incomplete] ∧ offer.2.incomplete ≠ [] then ['.'] else []) ∧
      (d'.client.suggestions, d'.client.context) =
        (source.suggest d'.client.filter d'.client.memo).1 ∧
      d'.client.selected = 0 ∧
      d'.client.mode = .completing ∧
      d'.minted = (if d'.client.filter = d.client.filter then d.minted else d.minted + 1) ∧
      (d.shut = true ∨ (tab d).1 = .ok d'.client.suggestions) := by
  intro d d' text offer
  have hfits : d.client.Fits source :=
    (upToDate_lived (upToDate_ofSession source name capacity recording) os).fits
  have htabbed := hfits.tabbed
  obtain ⟨available, hclient, hminted⟩ := tab_frame d
  change d'.client = _ at hclient
  obtain ⟨filter, suggestions, context, memo, hframe⟩ := tabbed_frame d.client
  have hfilter := tabbed_filter_eq d.client
  rw [drilled_append, hfits.source] at hfilter
  rw [hclient]
  refine ⟨hfilter, ?_, ?_, ?_, hminted, ?_⟩
  · -- the tables that completing has left answer as those before
    rw [(source.suggest_answers _ _ htabbed.memo).1]
    exact Prod.ext hfits.tabbed_suggestions
      (htabbed.context.trans (source.suggestionsFor_context _).symm)
  · show (tabbed d.client).selected = 0
    rw [hframe]
  · show (tabbed d.client).mode = .completing
    rw [hframe]
  · rcases d.shut.eq_false_or_eq_true with hd | hd
    · exact .inl hd
    · exact .inr (by rw [tab_answers hd, ← hclient])

end

example :
    let source := Source.overPaths (.object [("ab".toList, .array [.int 1])])
    let d : Desk Float := ofSession (Session.ofSource source [] 16) false
    let filterAfter (text : Text) := (tab (setFilter text d).2).2.client.filter
    filterAfter ".a".toList = ".a".toList ∧ filterAfter ".ab".toList = ".ab.".toList ∧
      filterAfter ".ab[]".toList = ".ab[].".toList := by decide +kernel

end Desk

end LiveQuery
