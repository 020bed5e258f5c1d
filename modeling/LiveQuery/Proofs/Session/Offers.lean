/-
LiveQuery/Proofs/Session/Offers.lean

The suggestions that a session offers, and the filter into which they are put.

Completing offers what is suggested for the filter as it leaves it.  Accepting and the end of
completing take the offer back, and nothing else does: a filter that is typed, picked from the
recent ones or run leaves the old offer behind, and what is accepted then is a key for another
filter.

Design.  The text for which the offer was made is remembered beside the state
(`Happening.offers`).  The suggestions are always those for this text, and the context is always
that of the filter (`InOrder`), so that the two fit exactly where the text and the filter have the
same suggestions.

Main result: `offers_own_iff`, with what is accepted where the offer fits.
-/
import LiveQuery.Display.Wide
import LiveQuery.Proofs.Path.Stream
import LiveQuery.Proofs.Session.Upkeep

namespace LiveQuery

namespace Desk

open Dispatcher

variable {τ : Type} [Time τ]

section

variable [Glyphs]

/-- The text for which the suggestions there are have been offered, where it was `text?` before
something has happened. -/
def Happening.offers : Happening τ → Desk τ → Option Text → Option Text
  | .input .tab, d, _ => some (Input.tab.next d).client.filter
  | e, d, text? => if (e.next d).client.suggestions = [] then none else text?

/-! ### What happens to the suggestions -/

variable {s : Source} {d : Desk τ}

/-- Only completing makes suggestions; anything else leaves them alone or takes them back. -/
theorem next_suggestions (h : InOrder s d) {e : Happening τ} (he : e ≠ .input .tab) :
    (e.next d).client.suggestions = d.client.suggestions ∨ (e.next d).client.suggestions = [] := by
  cases e with
  | host m =>
    obtain ⟨memo, available, keysPath, outcome, lines, maxWidth, x, y, hclient⟩ :=
      hostNext_frame h.shut m
    show (m.next d).client.suggestions = _ ∨ _
    rw [hclient]
    exact .inl rfl
  | input i =>
    show (i.next d).client.suggestions = _ ∨ (i.next d).client.suggestions = []
    rcases hi : i.looks with - | -
    · cases i with
      | start =>
        rw [Input.next, start_eq h.shut]
        exact .inl (fetched_suggestions _)
      | setFilter text =>
        rw [Input.next, setFilter_eq h.shut]
        exact .inl (fetched_suggestions _)
      | tab => exact absurd rfl he
      | accept =>
        rw [Input.next, accept_eq h.shut]
        split
        · exact .inr (fetched_suggestions _)
        · exact .inl rfl
      | pickRecent text =>
        rw [Input.next, pickRecent_eq h.shut]
        exact .inl (fetched_suggestions _)
      | runNow text =>
        rw [Input.next, runNow_eq h.shut]
        exact .inl rfl
      | _ => cases hi
    · obtain ⟨mode, suggestions, selected, recent, x, y, width, store, hsame, he⟩ :=
        looks_frame (d := d) hi
      rw [he]
      exact hsame.imp_right And.right

/-- Completing offers what is suggested for the filter as it leaves it. -/
theorem tab_suggestions (h : InOrder s d) :
    (Input.tab.next d).client.suggestions =
      (s.suggestionsFor (Input.tab.next d).client.filter).1 := by
  rw [Input.next, tab_eq h.shut]
  split
  · rw [fetched_suggestions, fetched_filter]
    exact h.fits.tabbed_suggestions
  · exact h.fits.tabbed_suggestions

/-! ### What has been offered -/

/-- The suggestions are those for the text for which they have been offered. -/
def Offered (s : Source) (text? : Option Text) (d : Desk τ) : Prop :=
  d.client.suggestions = text?.elim [] fun text => (s.suggestionsFor text).1

variable {text? : Option Text}

theorem Offered.next (ho : InOrder s d) (h : Offered s text? d) (e : Happening τ) :
    Offered s (e.offers d text?) (e.next d) := by
  by_cases he : e = .input .tab
  · rw [he]
    exact tab_suggestions ho
  · have hoffers : e.offers d text? =
        if (e.next d).client.suggestions = [] then none else text? := by
      unfold Happening.offers
      split
      · exact absurd rfl he
      · rfl
    rw [hoffers]
    split
    · next hnone => exact hnone
    · next hsome => exact ((next_suggestions ho he).resolve_right hsome).trans h

theorem offered_after (source : Source) (name : Text) (capacity : Int) (recording : Bool)
    (es : List (Happening τ)) :
    let d₀ : Desk τ := ofSession (Session.ofSource source name capacity) recording
    InOrder source (after es d₀) ∧
      Offered source (remembered Happening.offers es d₀ none) (after es d₀) := by
  intro d₀
  refine remembered_after (P := fun text? d => InOrder source d ∧ Offered source text? d) ?_
    ⟨.ofSession source name capacity recording, rfl⟩
  rintro e - text? d ⟨ho, h⟩
  exact ⟨ho.next e, h.next ho e⟩

/-! ### What is accepted -/

omit [Glyphs] in
/-- The item at an index is one of the list. -/
theorem mem_of_itemAt? {α : Type} {items : List α} {i : Int} {a : α}
    (h : itemAt? items i = some a) : a ∈ items := by
  unfold itemAt? at h
  split at h
  · exact List.mem_of_getElem? h
  · split at h
    · exact List.mem_of_getElem? h
    · cases h

omit [Glyphs] in
/-- The text that is accepted is the filter, or puts a suggestion into it. -/
theorem accepted_cases {c : Session} {text : Text} (h : accepted? c = some text) :
    (c.suggestions = [] ∧ text = c.filter) ∨
      ∃ key ∈ c.suggestions, text = c.context.accept c.filter key := by
  unfold accepted? at h
  split at h
  · next hnone => exact .inl ⟨List.isEmpty_iff.mp hnone, (Option.some.inj h).symm⟩
  · obtain ⟨key, hkey, rfl⟩ := Option.map_eq_some_iff.mp h
    exact .inr ⟨key, mem_of_itemAt? hkey, rfl⟩

/-- The filter after an acceptance is the one before, or has a suggestion put into it. -/
theorem accept_filter (h : InOrder s d) :
    (Input.accept.next d).client.filter = d.client.filter ∨
      ∃ key ∈ d.client.suggestions,
        (Input.accept.next d).client.filter = d.client.context.accept d.client.filter key := by
  rw [Input.next, accept_eq h.shut]
  split
  · next text htext =>
    rw [fetched_filter]
    exact (accepted_cases htext).imp_left And.right
  · exact .inl rfl

/-- **Offers.**  A session offers nothing or what is suggested for its filter, exactly where the
text for which it has offered suggestions has none or the same ones.  Where this is so, what is
accepted is the filter itself, or a suggested key put in where the context of the filter says. -/
theorem offers_own_iff (source : Source) (name : Text) (capacity : Int) (recording : Bool)
    (es : List (Happening τ)) :
    let d₀ : Desk τ := ofSession (Session.ofSource source name capacity) recording
    let d := after es d₀
    let suggested (text : Text) := (source.suggest text d.client.memo).1
    let own := suggested d.client.filter
    ((d.client.suggestions = [] ∨ d.client.suggestions = own.1) ↔
      ∀ text, remembered Happening.offers es d₀ none = some text →
        (suggested text).1 = [] ∨ (suggested text).1 = own.1) ∧
    (d.client.suggestions = [] ∨ d.client.suggestions = own.1 →
      (Input.accept.next d).client.filter = d.client.filter ∨
        ∃ key ∈ own.1, (Input.accept.next d).client.filter = own.2.accept d.client.filter key) := by
  intro d₀ d suggested own
  obtain ⟨ho, hoffered⟩ := offered_after (τ := τ) source name capacity recording es
  have hsuggested : suggested = source.suggestionsFor := by
    funext text
    have hmemo : d.client.memo.Coherent source := ho.fits.memo
    exact (source.suggest_answers text d.client.memo hmemo).1
  have hcontext : d.client.context = own.2 := by
    have : d.client.context = source.contextOf d.client.filter := ho.fits.context
    rw [this, ← source.suggestionsFor_context, ← hsuggested]
  constructor
  · have hoffered' : d.client.suggestions = _ := hoffered
    rw [hoffered', ← hsuggested]
    rcases remembered Happening.offers es d₀ none with - | text
    · simp
    · simp
  · intro hown
    -- a suggestion there is one of the suggestions of the filter
    rcases accept_filter (d := d) ho with hsame | ⟨key, hkey, hput⟩
    · exact .inl hsame
    · refine .inr ⟨key, ?_, hcontext ▸ hput⟩
      rcases hown with hnone | hown
      · rw [hnone] at hkey
        cases hkey
      · exact hown ▸ hkey

end

/-- A key is typed out but for its last letter, completed and accepted. -/
theorem offers_own_iff_typed :
    let source := Source.overPaths (.object [("ab".toList, .int 1)])
    let es : List (Happening Float) := [.input .start, .input (.setFilter ".a".toList), .input .tab]
    let d := after es (ofSession (Session.ofSource source [] 16) false)
    d.client.suggestions = (source.suggest d.client.filter d.client.memo).1.1 ∧
      (Input.accept.next d).client.filter = ".ab".toList ∧
      ∃ key ∈ (source.suggest d.client.filter d.client.memo).1.1,
        (Input.accept.next d).client.filter =
          (source.suggest d.client.filter d.client.memo).1.2.accept d.client.filter key := by
  intro source es d
  have hd : after es (ofSession (Session.ofSource source [] 16) false) = d := rfl
  have hown : d.client.suggestions = (source.suggest d.client.filter d.client.memo).1.1 := by
    decide +kernel
  have hput : (Input.accept.next d).client.filter = ".ab".toList := by decide +kernel
  have haccept := (offers_own_iff source [] 16 false es).2
  rw [hd] at haccept
  refine ⟨hown, hput, (haccept (.inr hown)).resolve_left ?_⟩
  decide +kernel

/-- Suggestions are left behind by another filter, for which there are none, and a key that was
never suggested for it is accepted. -/
theorem offers_of_other_filter :
    let source := Source.overPaths (.object [("a".toList, .int 1)])
    let es : List (Happening Float) :=
      [.input .start, .input .tab, .input (.setFilter ".zz".toList)]
    let d := after es (ofSession (Session.ofSource source [] 16) false)
    d.client.suggestions = ["a".toList] ∧
      (source.suggest d.client.filter d.client.memo).1.1 = [] ∧
      (Input.accept.next d).client.filter = ".a".toList := by
  decide +kernel

end Desk

end LiveQuery
