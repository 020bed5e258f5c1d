/-
LiveQuery/Proofs/Web/Visits.lean

Requests that come while a session is used.

The web interface asks the tables of the session past its dispatcher, so that a request adds entries
to the tables and changes nothing else.  A session is blind to such entries, and a request is so
too: what is observed of a session does not tell where requests came in between, nor do the answers
tell what has happened before.  Whatever framework leads the requests to the views and sends the
answers, this is so.

Design.  A run is a list of visits, of which some are requests.  Both statements are about two runs,
and both follow from one relation between their states (`Shares`), which each visit keeps.

Main result: `visits_unobserved`.
-/
import LiveQuery.Display.Wide
import LiveQuery.Proofs.Dispatch.Ended
import LiveQuery.Proofs.Session.Shared
import LiveQuery.Proofs.Session.Upkeep
import LiveQuery.Session.Time
import LiveQuery.Web.Http

namespace LiveQuery

namespace Web

open Desk

variable {s : Source} {c c' : Session}

/-! ### Answers -/

theorem answerQuery_keeps (hs : c.source = s) (hm : c.memo.Coherent s) (filter : Text) :
    c.Alike s (answerQuery filter c).2 := by
  subst hs
  exact ⟨rfl, hm, _, (c.source.execute_answers filter .none c.memo hm).2.1, rfl⟩

theorem answerKeys_keeps (hs : c.source = s) (hm : c.memo.Coherent s) (path : Text) :
    c.Alike s (answerKeys path c).2 := by
  subst hs
  exact ⟨rfl, hm, _, (c.source.keysAt_answers path c.memo hm).2.1, rfl⟩

theorem answerSuggest_keeps (hs : c.source = s) (hm : c.memo.Coherent s) (filter : Text) :
    c.Alike s (answerSuggest filter c).2 := by
  subst hs
  exact ⟨rfl, hm, _, (c.source.suggest_answers filter c.memo hm).2.1, rfl⟩

/-- A view changes nothing but the tables. -/
theorem answer_keeps (hs : c.source = s) (hm : c.memo.Coherent s)
    (parameter? : Text → Option Text) (summary : Option Text) (v : View) :
    c.Alike s (v.answer parameter? summary c).2 := by
  unfold View.answer
  cases v with
  | home | health | telemetry => exact .refl hs hm
  | query =>
    dsimp only
    split
    · exact .refl hs hm
    · exact answerQuery_keeps hs hm _
  | keys => exact answerKeys_keeps hs hm _
  | suggest => exact answerSuggest_keeps hs hm _

/-- Whether a view shows something that the session itself has: its name, or its latencies. -/
def View.ofSession : View → Bool
  | health | telemetry => true
  | _ => false

/-- What does not concern the session itself is answered by the source. -/
theorem answer_same (hs : c.source = s) (hm : c.memo.Coherent s) (hs' : c'.source = s)
    (hm' : c'.memo.Coherent s) (parameter? : Text → Option Text) (summary summary' : Option Text)
    {v : View} (hv : v.ofSession = false) :
    (v.answer parameter? summary' c').1 = (v.answer parameter? summary c).1 := by
  subst hs
  unfold View.answer
  cases v with
  | home => rfl
  | health | telemetry => cases hv
  | query =>
    dsimp only
    rcases parameter? "filter".toList with - | filter
    · rfl
    · obtain ⟨m, ha, -⟩ := (c.source.execute_answers filter .none).result hm
      obtain ⟨m', ha', -⟩ := (c.source.execute_answers filter .none).result hm'
      dsimp only [answerQuery]
      rw [hs', ha, ha']
  | keys =>
    let path := (parameter? "path".toList).getD ['.']
    obtain ⟨m, ha, -⟩ := (c.source.keysAt_answers path).result hm
    obtain ⟨m', ha', -⟩ := (c.source.keysAt_answers path).result hm'
    dsimp only [answerKeys, Session.keysAt]
    rw [hs', ha, ha']
  | suggest =>
    let filter := (parameter? "filter".toList).getD []
    obtain ⟨m, ha, -⟩ := (c.source.suggest_answers filter).result hm
    obtain ⟨m', ha', -⟩ := (c.source.suggest_answers filter).result hm'
    dsimp only [answerSuggest]
    rw [hs', ha, ha']

/-! ### Responses -/

section

variable {ρ σ τ : Type} [Time τ] [Glyphs] (f : Framework ρ σ) {d d' : Desk τ}

/-- Whether a request concerns the session itself: its name, or its latencies. -/
def Framework.ofSession (r : ρ) : Bool :=
  match f.lead rules r with
  | .ok v => v.ofSession
  | .error _ => false

omit [Glyphs] in
/-- A request adds entries to the tables, and nothing else becomes of the session. -/
theorem respond_keeps (hs : d.client.source = s) (hm : d.client.memo.Coherent s) (r : ρ) :
    Shares s d (respond f r d).2 := by
  unfold respond
  split
  · exact .refl hs hm
  · exact ⟨_, answer_keeps hs hm _ _ _, rfl⟩

omit [Glyphs] in
/-- A response is that of its view. -/
theorem respond_congr {r : ρ}
    (h : ∀ v, f.lead rules r = .ok v →
      (v.answer (f.parameter? r) d'.latency.summary d'.client).1 =
        (v.answer (f.parameter? r) d.latency.summary d.client).1) :
    (respond f r d').1 = (respond f r d).1 := by
  unfold respond
  split
  · rfl
  · next v hlead => exact congrArg (f.send r) (h v hlead)

omit [Glyphs] in
/-- What does not concern the session itself is the same from any session over the source. -/
theorem respond_same (hs : d.client.source = s) (hm : d.client.memo.Coherent s)
    (hs' : d'.client.source = s) (hm' : d'.client.memo.Coherent s) {r : ρ}
    (hr : f.ofSession r = false) : (respond f r d').1 = (respond f r d).1 := by
  refine respond_congr f fun v hlead => answer_same hs hm hs' hm' _ _ _ ?_
  rwa [Framework.ofSession, hlead] at hr

omit [Glyphs] in
/-- A session is asked for its name and its latencies, which others do not change. -/
theorem respond_of_shares (h : Shares s d d') (r : ρ) :
    (respond f r d').1 = (respond f r d).1 := by
  obtain ⟨c, ⟨hs, hm, memo, hm', rfl⟩, rfl⟩ := h
  refine respond_congr f fun v _ => ?_
  rcases hv : v.ofSession with - | -
  · have hsource : ({ d.client with memo } : Session).source = s := hs
    exact answer_same hs hm hsource hm' _ _ _ hv
  · cases v with
    | health | telemetry => rfl
    | home | query | keys | suggest => cases hv

/-! ### Visits -/

/-- What happens at a session that is served. -/
inductive Visit (ρ τ : Type)
  | session (h : Happening τ)
  | shutDown
  | request (r : ρ)

/-- Whether a visit is the session's own. -/
def Visit.isOwn : Visit ρ τ → Bool
  | request _ => false
  | _ => true

/-- A visit, and what the session answers to one of its own. -/
def Visit.act : Visit ρ τ → Command τ Reply
  | session h => h.act
  | shutDown => do Dispatcher.act Dispatcher.shutDown; return .done
  | request r => fun d => (.ok .done, (respond f r d).2)

/-- The state after some visits. -/
def afterVisits (vs : List (Visit ρ τ)) (d : Desk τ) : Desk τ :=
  vs.foldl (fun d v => (v.act f d).2) d

omit [Time τ] in
/-- What is seen of a session: all of it but its tables. -/
def seen (d : Desk τ) : Desk τ := d.onClient fun c => { c with memo := {} }

/-- What is observed of a session: the answers to the visits of its own, and what is seen of it
after each. -/
def observed : List (Visit ρ τ) → Desk τ → List (Except Fault Reply × Desk τ)
  | [], _ => []
  | v :: rest, d =>
    let later := observed rest (v.act f d).2
    if v.isOwn then ((v.act f d).1, seen (v.act f d).2) :: later else later

/-- **Every visit is blind**: two sessions that share their source take it alike. -/
theorem blind_visit (v : Visit ρ τ) : Blind s (v.act f) := by
  cases v with
  | session h => exact blind_happening h
  | shutDown =>
    refine .bind (.dispatcher (fun d c => ?_) fun d => ?_) fun _ => .pure _
    · rw [Dispatcher.shutDown_eq, Dispatcher.shutDown_eq]
      rfl
    · rw [Dispatcher.shutDown_eq]
  | request r =>
    rintro d _ ⟨c, hc, rfl⟩
    have hleft := respond_keeps f hc.source hc.coherent r
    have hright := respond_keeps f (d := { d with client := c }) hc.symm.source hc.symm.coherent r
    exact ⟨rfl, hleft.symm.trans (Shares.trans ⟨c, hc, rfl⟩ hright)⟩

omit [Time τ] [Glyphs] in
/-- What is seen does not tell the tables. -/
theorem seen_of_shares (h : Shares s d d') : seen d' = seen d := by
  obtain ⟨c, ⟨-, -, memo, -, rfl⟩, rfl⟩ := h
  rfl

/-- **Two runs that differ in requests** are observed alike, and end alike. -/
theorem observed_of_shares (h : Shares s d d') (vs : List (Visit ρ τ)) :
    observed f vs d = observed f (vs.filter Visit.isOwn) d' ∧
      Shares s (afterVisits f vs d) (afterVisits f (vs.filter Visit.isOwn) d') := by
  induction vs generalizing d d' with
  | nil => exact ⟨rfl, h⟩
  | cons v rest ih =>
    rcases hv : v.isOwn with - | -
    · -- a request of the first run has nothing beside it in the second
      have hkept : Shares s (v.act f d).2 d' := by
        cases v with
        | request r =>
          obtain ⟨c, hc, rfl⟩ := h
          exact (respond_keeps f hc.source hc.coherent r).symm.trans ⟨c, hc, rfl⟩
        | session _ | shutDown => cases hv
      obtain ⟨hrest, hend⟩ := ih hkept
      rw [List.filter_cons_of_neg (by simp [hv])]
      refine ⟨?_, hend⟩
      rw [observed, hv]
      exact hrest
    · obtain ⟨hanswer, hnext⟩ := blind_visit f v d d' h
      obtain ⟨hrest, hend⟩ := ih hnext
      rw [List.filter_cons_of_pos hv]
      refine ⟨?_, hend⟩
      rw [observed, observed, hv, hanswer, seen_of_shares hnext, hrest]

/-- What happens keeps the source of a session, and its tables coherent. -/
theorem afterVisits_keeps (hs : d.client.source = s) (hm : d.client.memo.Coherent s)
    (vs : List (Visit ρ τ)) :
    (afterVisits f vs d).client.source = s ∧ (afterVisits f vs d).client.memo.Coherent s := by
  obtain ⟨c, hc, -⟩ := (observed_of_shares f (.refl hs hm) vs).2
  exact ⟨hc.source, hc.coherent⟩

/-- **Requests do not disturb the session**, whatever framework serves them.  In every run, what is
observed of the session is what is observed where no requests come in between, and any response is
the one that the session would give then.  What does not concern the session itself, its name or its
latencies, has the same response in every run of every session over the source. -/
theorem visits_unobserved (source : Source) (name : Text) (capacity : Int) (recording : Bool)
    (vs : List (Visit ρ τ)) :
    let d : Desk τ := .ofSession (.ofSource source name capacity) recording
    let own := vs.filter Visit.isOwn
    observed f vs d = observed f own d ∧
    (∀ r, (respond f r (afterVisits f vs d)).1 = (respond f r (afterVisits f own d)).1) ∧
    ∀ r, f.ofSession r = false → ∀ (vs' : List (Visit ρ τ)) name' capacity' recording',
      (respond f r (afterVisits f vs d)).1 =
        (respond f r (afterVisits f vs'
          (.ofSession (.ofSource source name' capacity') recording' : Desk τ))).1 := by
  intro d own
  have hfresh (name : Text) (capacity : Int) (recording : Bool) :
      (Desk.ofSession (.ofSource source name capacity) recording : Desk τ).client.memo.Coherent
        source :=
    (Desk.InOrder.ofSession source name capacity recording).fits.memo
  have hm := hfresh name capacity recording
  obtain ⟨hobserved, hend⟩ := observed_of_shares f (d := d) (.refl rfl hm) vs
  refine ⟨hobserved, fun r => (respond_of_shares f hend r).symm,
    fun r hr vs' name' capacity' recording' => ?_⟩
  obtain ⟨hs₁, hm₁⟩ := afterVisits_keeps f (d := d) rfl hm vs
  obtain ⟨hs₂, hm₂⟩ := afterVisits_keeps f
    (d := .ofSession (.ofSource source name' capacity') recording') rfl
    (hfresh name' capacity' recording') vs'
  exact respond_same f hs₂ hm₂ hs₁ hm₁ hr

end

/-- Keys are asked for over HTTP after a filter has been typed: they are those of the document, as
they are in a session that has done nothing. -/
theorem visits_unobserved_of_keys :
    let evaluator : Evaluator := ⟨fun _ => .ok (.onValue fun v => [.value v])⟩
    let source : Source := ⟨evaluator, .object [("a".toList, .int 1)], 0⟩
    let vs : List (Visit Request Rat) :=
      [.session (.input .start), .request ⟨"GET".toList, ⟨"/api/suggest".toList, []⟩⟩,
       .session (.input (.setFilter ".a".toList)), .session (.host (.fire 0))]
    let r : Request := ⟨"GET".toList, ⟨"/api/keys".toList, [("path".toList, ".".toList)]⟩⟩
    http.ofSession r = false ∧
      (respond http r (afterVisits http vs (.ofSession (.ofSource source [] 0) true))).1 =
        ⟨200, .json (object [("ok", .bool true), ("keys", textArray ["a".toList]),
          ("error", .null)])⟩ := by
  intro evaluator source vs r
  have hr : http.ofSession r = false := by decide
  have hfresh := (visits_unobserved http source [] 0 true vs).2.2 r hr [] "a.json".toList 1 false
  exact ⟨hr, hfresh.trans (by with_unfolding_all rfl)⟩

end Web

end LiveQuery
