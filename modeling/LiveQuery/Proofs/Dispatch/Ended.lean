/-
LiveQuery/Proofs/Dispatch/Ended.lean

A dispatcher whose background has been ended.

Ending takes away neither the alarms that are set nor the completions that are posted: the host
still has them, and may go on with them.  What the background refuses is a job.  A dispatch that
comes too late does all but that: the number becomes the active one and the token before it is
cancelled, and then the fault is raised.

Main results: what a dispatch, an alarm and a delivery do then (`dispatch_ended`, `fire_ended`,
`deliverAt_ended`); what a move leaves of the jobs (`Ended.act_jobs`); and that it leaves the
dispatcher ended (`Ended.act`).
-/
import LiveQuery.Proofs.Dispatch.Sound

namespace LiveQuery

namespace Dispatcher

variable {τ χ : Type} [Time τ]

/-- The background takes no more jobs, and no alarm has been handed over for delivery. -/
structure Ended (d : Dispatcher τ χ) : Prop where
  shut : d.shut = true
  no_debounce : ∀ seq, .debounce seq ∉ d.posted

/-- The state after a dispatch that is refused. -/
def refused (seq : Int) (d : Dispatcher τ χ) : Dispatcher τ χ :=
  { d with
    active := seq
    running := true
    latency := Id.run (d.latency.dispatched (m := Id) d.now seq)
    held := some d.jobs.length
    jobs := d.releasedJobs }

variable {h : Hooks χ} {d : Dispatcher τ χ}

omit [Time τ] in
theorem shutDown_eq (d : Dispatcher τ χ) :
    d.shutDown = { d with jobs := d.releasedJobs, held := none, shut := true } := by
  unfold shutDown
  rw [release_eq]

omit [Time τ] in
theorem Sound.ended (hd : d.Sound) : d.shutDown.Ended := by
  rw [shutDown_eq]
  exact ⟨rfl, hd.no_debounce⟩

/-! ### What the background refuses -/

omit [Time τ] in
theorem submit_ended (hd : d.shut = true) (task : Task) :
    submit task d = (.error .shutDown, d) := by
  unfold submit
  rw [get_bind, hd]
  rfl

theorem dispatch_ended (hd : d.shut = true) (seq : Int) :
    dispatch h seq d = (.error .shutDown, d.refused seq) := by
  have hs := submit_ended (d := { d.release with
    active := seq
    running := true
    latency := Id.run (d.release.latency.dispatched (m := Id) d.release.now seq)
    held := some d.release.jobs.length }) (by rw [release_eq]; exact hd)
    (.run seq (h.filter d.release.client))
  refine Eq.trans (b := _) hs ?_
  rw [release_eq, refused, length_releasedJobs]

omit [Time τ] in
/-- A request for keys is refused where the client can look them up. -/
theorem requestKeys_ended (hd : d.shut = true) (path : Text) :
    requestKeys h path d =
      if h.keysAt.isSome then (.error .shutDown, { d with awaited := some (orRoot path) })
      else (.ok (), d) := by
  unfold requestKeys
  split
  · exact submit_ended (d := { d with awaited := some (orRoot path) }) hd _
  · rfl

theorem debounced_ended (hd : d.shut = true) (seq : Int) :
    debounced h seq d =
      if seq = d.minted then (.error .shutDown, d.refused seq)
      else (.ok (), { d with latency := d.latency.drop seq }) := by
  unfold debounced
  rw [get_bind]
  split
  · exact dispatch_ended hd seq
  · rfl

/-- An alarm raises a fault if it is that of the newest number, and only then. -/
theorem fire_ended (hd : d.shut = true) (i : Nat) :
    (d.alarms[i]? = none ∧ fire h i d = (.ok (), d)) ∨
    (d.alarms[i]? = some d.minted ∧
      fire h i d =
        (.error .shutDown, { d with alarms := d.alarms.eraseIdx i }.refused d.minted)) ∨
    (∃ seq, d.alarms[i]? = some seq ∧ seq ≠ d.minted ∧
      fire h i d =
        (.ok (), { d with alarms := d.alarms.eraseIdx i, latency := d.latency.drop seq })) := by
  have hfire {seq : Int} (hi : d.alarms[i]? = some seq) :
      fire h i d = debounced h seq { d with alarms := d.alarms.eraseIdx i } := by
    unfold fire
    rw [get_bind, hi]
    rfl
  rcases hi : d.alarms[i]? with - | seq
  · refine .inl ⟨rfl, ?_⟩
    unfold fire
    rw [get_bind, hi]
    rfl
  · rw [hfire hi, debounced_ended (d := { d with alarms := d.alarms.eraseIdx i }) hd]
    by_cases hseq : seq = d.minted
    · subst hseq
      exact .inr (.inl ⟨rfl, if_pos rfl⟩)
    · exact .inr (.inr ⟨seq, rfl, hseq, if_neg hseq⟩)

/-- A completion is delivered as before. -/
theorem deliverAt_ended (he : d.Ended) (i : Nat) : deliverAt h i d = (.ok (), d.delivered h i) := by
  unfold deliverAt delivered
  rw [get_bind]
  rcases hi : d.posted[i]? with - | c
  · rfl
  · cases c with
    | debounce seq => exact absurd (List.mem_of_getElem? hi) (he.no_debounce seq)
    | result seq o => rfl
    | keys path answer => rfl

/-! ### Moves -/

theorem no_debounce_delivered (hd : ∀ seq, .debounce seq ∉ d.posted) (i : Nat) :
    ∀ seq, .debounce seq ∉ (d.delivered h i).posted := by
  rcases delivered_cases h i d with
    ⟨-, he⟩ | ⟨s, hi, -⟩ | ⟨s, o, -, he⟩ | ⟨path, answer, -, he⟩
  · rw [he]
    exact hd
  · exact absurd (List.mem_of_getElem? hi) (hd s)
  · rw [he]
    exact no_debounce_eraseIdx hd i
  · rw [he]
    exact no_debounce_eraseIdx hd i

/-- **A move leaves a dispatcher ended.** -/
theorem Ended.act (he : d.Ended) (m : Move τ χ) : (m.act h d).2.Ended := by
  cases m with
  | queue => exact ⟨he.shut, he.no_debounce⟩
  | executeNow =>
    have hrefused := dispatch_ended (h := h) (d := d.mint) he.shut d.mint.minted
    show (dispatch h d.mint.minted d.mint).2.Ended
    rw [hrefused]
    exact ⟨he.shut, he.no_debounce⟩
  | edit f => exact ⟨he.shut, he.no_debounce⟩
  | requestKeys path =>
    show (requestKeys h path d).2.Ended
    rw [requestKeys_ended he.shut]
    split
    · exact ⟨he.shut, he.no_debounce⟩
    · exact he
  | fire i =>
    show (fire h i d).2.Ended
    rcases fire_ended (h := h) he.shut i with ⟨-, hf⟩ | ⟨-, hf⟩ | ⟨seq, -, -, hf⟩
    all_goals
      rw [hf]
      exact ⟨he.shut, he.no_debounce⟩
  | complete i => exact ⟨(complete_shut i).trans he.shut, no_debounce_complete he.no_debounce i⟩
  | deliver i =>
    show (deliverAt h i d).2.Ended
    rw [deliverAt_ended he]
    exact ⟨(delivered_shut i).trans he.shut, no_debounce_delivered he.no_debounce i⟩
  | tick now => exact ⟨he.shut, he.no_debounce⟩

/-- No job comes in: a move leaves the jobs, or cancels the token that is held, or ends one. -/
theorem Ended.act_jobs (he : d.Ended) (m : Move τ χ) :
    (m.act h d).2.jobs = d.jobs ∨ (m.act h d).2.jobs = d.releasedJobs ∨
      ∃ i, (m.act h d).2.jobs = (d.complete h i).jobs := by
  cases m with
  | queue => exact .inl rfl
  | executeNow =>
    have hrefused := dispatch_ended (h := h) (d := d.mint) he.shut d.mint.minted
    refine .inr (.inl ?_)
    show (dispatch h d.mint.minted d.mint).2.jobs = _
    rw [hrefused]
    rfl
  | edit f => exact .inl rfl
  | requestKeys path =>
    refine .inl ?_
    show (requestKeys h path d).2.jobs = _
    rw [requestKeys_ended he.shut]
    split <;> rfl
  | fire i =>
    show (fire h i d).2.jobs = _ ∨ (fire h i d).2.jobs = _ ∨ ∃ k, (fire h i d).2.jobs = _
    rcases fire_ended (h := h) he.shut i with ⟨-, hf⟩ | ⟨-, hf⟩ | ⟨seq, -, -, hf⟩
    · exact .inl (by rw [hf])
    · exact .inr (.inl (by rw [hf]; rfl))
    · exact .inl (by rw [hf])
  | complete i => exact .inr (.inr ⟨i, rfl⟩)
  | deliver i =>
    refine .inl ?_
    show (deliverAt h i d).2.jobs = _
    rw [deliverAt_ended he]
    rcases delivered_cases h i d with
      ⟨-, hc⟩ | ⟨seq, hi, -⟩ | ⟨seq, o, -, hc⟩ | ⟨path, answer, -, hc⟩
    · rw [hc]
    · exact absurd (List.mem_of_getElem? hi) (he.no_debounce seq)
    · rw [hc]
    · rw [hc]
  | tick now => exact .inl rfl

/-- The state after moves, each of which is done whatever the ones before it have raised. -/
def afterEach (h : Hooks χ) (ms : List (Move τ χ)) (d : Dispatcher τ χ) : Dispatcher τ χ :=
  ms.foldl (fun d m => (m.act h d).2) d

end Dispatcher

end LiveQuery
