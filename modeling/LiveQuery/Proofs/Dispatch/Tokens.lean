/-
LiveQuery/Proofs/Dispatch/Tokens.lean

Which runs a dispatcher lets go on.

A dispatcher holds one token, that of the run whose result it awaits.  It has not cancelled this
token, and it has cancelled those of all other runs whose results are still to come: they would be
rejected.  Ending the background cancels the last one as well.

Design.  A run may cancel its own token, so a cancelled token that is held says that the run has
ended and did it (`Tracked.held`).  Conversely a run begun with a cancelled token must not take
the cancellation back, which is asked of the client (`Hooks.KeepsCancelled`).  What has been
delivered is read off the marks of the run, and the ledger ties the marks to what is outstanding.

Main results: every move keeps the tokens in this order (`Tracked.next`), moves after the end leave
all that is undelivered cancelled (`Silenced.act`), and with both `tokens_follow_runs`.
-/
import LiveQuery.Proofs.Dispatch.Ended
import LiveQuery.Proofs.Dispatch.Ledger
import LiveQuery.Session.State
import LiveQuery.Session.TableClient

namespace LiveQuery

/-! ### Clients that keep a cancellation -/

/-- A run that is begun with a cancelled token leaves it cancelled: a token can be cancelled, and
nothing takes that back. -/
def Hooks.KeepsCancelled {χ : Type} (h : Hooks χ) : Prop :=
  ∀ text c, (h.execute text true c).1.2 = true

/-- A session keeps cancellations, whatever its evaluator does. -/
theorem Session.keepsCancelled [Glyphs] : Session.hooks.KeepsCancelled := by
  intro text c
  rfl

theorem ClientTables.keepsCancelled (t : ClientTables) : t.hooks.KeepsCancelled := by
  intro text c
  rfl

theorem Task.seq?_eq_some {task : Task} {seq : Int} :
    task.seq? = some seq ↔ ∃ text, task = .run seq text := by
  cases task with
  | run s text => simp [Task.seq?]
  | lookUp path => simp [Task.seq?]

/-! ### Jobs and their tokens -/

/-- What a job may have become when one ends: it has the same task and has not been reopened, and
its token is cancelled if it was, or by its own run. -/
structure Job.Becomes {χ : Type} (h : Hooks χ) (j j' : Job) : Prop where
  task : j'.task = j.task
  ended : j.ended = true → j'.ended = true
  cancelled : j.cancelled = true → j'.cancelled = true
  own : j'.cancelled = true → j.cancelled = true ∨
    j'.ended = true ∧ ∀ seq text, j.task = .run seq text → ∃ c, (h.execute text false c).1.2 = true

theorem Job.Becomes.refl {χ : Type} (h : Hooks χ) (j : Job) : Job.Becomes h j j :=
  ⟨rfl, id, id, .inl⟩

/-- A run that ends takes no cancellation back, and cancels no token but its own. -/
theorem Job.Becomes.run {χ : Type} {h : Hooks χ} (hk : h.KeepsCancelled) {j : Job} {seq : Int}
    {text : Text} (htask : j.task = .run seq text) (c : χ) :
    Job.Becomes h j { j with cancelled := (h.execute text j.cancelled c).1.2, ended := true } where
  task := rfl
  ended := fun _ => rfl
  cancelled := by
    intro hcancelled
    show (h.execute text j.cancelled c).1.2 = true
    rw [hcancelled]
    exact hk text c
  own := by
    intro hcancelled
    rcases hlive : j.cancelled with - | -
    · refine .inr ⟨rfl, ?_⟩
      intro seq' text' htask'
      obtain ⟨-, rfl⟩ := Task.run.inj (htask.symm.trans htask')
      rw [hlive] at hcancelled
      exact ⟨c, hcancelled⟩
    · exact .inl rfl

namespace Dispatcher

variable {τ χ : Type} [Time τ]

omit [Time τ] in
/-- When a job ends, each job is in its place, as what it has become. -/
theorem becomes_complete {h : Hooks χ} (hk : h.KeepsCancelled) (d : Dispatcher τ χ) (k i : Nat) :
    ∃ f, (d.complete h k).jobs[i]? = d.jobs[i]?.map f ∧
      ∀ j, d.jobs[i]? = some j → Job.Becomes h j (f j) := by
  have hset {job job' : Job} (hjob : d.jobs[k]? = some job) (hb : Job.Becomes h job job') :
      ∃ f, (d.jobs.set k job')[i]? = d.jobs[i]?.map f ∧
        ∀ j, d.jobs[i]? = some j → Job.Becomes h j (f j) := by
    by_cases hki : k = i
    · subst hki
      refine ⟨fun _ => job', List.getElem?_set_self', ?_⟩
      intro j hj
      obtain rfl : job = j := Option.some.inj (hjob.symm.trans hj)
      exact hb
    · exact ⟨id, by rw [List.getElem?_set_ne hki, Option.map_id, id], fun j _ => .refl h j⟩
  rcases complete_cases h k d with
    ⟨-, he⟩ | ⟨job, seq, text, hjob, -, htask, he⟩ | ⟨job, path, f, hjob, -, -, -, he⟩
  · rw [he]
    exact ⟨id, by rw [Option.map_id, id], fun j _ => .refl h j⟩
  · rw [he]
    exact hset hjob (.run hk htask d.client)
  · rw [he]
    exact hset hjob ⟨rfl, fun _ => rfl, id, .inl⟩

/-- The runs and their tokens fit together. -/
structure Tracked (h : Hooks χ) (d : Dispatcher τ χ) : Prop where
  held_isSome : d.held.isSome = d.running
  /-- The token that is held is that of the active run, and is cancelled by nobody else. -/
  held : ∀ i, d.held = some i → ∃ j text, d.jobs[i]? = some j ∧ j.task = .run d.active text ∧
    (j.cancelled = true → j.ended = true ∧ ∃ c, (h.execute text false c).1.2 = true)
  /-- Of the runs that are outstanding, those whose token is not held are cancelled. -/
  others : ∀ i j seq text, d.jobs[i]? = some j → j.task = .run seq text → seq ∈ d.outstanding →
    d.held ≠ some i → j.cancelled = true

variable {h : Hooks χ} {log : List Mark} {d d' : Dispatcher τ χ}

/-- A number that is dispatched is that of no job before. -/
theorem Ledger.fresh {seq : Int} (hl : Ledger log (d.dispatched h seq)) :
    seq ∉ d.jobs.filterMap fun j => j.task.seq? := by
  have hnodup := hl.nodup_dispatched
  have hjobs := hl.submitted.symm.trans (submitted_dispatched d seq (h.filter d.client))
  rw [hjobs] at hnodup
  obtain ⟨-, -, hapart⟩ := List.nodup_append.mp hnodup
  intro hmem
  exact hapart seq hmem seq (List.mem_singleton_self seq) rfl

namespace Tracked

omit [Time τ] in
theorem ofClient (h : Hooks χ) (client : χ) (now : τ) (latency : Latency τ) :
    Tracked h (ofClient client now latency) where
  held_isSome := rfl
  held := by simp [Dispatcher.ofClient]
  others := by simp [Dispatcher.ofClient]

omit [Time τ] in
/-- As long as no job changes and nothing else becomes outstanding, the tokens stay in order. -/
theorem unchanged (ht : Tracked h d) (hjobs : d'.jobs = d.jobs) (hactive : d'.active = d.active)
    (hheld : d'.held = d.held) (hrunning : d'.running = d.running)
    (hout : ∀ seq ∈ d'.outstanding, seq ∈ d.outstanding) : Tracked h d' where
  held_isSome := by rw [hheld, hrunning, ht.held_isSome]
  held := by
    rw [hheld, hjobs, hactive]
    exact ht.held
  others := by
    intro i j seq text hj htask hmem hne
    rw [hjobs] at hj
    rw [hheld] at hne
    exact ht.others i j seq text hj htask (hout seq hmem) hne

/-- A dispatch cancels the token before, and takes that of its own job. -/
theorem dispatched (ht : Tracked h d) {seq : Int}
    (hfresh : seq ∉ d.jobs.filterMap fun j => j.task.seq?) : Tracked h (d.dispatched h seq) where
  held_isSome := rfl
  held := by
    intro i hi
    obtain rfl : d.jobs.length = i := Option.some.inj hi
    refine ⟨Job.mk (.run seq (h.filter d.client)) false false, h.filter d.client, ?_, rfl, ?_⟩
    · show (d.releasedJobs ++ [_])[d.jobs.length]? = _
      rw [← length_releasedJobs, List.getElem?_concat_length]
    · intro hcancelled
      cases hcancelled
  others := by
    intro i j s text hj htask hmem hne
    have hj' : (d.releasedJobs ++ [Job.mk (.run seq (h.filter d.client)) false false])[i]? =
      some j := hj
    have hi : i ≠ d.releasedJobs.length := by
      rw [length_releasedJobs]
      exact fun he => hne (congrArg some he.symm)
    have hlt : i < d.releasedJobs.length := by
      have hbound := (List.getElem?_eq_some_iff.mp hj').1
      rw [List.length_append, List.length_singleton] at hbound
      omega
    rw [List.getElem?_append_left hlt] at hj'
    obtain ⟨j₀, hold, htask', hcancelled⟩ := of_releasedJobs hj'
    rw [htask'] at htask
    apply hcancelled
    by_cases hheld : d.held = some i
    · exact .inl hheld
    · -- the number of the dispatch is new, so that this run was outstanding before
      have hs : s ∈ d.jobs.filterMap fun j => j.task.seq? :=
        List.mem_filterMap.mpr ⟨j₀, List.mem_of_getElem? hold, by rw [htask]; rfl⟩
      have hne' : s ≠ seq := fun he => hfresh (he ▸ hs)
      have hout := List.mem_cons.mp ((outstanding_dispatched (h := h) seq).mem_iff.mp hmem)
      exact .inr (ht.others i j₀ s text hold htask (hout.resolve_left hne') hheld)

omit [Time τ] in
theorem complete (hk : h.KeepsCancelled) (ht : Tracked h d) (k : Nat) :
    Tracked h (d.complete h k) := by
  have hfields : (d.complete h k).held = d.held ∧ (d.complete h k).running = d.running := by
    rcases complete_cases h k d with
      ⟨-, he⟩ | ⟨job, seq, text, -, -, -, he⟩ | ⟨job, path, f, -, -, -, -, he⟩
    all_goals
      rw [he]
      exact ⟨rfl, rfl⟩
  obtain ⟨hheld, hrunning⟩ := hfields
  have hactive := (sameNumbers_complete h d k).active
  refine ⟨by rw [hheld, hrunning, ht.held_isSome], ?_, ?_⟩
  · intro i hi
    rw [hheld] at hi
    obtain ⟨j, text, hj, htask, hown⟩ := ht.held i hi
    obtain ⟨f, hf, hb⟩ := becomes_complete hk d k i
    have hbj := hb j hj
    rw [hj, Option.map_some] at hf
    refine ⟨f j, text, hf, by rw [hbj.task, htask, hactive], ?_⟩
    intro hcancelled
    -- the token was cancelled before, or by the run that has ended now
    rcases hbj.own hcancelled with hbefore | ⟨hended, hrun⟩
    · exact ⟨hbj.ended (hown hbefore).1, (hown hbefore).2⟩
    · exact ⟨hended, hrun d.active text htask⟩
  · intro i j' seq text hj' htask hmem hne
    rw [hheld] at hne
    obtain ⟨f, hf, hb⟩ := becomes_complete hk d k i
    rw [hf, Option.map_eq_some_iff] at hj'
    obtain ⟨j, hj, rfl⟩ := hj'
    have hmem' := (outstanding_complete h k d).mem_iff.mp hmem
    exact (hb j hj).cancelled
      (ht.others i j seq text hj ((hb j hj).task.symm.trans htask) hmem' hne)

omit [Time τ] in
theorem requested (ht : Tracked h d) (path : Text) : Tracked h (d.requested h path) := by
  have hout := outstanding_requested (h := h) (d := d) path
  unfold Dispatcher.requested at hout ⊢
  split
  · next hkeys =>
    rw [if_pos hkeys] at hout
    refine ⟨ht.held_isSome, ?_, ?_⟩
    · intro i hi
      obtain ⟨j, text, hj, hrest⟩ := ht.held i hi
      have hlt : i < d.jobs.length := (List.getElem?_eq_some_iff.mp hj).1
      exact ⟨j, text, (List.getElem?_append_left hlt).trans hj, hrest⟩
    · intro i j seq text hj htask hmem hne
      rw [hout] at hmem
      have hj' : (d.jobs ++ [Job.mk (.lookUp (orRoot path)) false false])[i]? = some j := hj
      rw [List.getElem?_append] at hj'
      split at hj'
      · exact ht.others i j seq text hj' htask hmem hne
      · -- the new job is no run
        obtain rfl := List.mem_singleton.mp (List.mem_of_getElem? hj')
        exact absurd htask (by simp)
  · exact ht

theorem executeNow (hl : Ledger log d) (ht : Tracked h d) :
    Tracked h (d.mint.dispatched h d.mint.minted) := by
  have hfresh := (hl.executeNow (h := h)).fresh
  have hmint : Tracked h d.mint := ht.unchanged rfl rfl rfl rfl fun _ => id
  exact hmint.dispatched hfresh

theorem fired (hl : Ledger log d) (ht : Tracked h d) (i : Nat) : Tracked h (d.fired h i) := by
  have hl' := hl.fired (h := h) i
  have herase : Tracked h { d with alarms := d.alarms.eraseIdx i } :=
    ht.unchanged rfl rfl rfl rfl fun _ => id
  rcases fired_cases h i d with ⟨-, he⟩ | ⟨-, he⟩ | ⟨seq, -, -, he⟩
  · rw [he]
    exact ht
  · rw [he] at hl' ⊢
    exact herase.dispatched hl'.fresh
  · rw [he]
    exact herase.unchanged rfl rfl rfl rfl fun _ => id

/-- The result that is awaited lets go of the token; any other one leaves it alone. -/
theorem delivered (hl : Ledger log d) (ht : Tracked h d) (i : Nat) :
    Tracked h (d.delivered h i) := by
  have hs : (d.delivered h i).Sound := hl.sound.delivered i
  have hout {c : Callback} (hi : d.posted[i]? = some c) :
      ∀ seq ∈ { d with posted := d.posted.eraseIdx i }.outstanding, seq ∈ d.outstanding :=
    fun seq hmem => (outstanding_eraseIdx hi).mem_iff.mpr (List.mem_append_right _ hmem)
  rcases delivered_cases h i d with
    ⟨-, he⟩ | ⟨seq, hi, -⟩ | ⟨seq, o, hi, he⟩ | ⟨path, answer, hi, he⟩
  · rw [he]
    exact ht
  · exact absurd (List.mem_of_getElem? hi) (hl.sound.no_debounce seq)
  · rw [he] at hs ⊢
    by_cases hseq : d.accepts seq
    · simp only [if_pos hseq] at hs ⊢
      refine ⟨rfl, by simp, ?_⟩
      intro k j s text hj htask hmem _
      refine ht.others k j s text hj htask (hout hi s hmem) ?_
      intro hheld
      -- the token that was held is that of the run whose result has come
      obtain ⟨j', text', hj', htask', -⟩ := ht.held k hheld
      obtain rfl : j = j' := Option.some.inj (hj.symm.trans hj')
      obtain ⟨rfl, -⟩ := Task.run.inj (htask.symm.trans htask')
      exact absurd (hs.running_iff.mpr hmem) (by simp)
    · exact ht.unchanged rfl rfl (if_neg hseq) (if_neg hseq) (hout hi)
  · rw [he]
    exact ht.unchanged rfl rfl rfl rfl (hout hi)

/-- **Every move keeps the tokens in order.** -/
theorem next (hk : h.KeepsCancelled) (hl : Ledger log d) (ht : Tracked h d) (m : Move τ χ) :
    Tracked h (m.next h d) := by
  cases m with
  | queue => exact ht.unchanged rfl rfl rfl rfl fun _ => id
  | executeNow => exact ht.executeNow hl
  | edit f => exact ht.unchanged rfl rfl rfl rfl fun _ => id
  | requestKeys path => exact ht.requested path
  | fire i => exact ht.fired hl i
  | complete i => exact ht.complete hk i
  | deliver i => exact ht.delivered hl i
  | tick now => exact ht.unchanged rfl rfl rfl rfl fun _ => id

end Tracked

/-! ### After the end -/

/-- The background has ended, and what has not been delivered is cancelled. -/
structure Silenced (log : List Mark) (d : Dispatcher τ χ) : Prop where
  ended : d.Ended
  cancelled : ∀ (i : Nat) (j : Job) seq text, d.jobs[i]? = some j → j.task = .run seq text →
    seq ∉ log.filterMap Mark.delivered? → j.cancelled = true

omit [Time τ] in
/-- A run that was handed over is outstanding until its result is delivered. -/
theorem Ledger.mem_outstanding {j : Job} {seq : Int} {text : Text} (hl : Ledger log d)
    (hj : j ∈ d.jobs) (htask : j.task = .run seq text)
    (hundelivered : seq ∉ log.filterMap Mark.delivered?) : seq ∈ d.outstanding := by
  refine (hl.mem_outstanding_iff seq).mpr ⟨?_, hundelivered⟩
  rw [← hl.submitted]
  exact List.mem_filterMap.mpr ⟨j, hj, by rw [htask]; rfl⟩

omit [Time τ] in
/-- The end cancels the one token that was left. -/
theorem Tracked.silenced (hl : Ledger log d) (ht : Tracked h d) : Silenced log d.shutDown where
  ended := hl.sound.ended
  cancelled := by
    intro i j seq text hj htask hundelivered
    rw [shutDown_eq] at hj
    obtain ⟨j₀, hold, htask', hcancelled⟩ := of_releasedJobs hj
    rw [htask'] at htask
    apply hcancelled
    by_cases hheld : d.held = some i
    · exact .inl hheld
    · have hout := hl.mem_outstanding (List.mem_of_getElem? hold) htask hundelivered
      exact .inr (ht.others i j₀ seq text hold htask hout hheld)

namespace Silenced

/-- No move takes a cancellation back. -/
theorem act (hk : h.KeepsCancelled) (hs : Silenced log d) (m : Move τ χ) :
    Silenced (log ++ m.marks d) (m.act h d).2 where
  ended := hs.ended.act m
  cancelled := by
    intro i j seq text hj htask hundelivered
    have hbefore : ∃ j₀, d.jobs[i]? = some j₀ ∧ j.task = j₀.task ∧
        (j₀.cancelled = true → j.cancelled = true) := by
      rcases hs.ended.act_jobs (h := h) m with hjobs | hjobs | ⟨k, hjobs⟩
      · exact ⟨j, hjobs ▸ hj, rfl, id⟩
      · obtain ⟨j₀, hold, htask', hkeeps⟩ := of_releasedJobs (hjobs ▸ hj)
        exact ⟨j₀, hold, htask', fun hcancelled => hkeeps (.inr hcancelled)⟩
      · obtain ⟨f, hf, hb⟩ := becomes_complete hk d k i
        rw [hjobs, hf, Option.map_eq_some_iff] at hj
        obtain ⟨j₀, hold, rfl⟩ := hj
        exact ⟨j₀, hold, (hb j₀ hold).task, (hb j₀ hold).cancelled⟩
    obtain ⟨j₀, hold, htask', hkeeps⟩ := hbefore
    refine hkeeps (hs.cancelled i j₀ seq text hold (htask'.symm.trans htask) ?_)
    intro hmem
    rw [List.filterMap_append] at hundelivered
    exact hundelivered (List.mem_append_left _ hmem)

/-- **Moves after the end leave what has not been delivered cancelled.** -/
theorem afterEach (hk : h.KeepsCancelled) (hs : Silenced log d) (ms : List (Move τ χ)) :
    Silenced (log ++ history h ms d) (d.afterEach h ms) := by
  induction ms generalizing log d with
  | nil =>
    rw [history, List.append_nil]
    exact hs
  | cons m rest ih =>
    have hrest := ih (hs.act hk m)
    rw [history, ← List.append_assoc]
    exact hrest

end Silenced

/-! ### Runs -/

/-- **The tokens follow the runs.**  Whatever has happened to a dispatcher before its end, in any
order, a result is awaited exactly from the dispatch of the active number to the delivery of its
result; a token is held exactly then, that of its run, which nobody but this run itself has
cancelled; and all other runs whose results are still to come are cancelled.  After the end, and
after all that happens then, every run whose result is still to come is cancelled. -/
theorem tokens_follow_runs (hk : h.KeepsCancelled) (client : χ) (now : τ) (latency : Latency τ)
    (ms : List (Move τ χ)) :
    let start := ofClient client now latency
    let log := history h ms start
    ∃ d, perform h ms start = (.ok (), d) ∧
      d.active ≤ d.minted ∧
      (d.running = true ↔
        (∃ j ∈ d.jobs, ∃ text, j.task = .run d.active text) ∧
          d.active ∉ log.filterMap Mark.delivered?) ∧
      d.held.isSome = d.running ∧
      (∀ i, d.held = some i → ∃ j text, d.jobs[i]? = some j ∧ j.task = .run d.active text ∧
        (j.cancelled = true → j.ended = true ∧ ∃ c, (h.execute text false c).1.2 = true)) ∧
      (∀ i j seq text, d.jobs[i]? = some j → j.task = .run seq text →
        seq ∉ log.filterMap Mark.delivered? → d.held ≠ some i → j.cancelled = true) ∧
      ∀ later, ∀ j ∈ (d.shutDown.afterEach h later).jobs, ∀ seq text, j.task = .run seq text →
        seq ∉ (log ++ history h later d.shutDown).filterMap Mark.delivered? →
          j.cancelled = true := by
  intro start log
  have hopen : start.shut = false := rfl
  have hstart : Ledger [] start ∧ Tracked h start :=
    ⟨.ofClient client now latency, .ofClient h client now latency⟩
  have hkept : Ledger log (start.afterAll h ms) ∧ Tracked h (start.afterAll h ms) :=
    history_induction (P := fun log d => Ledger log d ∧ Tracked h d)
      (fun _ _ m hP => ⟨hP.1.next m, hP.2.next hk hP.1 m⟩) hopen hstart ms
  obtain ⟨hl, ht⟩ := hkept
  refine ⟨start.afterAll h ms, perform_eq ms hopen, hl.sound.active_le, ?_, ht.held_isSome,
    ht.held, ?_, ?_⟩
  · rw [hl.sound.running_iff, hl.mem_outstanding_iff, ← hl.submitted]
    refine and_congr_left fun _ => ?_
    simp only [List.mem_filterMap, Task.seq?_eq_some]
  · intro i j seq text hj htask hundelivered
    exact ht.others i j seq text hj htask
      (hl.mem_outstanding (List.mem_of_getElem? hj) htask hundelivered)
  · intro later j hj seq text htask
    obtain ⟨i, hi⟩ := List.getElem?_of_mem hj
    exact ((ht.silenced hl).afterEach hk later).cancelled i j seq text hi htask

/-- Of two runs the first is cancelled, also when it has ended, and the end cancels the second. -/
theorem tokens_follow_two_runs :
    let h := ({} : ClientTables).hooks
    let start : Dispatcher Float TableClient := ofClient {} Time.zero { enabled := false }
    let d := start.afterAll h [.executeNow, .executeNow, .complete 0]
    h.KeepsCancelled ∧ d.running = true ∧ d.held = some 1 ∧
      (∀ j, d.jobs[0]? = some j → j.cancelled = true) ∧
      (∀ j, d.jobs[1]? = some j → j.cancelled = false) ∧
      ∀ j ∈ (d.shutDown.afterEach h [.deliver 0]).jobs, ∀ text,
        j.task = .run 2 text → j.cancelled = true := by
  intro h start d
  have hk : h.KeepsCancelled := ClientTables.keepsCancelled {}
  obtain ⟨d', hd', -, -, -, hheld, hothers, hend⟩ :=
    tokens_follow_runs hk {} (Time.zero : Float) { enabled := false }
      [.executeNow, .executeNow, .complete 0]
  obtain rfl : d = d' := (Prod.mk.inj ((perform_eq _ rfl).symm.trans hd')).2
  refine ⟨hk, rfl, rfl, ?_, ?_, ?_⟩
  · intro j hj
    obtain rfl : Job.mk (.run 1 ['.']) true true = j := Option.some.inj hj
    exact hothers 0 _ 1 ['.'] rfl rfl (by decide) (by decide)
  · intro j hj
    obtain ⟨j', _, hj', -, hown⟩ := hheld 1 rfl
    obtain rfl : j = j' := Option.some.inj (hj.symm.trans hj')
    -- the run has not ended, so that it cannot have cancelled itself
    have hopen : j.ended = false := by
      obtain rfl : Job.mk (.run 2 ['.']) false false = j := Option.some.inj hj
      rfl
    refine Bool.eq_false_iff.mpr fun hcancelled => ?_
    exact absurd ((hown hcancelled).1.symm.trans hopen) (by simp)
  · intro j hj text htask
    exact hend [.deliver 0] j hj 2 text htask (by decide)

end Dispatcher

end LiveQuery
