/-
LiveQuery/Proofs/Dispatch/Bursts.lean

A burst of inputs is run once.

Each input of a burst sets an alarm of its own, behind those that have been left from before.  When
the alarms go off, in any order, only that of the newest number hands a job to the background; it is
the number of the last input, and the job runs the filter as it then stands.

Design.  After the burst the host only serves what has been set up: alarms go off, jobs end and
completions are delivered.  Such a move leaves the newest number, and submits nothing as long as the
alarm of that number stays (`serves_cases`); so a run splits at the alarm that submits
(`serve_split`), and nothing is submitted once it is gone.  Which numbers have been superseded
is then read off the ledger: the alarms before are the alarms after, the one that was dispatched,
and those (`superseded_perm`).

Main result: `burst_runs_once`.
-/
import LiveQuery.Proofs.Dispatch.Balance
import LiveQuery.Session.TableClient

namespace LiveQuery

/-- Neither the background nor a completion changes the text of the client's filter. -/
structure Hooks.KeepsFilter {χ : Type} (h : Hooks χ) : Prop where
  execute : ∀ text cancelled c, h.filter (h.execute text cancelled c).2 = h.filter c
  keysAt : ∀ f, h.keysAt = some f → ∀ path c, h.filter (f path c).2 = h.filter c
  commit : ∀ o c, h.filter (h.commit o c) = h.filter c
  takeKeys : ∀ path keys c, h.filter (h.takeKeys path keys c) = h.filter c

theorem ClientTables.keepsFilter (t : ClientTables) : t.hooks.KeepsFilter where
  execute _ _ _ := rfl
  keysAt f hf path c := by
    unfold hooks at hf
    dsimp only at hf
    split at hf
    · obtain rfl := Option.some.inj hf
      rfl
    · cases hf
  commit _ _ := rfl
  takeKeys path keys c := by
    unfold hooks
    dsimp only
    split <;> rfl

namespace Dispatcher

variable {τ χ : Type}

/-- The tasks that have been handed to the background, in the order of their submission. -/
def tasks (d : Dispatcher τ χ) : List Task := d.jobs.map Job.task

/-- Whether a move belongs to a burst of inputs: no alarm goes off, and nothing is run at once. -/
def Move.types : Move τ χ → Bool
  | .fire _ => false
  | .executeNow => false
  | _ => true

/-- Whether a move is an input with a delay. -/
def Move.queues : Move τ χ → Bool
  | .queue => true
  | _ => false

/-- Whether a move is one of the host, which brings nothing new. -/
def Move.serves : Move τ χ → Bool
  | .fire _ => true
  | .complete _ => true
  | .deliver _ => true
  | .tick _ => true
  | _ => false

/-- What is left of a list without repetition when a part of it is taken out. -/
theorem perm_filter_not_mem {l part rest : List Int} (h : l.Perm (part ++ rest)) (hl : l.Nodup) :
    rest.Perm (l.filter fun a => a ∉ part) := by
  obtain ⟨-, -, hapart⟩ := List.nodup_append.mp (h.nodup_iff.mp hl)
  have hpart : part.filter (fun a => a ∉ part) = [] := by
    refine List.filter_eq_nil_iff.mpr fun a ha => ?_
    simp [ha]
  have hrest : rest.filter (fun a => a ∉ part) = rest := by
    refine List.filter_eq_self.mpr fun a ha => decide_eq_true ?_
    exact fun hmem => hapart a hmem a ha rfl
  have hfilter := h.filter fun a => a ∉ part
  rw [List.filter_append, hpart, hrest, List.nil_append] at hfilter
  exact hfilter.symm

variable [Time τ] {h : Hooks χ} {d : Dispatcher τ χ} {m : Move τ χ}

/-! ### The burst -/

theorem afterAll_cons (h : Hooks χ) (m : Move τ χ) (rest : List (Move τ χ))
    (d : Dispatcher τ χ) : d.afterAll h (m :: rest) = (m.next h d).afterAll h rest := rfl

/-- In a burst, an input mints a number and sets its alarm, and nothing else does. -/
theorem types_next (hd : d.Sound) (hm : m.types) :
    (m.next h d).minted = d.minted + (if m.queues then 1 else 0) ∧
      (m.next h d).alarms = d.alarms ++ if m.queues then [d.minted + 1] else [] := by
  have hsame {d' : Dispatcher τ χ} (hs : SameNumbers d d') :
      d'.minted = d.minted + 0 ∧ d'.alarms = d.alarms ++ [] := by
    rw [hs.minted, hs.alarms, Int.add_zero, List.append_nil]
    exact ⟨rfl, rfl⟩
  cases m with
  | queue => exact ⟨rfl, rfl⟩
  | executeNow => cases hm
  | fire i => cases hm
  | edit f => exact hsame ⟨rfl, rfl, rfl⟩
  | requestKeys path => exact hsame (sameNumbers_requested h d path)
  | complete i => exact hsame (sameNumbers_complete h d i)
  | deliver i => exact hsame (sameNumbers_delivered hd.no_debounce i)
  | tick now => exact hsame ⟨rfl, rfl, rfl⟩

/-- **A burst sets an alarm for each of its inputs**, behind those that were set before it. -/
theorem burst_alarms (hd : d.Sound) {burst : List (Move τ χ)} (hburst : ∀ m ∈ burst, m.types) :
    (d.afterAll h burst).minted = d.minted + burst.countP Move.queues ∧
      (d.afterAll h burst).alarms =
        d.alarms ++ Int.range (d.minted + 1) ((d.afterAll h burst).minted + 1) := by
  induction burst generalizing d with
  | nil =>
    show d.minted = d.minted + 0 ∧ d.alarms = d.alarms ++ Int.range (d.minted + 1) (d.minted + 1)
    simp [Int.range]
  | cons m rest ih =>
    obtain ⟨hm, hrest⟩ := List.forall_mem_cons.mp hburst
    obtain ⟨hminted, halarms⟩ := types_next (h := h) hd hm
    obtain ⟨hcount, hset⟩ := ih (hd.next m) hrest
    rw [afterAll_cons]
    rw [hminted] at hcount hset
    rw [halarms] at hset
    rcases hq : m.queues with - | -
    · simp only [hq, Bool.false_eq_true, if_false, Int.add_zero, List.append_nil] at hcount hset
      rw [List.countP_cons_of_neg (by simp [hq])]
      exact ⟨hcount, hset⟩
    · simp only [hq, if_true] at hcount hset
      rw [List.countP_cons_of_pos hq, range_cons (by omega)]
      refine ⟨by omega, ?_⟩
      rw [hset, List.append_assoc]
      rfl

/-! ### The host serves -/

omit [Time τ] in
theorem tasks_complete (h : Hooks χ) (i : Nat) (d : Dispatcher τ χ) :
    (d.complete h i).tasks = d.tasks := by
  rcases complete_cases h i d with
    ⟨-, he⟩ | ⟨job, seq, text, hj, -, -, he⟩ | ⟨job, path, f, hj, -, -, -, he⟩
  · rw [he]
  all_goals
    rw [he, tasks, tasks, ← List.filterMap_eq_map]
    exact filterMap_set hj rfl

theorem tasks_delivered (hd : ∀ seq, .debounce seq ∉ d.posted) (i : Nat) :
    (d.delivered h i).tasks = d.tasks := by
  rcases delivered_cases h i d with
    ⟨-, he⟩ | ⟨seq, hi, -⟩ | ⟨seq, o, -, he⟩ | ⟨path, answer, -, he⟩
  · rw [he]
  · exact absurd (List.mem_of_getElem? hi) (hd seq)
  · rw [he]
    rfl
  · rw [he]
    rfl

theorem tasks_dispatched (seq : Int) :
    (d.dispatched h seq).tasks = d.tasks ++ [.run seq (h.filter d.client)] := by
  have hkept : d.releasedJobs.map Job.task = d.jobs.map Job.task := by
    rw [← List.filterMap_eq_map]
    exact filterMap_releasedJobs (fun _ => rfl) d
  rw [tasks, dispatched, List.map_append, hkept]
  rfl

/-- **What the host can do between inputs.**  It submits nothing and leaves the alarm of the newest
number, or this alarm goes off and its job is submitted. -/
theorem serves_cases (hd : d.Sound) (hm : m.serves) :
    (m.next h d).minted = d.minted ∧
      (((m.next h d).tasks = d.tasks ∧ (d.minted ∈ (m.next h d).alarms ↔ d.minted ∈ d.alarms)) ∨
        ∃ i, m = .fire i ∧ d.alarms[i]? = some d.minted ∧ d.minted ∉ (m.next h d).alarms ∧
          (m.next h d).tasks = d.tasks ++ [.run d.minted (h.filter d.client)]) := by
  have hsame {d' : Dispatcher τ χ} (hs : SameNumbers d d') (htasks : d'.tasks = d.tasks)
      {P : Prop} : d'.minted = d.minted ∧
        (d'.tasks = d.tasks ∧ (d.minted ∈ d'.alarms ↔ d.minted ∈ d.alarms) ∨ P) :=
    ⟨hs.minted, .inl ⟨htasks, by rw [hs.alarms]⟩⟩
  cases m with
  | queue => cases hm
  | executeNow => cases hm
  | edit f => cases hm
  | requestKeys path => cases hm
  | complete i => exact hsame (sameNumbers_complete h d i) (tasks_complete h i d)
  | deliver i =>
    exact hsame (sameNumbers_delivered hd.no_debounce i) (tasks_delivered hd.no_debounce i)
  | tick now => exact hsame ⟨rfl, rfl, rfl⟩ rfl
  | fire i =>
    show (d.fired h i).minted = d.minted ∧
      ((d.fired h i).tasks = d.tasks ∧ (d.minted ∈ (d.fired h i).alarms ↔ d.minted ∈ d.alarms) ∨
        ∃ k, Move.fire (τ := τ) (χ := χ) i = .fire k ∧ d.alarms[k]? = some d.minted ∧
          d.minted ∉ (d.fired h i).alarms ∧
          (d.fired h i).tasks = d.tasks ++ [.run d.minted (h.filter d.client)])
    rcases fired_cases h i d with ⟨-, he⟩ | ⟨hi, he⟩ | ⟨seq, hi, hseq, he⟩
    · rw [he]
      exact hsame ⟨rfl, rfl, rfl⟩ rfl
    · -- the alarm that has gone off was the only one of its number
      have hgone : d.minted ∉ d.alarms.eraseIdx i :=
        (List.nodup_cons.mp ((perm_cons_eraseIdx hi).nodup_iff.mp hd.alarms_nodup)).1
      rw [he]
      exact ⟨rfl, .inr ⟨i, rfl, hi, hgone, tasks_dispatched _⟩⟩
    · rw [he]
      refine ⟨rfl, .inl ⟨rfl, ?_⟩⟩
      rw [(perm_cons_eraseIdx hi).mem_iff, List.mem_cons]
      exact (or_iff_right hseq.symm).symm

/-- Once the alarm of the newest number is gone, nothing more is submitted. -/
theorem serve_quiet (hd : d.Sound) {rest : List (Move τ χ)} (hrest : ∀ m ∈ rest, m.serves)
    (hgone : d.minted ∉ d.alarms) :
    (d.afterAll h rest).minted = d.minted ∧ (d.afterAll h rest).tasks = d.tasks := by
  induction rest generalizing d with
  | nil => exact ⟨rfl, rfl⟩
  | cons m rest ih =>
    obtain ⟨hm, hmore⟩ := List.forall_mem_cons.mp hrest
    obtain ⟨hminted, ⟨htasks, halarm⟩ | ⟨i, -, hi, -⟩⟩ := serves_cases (h := h) hd hm
    · have hstill : (m.next h d).minted ∉ (m.next h d).alarms := by
        rw [hminted]
        exact fun hmem => hgone (halarm.mp hmem)
      obtain ⟨hminted', htasks'⟩ := ih (hd.next m) hmore hstill
      exact ⟨hminted'.trans hminted, htasks'.trans htasks⟩
    · exact absurd (List.mem_of_getElem? hi) hgone

/-- **A run of the host splits at the alarm of the newest number**: it has not gone off, and nothing
has been submitted; or its job is submitted when it goes off, and nothing before or after. -/
theorem serve_split (hd : d.Sound) {rest : List (Move τ χ)} (hrest : ∀ m ∈ rest, m.serves)
    (hset : d.minted ∈ d.alarms) :
    (d.afterAll h rest).minted = d.minted ∧
      (d.minted ∈ (d.afterAll h rest).alarms ∧ (d.afterAll h rest).tasks = d.tasks ∨
        ∃ past i future, rest = past ++ .fire i :: future ∧
          (d.afterAll h past).alarms[i]? = some d.minted ∧
          (d.afterAll h past).tasks = d.tasks ∧
          (d.afterAll h rest).tasks =
            d.tasks ++ [.run d.minted (h.filter (d.afterAll h past).client)]) := by
  induction rest generalizing d with
  | nil => exact ⟨rfl, .inl ⟨hset, rfl⟩⟩
  | cons m rest ih =>
    obtain ⟨hm, hmore⟩ := List.forall_mem_cons.mp hrest
    obtain ⟨hminted, ⟨htasks, halarm⟩ | ⟨i, rfl, hi, hgone, htasks⟩⟩ := serves_cases (h := h) hd hm
    · -- the alarm stays, and the rest is split
      have hstill : (m.next h d).minted ∈ (m.next h d).alarms := by
        rw [hminted]
        exact halarm.mpr hset
      obtain ⟨hminted', hsplit⟩ := ih (hd.next m) hmore hstill
      refine ⟨hminted'.trans hminted, ?_⟩
      rw [hminted, htasks] at hsplit
      rcases hsplit with hnone | ⟨past, i, future, rfl, hi, hpast, hall⟩
      · exact .inl hnone
      · exact .inr ⟨m :: past, i, future, rfl, hi, hpast, hall⟩
    · -- this is the alarm
      have hquiet := serve_quiet (h := h) (hd.next (.fire i)) hmore (by rwa [hminted])
      refine ⟨hquiet.1.trans hminted, .inr ⟨[], i, rest, rfl, hi, rfl, ?_⟩⟩
      exact hquiet.2.trans htasks

theorem serves_filter (hh : h.KeepsFilter) (hd : d.Sound) (hm : m.serves) :
    h.filter (m.next h d).client = h.filter d.client := by
  cases m with
  | queue => cases hm
  | executeNow => cases hm
  | edit f => cases hm
  | requestKeys path => cases hm
  | tick now => rfl
  | fire i =>
    show h.filter (d.fired h i).client = _
    rcases fired_cases h i d with ⟨-, he⟩ | ⟨-, he⟩ | ⟨seq, -, -, he⟩
    · rw [he]
    · rw [he]
      rfl
    · rw [he]
  | complete i =>
    show h.filter (d.complete h i).client = _
    rcases complete_cases h i d with
      ⟨-, he⟩ | ⟨job, seq, text, -, -, -, he⟩ | ⟨job, path, f, -, -, -, hf, he⟩
    · rw [he]
    · rw [he]
      exact hh.execute text job.cancelled d.client
    · rw [he]
      exact hh.keysAt f hf path d.client
  | deliver i =>
    show h.filter (d.delivered h i).client = _
    rcases delivered_cases h i d with
      ⟨-, he⟩ | ⟨seq, hi, -⟩ | ⟨seq, o, -, he⟩ | ⟨path, answer, -, he⟩
    · rw [he]
    · exact absurd (List.mem_of_getElem? hi) (hd.no_debounce seq)
    · rw [he]
      dsimp only
      split
      · exact hh.commit o d.client
      · rfl
    · rw [he]
      dsimp only
      split
      · exact hh.takeKeys path answer.toOption d.client
      · rfl

/-- The filter stays while the host serves. -/
theorem serve_filter (hh : h.KeepsFilter) (hd : d.Sound) {rest : List (Move τ χ)}
    (hrest : ∀ m ∈ rest, m.serves) : h.filter (d.afterAll h rest).client = h.filter d.client := by
  induction rest generalizing d with
  | nil => rfl
  | cons m rest ih =>
    obtain ⟨hm, hmore⟩ := List.forall_mem_cons.mp hrest
    exact (ih (hd.next m) hmore).trans (serves_filter hh hd hm)

/-! ### The alarm of the newest number -/

omit [Time τ] in
/-- The numbers that are superseded are those whose alarms have gone off, without the one that has
been dispatched. -/
theorem superseded_perm {log marks : List Mark} {d d' : Dispatcher τ χ} (hl : Ledger log d)
    (hl' : Ledger (log ++ marks) d') (hminted : d'.minted = d.minted) {text : Text}
    (htasks : d'.tasks = d.tasks ++ [.run d.minted text]) {others : List Int}
    (halarms : d.alarms.Perm (d.minted :: others)) :
    (marks.filterMap Mark.superseded?).Perm (others.filter fun seq => seq ∉ d'.alarms) := by
  have hnumbers (d : Dispatcher τ χ) :
      d.jobs.filterMap (fun j => j.task.seq?) = d.tasks.filterMap Task.seq? := by
    rw [tasks, List.filterMap_map]
    rfl
  -- the numbers that have been dispatched are those of the jobs, in their order
  have hdispatched : marks.filterMap Mark.dispatched? = [d.minted] := by
    have hall := hl'.submitted
    rw [hnumbers, htasks, List.filterMap_append, ← hnumbers, hl.submitted,
      List.filterMap_append] at hall
    exact (List.append_cancel_left hall).symm
  -- the ledger places each number once, and no number has been minted in between
  have hothers : others.Perm (d'.alarms ++ marks.filterMap Mark.superseded?) := by
    refine List.perm_iff_count.mpr fun s => ?_
    have hold := hl.minted_perm.count_eq s
    have hnew := hl'.minted_perm.count_eq s
    have hfirst := halarms.count_eq s
    rw [hminted] at hnew
    rw [← List.singleton_append, List.count_append] at hfirst
    simp only [List.filterMap_append, hdispatched, List.count_append] at hold hnew ⊢
    omega
  refine perm_filter_not_mem hothers ?_
  exact (List.nodup_cons.mp (halarms.nodup_iff.mp hl.sound.alarms_nodup)).2

/-- The marks so far fit a dispatcher, and its latencies if they are recorded. -/
structure Kept (recording : Bool) (log : List Mark) (d : Dispatcher τ χ) : Prop where
  shut : d.shut = false
  ledger : Ledger log d
  measured : recording = true → Measured log d.alarms d.outstanding d.latency

namespace Kept

variable {recording : Bool} {log : List Mark}

omit [Time τ] in
theorem ofClient (client : χ) (now : τ) (recording : Bool) :
    Kept recording [] (ofClient client now { enabled := recording }) where
  shut := rfl
  ledger := .ofClient client now _
  measured := by
    rintro rfl
    exact .start

theorem afterAll (hk : Kept recording log d) (ms : List (Move τ χ)) :
    Kept recording (log ++ history h ms d) (d.afterAll h ms) :=
  history_induction
    (fun _ _ m hk =>
      { shut := (Move.next_shut m).trans hk.shut
        ledger := hk.ledger.next m
        measured := fun hr => measured_next hk.ledger (hk.measured hr) m })
    hk.shut hk ms

/-- **Where the alarm of the newest number has gone off**, its job is the only one that has been
submitted, and the other alarms that have gone off were superseded. -/
theorem serve_newest (hk : Kept recording log d) {others : List Int}
    (halarms : d.alarms.Perm (d.minted :: others)) {rest : List (Move τ χ)}
    (hrest : ∀ m ∈ rest, m.serves) (hgone : d.minted ∉ (d.afterAll h rest).alarms) :
    let dropped := others.filter fun seq => seq ∉ (d.afterAll h rest).alarms
    (∃ past i future, rest = past ++ .fire i :: future ∧
      (d.afterAll h past).alarms[i]? = some d.minted ∧
      (d.afterAll h past).tasks = d.tasks ∧
      (d.afterAll h rest).tasks =
        d.tasks ++ [.run d.minted (h.filter (d.afterAll h past).client)] ∧
      (h.KeepsFilter → h.filter (d.afterAll h past).client = h.filter d.client)) ∧
    ((history h rest d).filterMap Mark.superseded?).Perm dropped ∧
    (recording = true →
      (d.afterAll h rest).latency.dropped = d.latency.dropped + dropped.length) := by
  intro dropped
  have hk' := hk.afterAll (h := h) rest
  have hset : d.minted ∈ d.alarms := halarms.mem_iff.mpr List.mem_cons_self
  obtain ⟨hminted, ⟨hstill, -⟩ | ⟨past, i, future, hsplit, hi, hpast, htasks⟩⟩ :=
    serve_split (h := h) hk.ledger.sound hrest hset
  · exact absurd hstill hgone
  have hsuperseded := superseded_perm hk.ledger hk'.ledger hminted htasks halarms
  refine ⟨⟨past, i, future, hsplit, hi, hpast, htasks, fun hh => ?_⟩, hsuperseded, fun hr => ?_⟩
  · refine serve_filter hh hk.ledger.sound fun m hm => hrest m ?_
    rw [hsplit]
    exact List.mem_append_left _ hm
  · have hdropped := (hk'.measured hr).dropped
    rw [List.filterMap_append, List.length_append, ← (hk.measured hr).dropped,
      hsuperseded.length_eq] at hdropped
    exact hdropped

end Kept

/-! ### Runs -/

/-- **A burst is run once.**  Whatever has happened to a dispatcher before its end, a burst of
inputs sets an alarm for each of them.  Where the host then serves until these alarms have gone off,
with those that had been set before or without them, one job has been submitted: it was when the
alarm of the last input went off, with its number and the filter as it then was, which is that of
the last input where the host cannot change it.  All other alarms that have gone off were
superseded, and are counted as dropped. -/
theorem burst_runs_once (h : Hooks χ) (client : χ) (now : τ) (recording : Bool)
    (before burst rest : List (Move τ χ)) (hburst : ∀ m ∈ burst, m.types)
    (hqueued : 0 < burst.countP Move.queues) (hrest : ∀ m ∈ rest, m.serves) :
    ∃ d₀ d₁ d₂,
      perform h before (ofClient client now { enabled := recording }) = (.ok (), d₀) ∧
      perform h burst d₀ = (.ok (), d₁) ∧ perform h rest d₁ = (.ok (), d₂) ∧
      d₁.minted = d₀.minted + burst.countP Move.queues ∧
      d₁.alarms = d₀.alarms ++ Int.range (d₀.minted + 1) (d₁.minted + 1) ∧
      ((∀ seq ∈ Int.range (d₀.minted + 1) (d₁.minted + 1), seq ∉ d₂.alarms) →
        let leftover := d₀.alarms.filter fun seq => seq ∉ d₂.alarms
        (∃ past i future, rest = past ++ .fire i :: future ∧
          (d₁.afterAll h past).alarms[i]? = some d₁.minted ∧
          (d₁.afterAll h past).tasks = d₁.tasks ∧
          d₂.tasks = d₁.tasks ++ [.run d₁.minted (h.filter (d₁.afterAll h past).client)] ∧
          (h.KeepsFilter → h.filter (d₁.afterAll h past).client = h.filter d₁.client)) ∧
        ((history h rest d₁).filterMap Mark.superseded?).Perm
          (leftover ++ Int.range (d₀.minted + 1) d₁.minted) ∧
        (recording = true →
          d₂.latency.dropped =
            d₁.latency.dropped + leftover.length + (burst.countP Move.queues - 1))) := by
  have hstart := Kept.ofClient client now recording
  have hbefore := perform_eq (h := h) before hstart.shut
  have hk₀ := hstart.afterAll (h := h) before
  generalize (ofClient client now { enabled := recording }).afterAll h before = d₀ at hbefore hk₀
  have hk₁ := hk₀.afterAll (h := h) burst
  have hinputs := perform_eq (h := h) burst hk₀.shut
  obtain ⟨hcount, halarms⟩ := burst_alarms (h := h) hk₀.ledger.sound hburst
  generalize d₀.afterAll h burst = d₁ at hk₁ hinputs hcount halarms
  refine ⟨d₀, d₁, d₁.afterAll h rest, hbefore, hinputs, perform_eq rest hk₁.shut, hcount, halarms,
    fun hgone => ?_⟩
  -- the alarm of the last input stands at the end
  have hlast : Int.range (d₀.minted + 1) (d₁.minted + 1) =
      Int.range (d₀.minted + 1) d₁.minted ++ [d₁.minted] := range_concat (by omega)
  rw [hlast, List.forall_mem_append, List.forall_mem_singleton] at hgone
  have hothers : d₁.alarms.Perm
      (d₁.minted :: (d₀.alarms ++ Int.range (d₀.minted + 1) d₁.minted)) := by
    rw [halarms, hlast, ← List.append_assoc]
    exact List.perm_append_singleton ..
  have hburstGone : (Int.range (d₀.minted + 1) d₁.minted).filter
        (fun seq => seq ∉ (d₁.afterAll h rest).alarms) =
      Int.range (d₀.minted + 1) d₁.minted :=
    List.filter_eq_self.mpr fun seq hseq => decide_eq_true (hgone.1 seq hseq)
  obtain ⟨hsubmitted, hsuperseded, hdropped⟩ := hk₁.serve_newest hothers hrest hgone.2
  rw [List.filter_append, hburstGone] at hsuperseded hdropped
  have hsize : (d₁.minted - (d₀.minted + 1)).toNat = burst.countP Move.queues - 1 := by omega
  rw [List.length_append, length_range, hsize, ← Nat.add_assoc] at hdropped
  exact ⟨hsubmitted, hsuperseded, hdropped⟩

/-- The filter is changed between two inputs, and an alarm has been left from before them; the three
alarms go off newest first. -/
theorem burst_runs_once_reversed :
    let h := ({} : ClientTables).hooks
    let filter := ".a".toList
    let start : Dispatcher Float TableClient := ofClient {} Time.zero { enabled := true }
    let d₀ := start.afterAll h [.queue]
    let d₁ := d₀.afterAll h [.queue, .edit fun c => { c with filter }, .queue]
    let d₂ := d₁.afterAll h [.fire 2, .complete 0, .fire 1, .fire 0]
    d₁.alarms = [1, 2, 3] ∧ d₂.tasks = [.run 3 filter] ∧ d₂.latency.dropped = 2 := by
  intro h filter start d₀ d₁ d₂
  obtain ⟨e₀, e₁, e₂, h₀, h₁, h₂, -, -, hserved⟩ :=
    burst_runs_once h {} (Time.zero : Float) true [.queue]
      [.queue, .edit fun c => { c with filter }, .queue]
      [.fire 2, .complete 0, .fire 1, .fire 0]
      (by simp [Move.types]) (by decide) (by simp [Move.serves])
  obtain rfl : d₀ = e₀ := (Prod.mk.inj ((perform_eq _ rfl).symm.trans h₀)).2
  obtain rfl : d₁ = e₁ := (Prod.mk.inj ((perform_eq _ rfl).symm.trans h₁)).2
  obtain rfl : d₂ = e₂ := (Prod.mk.inj ((perform_eq _ rfl).symm.trans h₂)).2
  have hleft : d₀.alarms = [1] := rfl
  have hnone : d₂.alarms = [] := rfl
  have hkept : d₁.latency.dropped = 0 := rfl
  have hlast : d₁.minted = 3 := rfl
  rw [hnone, hleft] at hserved
  obtain ⟨⟨past, i, future, -, -, -, htasks, hfilter⟩, -, hdropped⟩ :=
    hserved fun seq _ => List.not_mem_nil
  rw [hkept] at hdropped
  refine ⟨rfl, ?_, hdropped rfl⟩
  rw [htasks, hfilter (ClientTables.keepsFilter {}), hlast]
  rfl

end Dispatcher

end LiveQuery
