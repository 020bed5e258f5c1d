/-
LiveQuery/Proofs/Dispatch/Sound.lean

What is true of the numbers of a dispatcher in every state that moves lead to.

Design.  The runs that are still to be answered are listed by their sequence numbers, first those
whose jobs have not ended and then those whose results are posted (`Dispatcher.outstanding`).  A
job that ends moves its number from the first part to the second, a delivery takes a number out,
and a dispatch brings in a new one: up to the order, each move changes the list by at most one
number.  `Dispatcher.Sound` says that these numbers are distinct and none is newer than the active
one, that the active one is among them exactly while a result is awaited, and that the alarms
are set for distinct numbers that have been minted and are not the active one.

Main results: a new dispatcher is sound (`sound_ofClient`), and every move keeps it so
(`Sound.next`).
-/
import Mathlib.Data.List.Perm.Basic
import LiveQuery.Proofs.Dispatch.Moves

namespace LiveQuery

/-! ### Numbers of runs -/

/-- The sequence number of a run. -/
def Task.seq? : Task → Option Int
  | run seq _ => some seq
  | lookUp _ => none

/-- The sequence number of a run that has not ended. -/
def Job.open? (j : Job) : Option Int := if j.ended then none else j.task.seq?

/-- The sequence number of a run that has ended. -/
def Callback.answered? : Callback → Option Int
  | result seq _ => some seq
  | _ => none

namespace Dispatcher

variable {τ χ : Type}

/-- The sequence numbers of the runs whose results have not been delivered. -/
def outstanding (d : Dispatcher τ χ) : List Int :=
  d.jobs.filterMap Job.open? ++ d.posted.filterMap Callback.answered?

/-- The numbers of a dispatcher fit together. -/
structure Sound (d : Dispatcher τ χ) : Prop where
  active_nonneg : 0 ≤ d.active
  active_le : d.active ≤ d.minted
  alarms_nodup : d.alarms.Nodup
  alarm_range : ∀ seq ∈ d.alarms, 0 < seq ∧ seq ≤ d.minted
  alarm_ne : d.active ∉ d.alarms
  no_debounce : ∀ seq, .debounce seq ∉ d.posted
  outstanding_nodup : d.outstanding.Nodup
  outstanding_le : ∀ seq ∈ d.outstanding, seq ≤ d.active
  running_iff : d.running = true ↔ d.active ∈ d.outstanding

/-- A new dispatcher for a client. -/
def ofClient (client : χ) (now : τ) (latency : Latency τ) : Dispatcher τ χ :=
  { client, now, latency }

theorem sound_ofClient (client : χ) (now : τ) (latency : Latency τ) :
    (ofClient client now latency).Sound where
  active_nonneg := Int.le_refl 0
  active_le := Int.le_refl 0
  alarms_nodup := List.nodup_nil
  alarm_range := by simp [ofClient]
  alarm_ne := by simp [ofClient]
  no_debounce := by simp [ofClient]
  outstanding_nodup := List.nodup_nil
  outstanding_le := by simp [ofClient, outstanding]
  running_iff := by simp [ofClient, outstanding]

/-! ### How moves change what is outstanding -/

theorem filterMap_modify {α β : Type} {f : α → α} {g : α → Option β} (hg : ∀ a, g (f a) = g a)
    (l : List α) (i : Nat) : (l.modify i f).filterMap g = l.filterMap g := by
  induction l generalizing i with
  | nil => simp
  | cons a rest ih =>
    cases i with
    | zero => simp [List.filterMap_cons, hg]
    | succ i => simp [List.filterMap_cons, ih]

/-- What is put in a place, and has the same image as what was there, leaves the images. -/
theorem filterMap_set {α β : Type} {g : α → Option β} {l : List α} {i : Nat} {a b : α}
    (h : l[i]? = some a) (hg : g b = g a) : (l.set i b).filterMap g = l.filterMap g := by
  induction l generalizing i with
  | nil => rfl
  | cons c rest ih =>
    cases i with
    | zero =>
      obtain rfl : c = a := Option.some.inj h
      simp [List.filterMap_cons, hg]
    | succ i => simp [List.filterMap_cons, ih h]

/-- What is taken off a list and what is left are the list, up to the order. -/
theorem perm_cons_eraseIdx {α : Type} {l : List α} {i : Nat} {a : α} (h : l[i]? = some a) :
    l.Perm (a :: l.eraseIdx i) := by
  obtain ⟨hlt, rfl⟩ := List.getElem?_eq_some_iff.mp h
  exact (List.getElem_cons_eraseIdx_perm hlt).symm

theorem filterMap_eraseIdx_perm {α β : Type} (g : α → Option β) {l : List α} {i : Nat} {a : α}
    (h : l[i]? = some a) :
    (l.filterMap g).Perm ((g a).toList ++ (l.eraseIdx i).filterMap g) := by
  refine ((perm_cons_eraseIdx h).filterMap g).trans ?_
  rcases hg : g a with - | b <;> simp [hg]

/-- What is put in a place and what is left are the list, up to the order. -/
theorem filterMap_set_perm {α β : Type} (g : α → Option β) {l : List α} {i : Nat} {a : α} (b : α)
    (h : l[i]? = some a) :
    ((l.set i b).filterMap g).Perm ((g b).toList ++ (l.eraseIdx i).filterMap g) := by
  obtain ⟨hi, rfl⟩ := List.getElem?_eq_some_iff.mp h
  refine ((List.set_perm_cons_eraseIdx hi b).filterMap g).trans ?_
  rcases hg : g b with - | b <;> simp [hg]

/-- Releasing a token cancels the job it belongs to, and changes nothing else. -/
theorem getElem?_releasedJobs (d : Dispatcher τ χ) (i : Nat) :
    d.releasedJobs[i]? =
      d.jobs[i]?.map fun j => if d.held = some i then { j with cancelled := true } else j := by
  unfold releasedJobs
  rcases d.held with - | k
  · simp
  · rw [List.getElem?_modify]
    simp

theorem of_releasedJobs {d : Dispatcher τ χ} {i : Nat} {j : Job}
    (hj : d.releasedJobs[i]? = some j) :
    ∃ j₀, d.jobs[i]? = some j₀ ∧ j.task = j₀.task ∧
      (d.held = some i ∨ j₀.cancelled = true → j.cancelled = true) := by
  rw [getElem?_releasedJobs, Option.map_eq_some_iff] at hj
  obtain ⟨j₀, hj₀, rfl⟩ := hj
  refine ⟨j₀, hj₀, ?_⟩
  by_cases hheld : d.held = some i
  · simp [hheld]
  · simp [hheld]

theorem filterMap_releasedJobs {β : Type} {g : Job → Option β}
    (hg : ∀ j, g { j with cancelled := true } = g j) (d : Dispatcher τ χ) :
    d.releasedJobs.filterMap g = d.jobs.filterMap g := by
  unfold releasedJobs
  split
  · exact filterMap_modify (f := fun j : Job => { j with cancelled := true }) hg _ _
  · rfl

theorem open?_releasedJobs (d : Dispatcher τ χ) :
    d.releasedJobs.filterMap Job.open? = d.jobs.filterMap Job.open? :=
  filterMap_releasedJobs (fun _ => rfl) d

/-- What a job posts at its end is a completion. -/
theorem no_debounce_complete {h : Hooks χ} {d : Dispatcher τ χ}
    (hd : ∀ seq, .debounce seq ∉ d.posted) (i : Nat) :
    ∀ seq, .debounce seq ∉ (d.complete h i).posted := by
  intro seq
  rcases complete_cases h i d with
    ⟨-, he⟩ | ⟨job, s, text, -, -, -, he⟩ | ⟨job, path, f, -, -, -, -, he⟩
  · rw [he]
    exact hd seq
  · rw [he]
    simpa using hd seq
  · rw [he]
    simpa using hd seq

/-- A job that ends stays outstanding until its result is delivered. -/
theorem outstanding_complete (h : Hooks χ) (i : Nat) (d : Dispatcher τ χ) :
    (d.complete h i).outstanding.Perm d.outstanding := by
  rcases complete_cases h i d with
    ⟨-, he⟩ | ⟨job, seq, text, hj, ho, ht, he⟩ | ⟨job, path, f, hj, ho, ht, -, he⟩
  · rw [he]
  · have hset := filterMap_set_perm Job.open?
      { job with cancelled := (h.execute text job.cancelled d.client).1.2, ended := true } hj
    have herase := filterMap_eraseIdx_perm Job.open? hj
    rw [he]
    -- the number is counted once less among the jobs, and once more among the results
    refine List.perm_iff_count.mpr fun s => ?_
    have h₁ := hset.count_eq s
    have h₂ := herase.count_eq s
    simp [outstanding, Job.open?, ho, ht, Task.seq?, Callback.answered?, List.count_cons] at h₁ h₂ ⊢
    omega
  · have hset := filterMap_set_perm Job.open? { job with ended := true } hj
    have herase := filterMap_eraseIdx_perm Job.open? hj
    rw [he]
    refine List.perm_iff_count.mpr fun s => ?_
    have h₁ := hset.count_eq s
    have h₂ := herase.count_eq s
    simp [outstanding, Job.open?, ho, ht, Task.seq?, Callback.answered?, List.filterMap_cons]
      at h₁ h₂ ⊢
    omega

variable [Time τ] {h : Hooks χ} {d : Dispatcher τ χ}

/-- A dispatch brings in a number. -/
theorem outstanding_dispatched (seq : Int) :
    (d.dispatched h seq).outstanding.Perm (seq :: d.outstanding) := by
  have hopen : Job.open? (Job.mk (.run seq (h.filter d.client)) false false) = some seq := rfl
  simp only [outstanding, dispatched, List.filterMap_append, open?_releasedJobs,
    List.filterMap_cons, hopen, List.filterMap_nil, List.append_assoc, List.singleton_append]
  exact List.perm_middle

omit [Time τ] in
@[simp] theorem outstanding_requested (path : Text) :
    (d.requested h path).outstanding = d.outstanding := by
  unfold requested
  split
  · have hopen : Job.open? (Job.mk (.lookUp (orRoot path)) false false) = none := rfl
    simp [outstanding, hopen]
  · rfl

omit [Time τ] in
/-- A delivery takes the number of its run out. -/
theorem outstanding_eraseIdx {i : Nat} {c : Callback} (hc : d.posted[i]? = some c) :
    d.outstanding.Perm
      (c.answered?.toList ++ { d with posted := d.posted.eraseIdx i }.outstanding) := by
  have herase := filterMap_eraseIdx_perm Callback.answered? hc
  refine List.perm_iff_count.mpr fun s => ?_
  have hs := herase.count_eq s
  simp only [outstanding, List.count_append] at hs ⊢
  omega

omit [Time τ] in
theorem no_debounce_eraseIdx (hd : ∀ seq, .debounce seq ∉ d.posted) (i : Nat) :
    ∀ seq, .debounce seq ∉ d.posted.eraseIdx i :=
  fun seq hs => hd seq (List.mem_of_mem_eraseIdx hs)

/-! ### How moves leave the numbers -/

/-- The two states have the same newest number, active number and alarms. -/
structure SameNumbers (d d' : Dispatcher τ χ) : Prop where
  minted : d'.minted = d.minted
  active : d'.active = d.active
  alarms : d'.alarms = d.alarms

omit [Time τ] in
theorem sameNumbers_complete (h : Hooks χ) (d : Dispatcher τ χ) (i : Nat) :
    SameNumbers d (d.complete h i) := by
  rcases complete_cases h i d with
    ⟨-, he⟩ | ⟨job, seq, text, -, -, -, he⟩ | ⟨job, path, f, -, -, -, -, he⟩
  all_goals
    rw [he]
    exact ⟨rfl, rfl, rfl⟩

omit [Time τ] in
theorem sameNumbers_requested (h : Hooks χ) (d : Dispatcher τ χ) (path : Text) :
    SameNumbers d (d.requested h path) := by
  unfold requested
  split <;> exact ⟨rfl, rfl, rfl⟩

/-- A completion that is delivered neither mints nor dispatches. -/
theorem sameNumbers_delivered (hd : ∀ seq, .debounce seq ∉ d.posted) (i : Nat) :
    SameNumbers d (d.delivered h i) := by
  rcases delivered_cases h i d with
    ⟨-, he⟩ | ⟨seq, hi, -⟩ | ⟨seq, o, -, he⟩ | ⟨path, answer, -, he⟩
  · rw [he]
    exact ⟨rfl, rfl, rfl⟩
  · exact absurd (List.mem_of_getElem? hi) (hd seq)
  · rw [he]
    exact ⟨rfl, rfl, rfl⟩
  · rw [he]
    exact ⟨rfl, rfl, rfl⟩

/-! ### Moves keep a dispatcher sound -/

namespace Sound

omit [Time τ] in
theorem queue (hd : d.Sound) : d.queue.Sound where
  active_nonneg := hd.active_nonneg
  active_le := Int.le_trans hd.active_le (Int.le_add_one (Int.le_refl _))
  alarms_nodup := by
    refine List.nodup_append.mpr ⟨hd.alarms_nodup, by simp, ?_⟩
    rintro a ha b hb rfl
    have hle : a ≤ d.minted := (hd.alarm_range a ha).2
    have heq : a = d.minted + 1 := List.mem_singleton.mp hb
    omega
  alarm_range := by
    intro seq hseq
    have := hd.active_nonneg
    have := hd.active_le
    rcases List.mem_append.mp hseq with hseq | hseq
    · have := hd.alarm_range seq hseq
      show 0 < seq ∧ seq ≤ d.minted + 1
      omega
    · rw [List.mem_singleton.mp hseq]
      show 0 < d.minted + 1 ∧ d.minted + 1 ≤ d.minted + 1
      omega
  alarm_ne := by
    intro hseq
    have := hd.active_le
    rcases List.mem_append.mp hseq with hseq | hseq
    · exact hd.alarm_ne hseq
    · have : d.active = d.minted + 1 := List.mem_singleton.mp hseq
      omega
  no_debounce := hd.no_debounce
  outstanding_nodup := hd.outstanding_nodup
  outstanding_le := hd.outstanding_le
  running_iff := hd.running_iff

omit [Time τ] in
theorem mint (hd : d.Sound) : d.mint.Sound :=
  { hd with
    active_le := Int.le_trans hd.active_le (Int.le_add_one (Int.le_refl _))
    alarm_range := fun seq hseq =>
      ⟨(hd.alarm_range seq hseq).1,
        Int.le_trans (hd.alarm_range seq hseq).2 (Int.le_add_one (Int.le_refl _))⟩ }

/-- A number that is newer than the active one, and has no alarm, may be dispatched. -/
theorem dispatched (hd : d.Sound) {seq : Int} (hnew : d.active < seq) (hle : seq ≤ d.minted)
    (halarm : seq ∉ d.alarms) : (d.dispatched h seq).Sound where
  active_nonneg := Int.le_of_lt (Int.lt_of_le_of_lt hd.active_nonneg hnew)
  active_le := hle
  alarms_nodup := hd.alarms_nodup
  alarm_range := hd.alarm_range
  alarm_ne := halarm
  no_debounce := hd.no_debounce
  outstanding_nodup := by
    have hfresh : seq ∉ d.outstanding := fun hmem =>
      absurd (hd.outstanding_le seq hmem) (by omega)
    exact (outstanding_dispatched seq).nodup_iff.mpr
      (List.nodup_cons.mpr ⟨hfresh, hd.outstanding_nodup⟩)
  outstanding_le := by
    intro s hs
    rcases List.mem_cons.mp ((outstanding_dispatched seq).mem_iff.mp hs) with rfl | hs
    · exact Int.le_refl s
    · exact Int.le_of_lt (Int.lt_of_le_of_lt (hd.outstanding_le s hs) hnew)
  running_iff := by
    refine iff_of_true rfl ((outstanding_dispatched seq).mem_iff.mpr List.mem_cons_self)

theorem executeNow (hd : d.Sound) : (d.mint.dispatched h d.mint.minted).Sound := by
  refine hd.mint.dispatched ?_ (Int.le_refl _) ?_
  · exact Int.lt_add_one_of_le hd.active_le
  · intro hmem
    have hle : d.minted + 1 ≤ d.minted := (hd.alarm_range _ hmem).2
    omega

omit [Time τ] in
/-- An alarm of the newest number means that it has not been dispatched. -/
theorem active_lt (hd : d.Sound) (halarm : d.minted ∈ d.alarms) : d.active < d.minted := by
  have hne : d.active ≠ d.minted := fun he => hd.alarm_ne (he ▸ halarm)
  have hle := hd.active_le
  omega

omit [Time τ] in
theorem eraseAlarm (hd : d.Sound) (i : Nat) : { d with alarms := d.alarms.eraseIdx i }.Sound :=
  { hd with
    alarms_nodup := hd.alarms_nodup.sublist (List.eraseIdx_sublist ..)
    alarm_range := fun s hs => hd.alarm_range s (List.mem_of_mem_eraseIdx hs)
    alarm_ne := fun hs => hd.alarm_ne (List.mem_of_mem_eraseIdx hs) }

theorem fired (hd : d.Sound) (i : Nat) : (d.fired h i).Sound := by
  rcases fired_cases h i d with ⟨-, he⟩ | ⟨hi, he⟩ | ⟨seq, -, -, he⟩
  · rw [he]
    exact hd
  · rw [he]
    refine (hd.eraseAlarm i).dispatched (hd.active_lt (List.mem_of_getElem? hi)) (Int.le_refl _) ?_
    -- the alarm that has gone off was the only one of its number
    have hperm := perm_cons_eraseIdx hi
    exact (List.nodup_cons.mp (hperm.nodup_iff.mp hd.alarms_nodup)).1
  · rw [he]
    exact { hd.eraseAlarm i with }

omit [Time τ] in
theorem complete (hd : d.Sound) (i : Nat) : (d.complete h i).Sound := by
  have hout := outstanding_complete h i d
  have hposted := no_debounce_complete (h := h) hd.no_debounce i
  have hrest (client : χ) (jobs : List Job) (posted : List Callback)
      (he : d.complete h i = { d with client, jobs, posted }) : (d.complete h i).Sound := by
    rw [he] at hout hposted ⊢
    exact
      { hd with
        no_debounce := hposted
        outstanding_nodup := hout.nodup_iff.mpr hd.outstanding_nodup
        outstanding_le := fun seq hseq => hd.outstanding_le seq (hout.mem_iff.mp hseq)
        running_iff := hd.running_iff.trans hout.mem_iff.symm }
  rcases complete_cases h i d with
    ⟨-, he⟩ | ⟨j, seq, text, -, -, -, he⟩ | ⟨j, path, f, -, -, -, -, he⟩
  · rw [he]
    exact hd
  · exact hrest _ _ _ he
  · exact hrest _ _ _ he

omit [Time τ] in
theorem requested (hd : d.Sound) (path : Text) : (d.requested h path).Sound := by
  have hout := outstanding_requested (h := h) (d := d) path
  unfold Dispatcher.requested at hout ⊢
  split
  · next hk =>
    rw [if_pos hk] at hout
    exact
      { hd with
        outstanding_nodup := hout ▸ hd.outstanding_nodup
        outstanding_le := hout ▸ hd.outstanding_le
        running_iff := hout ▸ hd.running_iff }
  · exact hd

theorem delivered (hd : d.Sound) (i : Nat) : (d.delivered h i).Sound := by
  have hposted := no_debounce_eraseIdx hd.no_debounce i
  rcases delivered_cases h i d with
    ⟨-, he⟩ | ⟨seq, hi, -⟩ | ⟨seq, o, hi, he⟩ | ⟨path, answer, hi, he⟩
  · rw [he]
    exact hd
  · exact absurd (List.mem_of_getElem? hi) (hd.no_debounce seq)
  · have hout := outstanding_eraseIdx hi
    have hnodup := List.nodup_cons.mp (hout.nodup_iff.mp hd.outstanding_nodup)
    rw [he]
    refine
      { hd with
        no_debounce := hposted
        outstanding_nodup := hnodup.2
        outstanding_le := fun s hs =>
          hd.outstanding_le s (hout.mem_iff.mpr (List.mem_cons_of_mem _ hs))
        running_iff := ?_ }
    show (if seq == d.active then false else d.running) = true ↔
      d.active ∈ { d with posted := d.posted.eraseIdx i }.outstanding
    by_cases hseq : seq = d.active
    · -- the number occurred once, and is gone
      subst hseq
      simpa using hnodup.1
    · have hmem := hout.mem_iff (a := d.active)
      simp only [Callback.answered?, Option.toList, List.singleton_append, List.mem_cons,
        Ne.symm hseq, false_or] at hmem
      simpa [hseq] using hd.running_iff.trans hmem
  · have hout := outstanding_eraseIdx hi
    rw [he]
    exact
      { hd with
        no_debounce := hposted
        outstanding_nodup := hout.nodup_iff.mp hd.outstanding_nodup
        outstanding_le := fun s hs => hd.outstanding_le s (hout.mem_iff.mpr hs)
        running_iff := hd.running_iff.trans hout.mem_iff }

/-- **Soundness is kept by every move.** -/
theorem next (hd : d.Sound) (m : Move τ χ) : (m.next h d).Sound := by
  cases m with
  | queue => exact hd.queue
  | executeNow => exact hd.executeNow
  | edit f => exact { hd with }
  | requestKeys path => exact hd.requested path
  | fire i => exact hd.fired i
  | complete i => exact hd.complete i
  | deliver i => exact hd.delivered i
  | tick now => exact { hd with }

end Sound

end Dispatcher

end LiveQuery
