/-
LiveQuery/Proofs/Dispatch/Commits.lean

Monotonic display: whatever the order of inputs, alarms, ends of jobs and deliveries, the outcomes
that are committed belong to ever newer sequence numbers.

Design.  The calls of a run are listed: each reading of the filter for a dispatch, each execution
with what it has returned, each commit, and whatever else changes the client.  That the list is
complete is seen from the client: replaying the calls gives its state (`replay`).  The invariant
`Recorded` ties the list to the state of the dispatcher: jobs come from readings, posted results
from executions, and a number that has been committed is at most the active one, whose result is
no longer awaited.  What is said of a commit speaks of the calls before it only
(`Call.InOrder`), so that it is kept by the calls that follow.

Main result: `commits_in_order`.
-/
import Mathlib.Data.List.Induction
import LiveQuery.Proofs.Dispatch.Sound

namespace LiveQuery

/-! ### Lists and what precedes their elements -/

section Throughout

variable {α : Type} {P : List α → α → Prop} {t : List α}

/-- Each element is as asked, given those before it. -/
def Throughout (P : List α → α → Prop) (t : List α) : Prop :=
  ∀ before a after, t = before ++ a :: after → P before a

theorem throughout_nil : Throughout P [] := by
  intro before a after h
  simp at h

theorem Throughout.snoc (h : Throughout P t) {b : α} (hb : P t b) : Throughout P (t ++ [b]) := by
  intro before a after heq
  rcases List.eq_nil_or_concat after with rfl | ⟨rest, c, rfl⟩
  · -- the last element
    obtain ⟨rfl, hab⟩ := List.append_inj' heq rfl
    rw [← List.singleton_inj.mp hab]
    exact hb
  · rw [List.concat_eq_append, ← List.cons_append, ← List.append_assoc] at heq
    exact h before a rest (List.append_inj' heq rfl).1

theorem Throughout.of_append {t' : List α} (h : Throughout P (t ++ t')) : Throughout P t := by
  rintro before a after rfl
  exact h before a (after ++ t') (by simp)

theorem Throughout.last {b : α} (h : Throughout P (t ++ [b])) : P t b := h t b [] rfl

end Throughout

/-! ### Calls -/

/-- What a dispatcher asks of its client, and what the client does on its own. -/
inductive Call (χ : Type)
  /-- The client changes its state. -/
  | edit (f : χ → χ)
  /-- The filter is read, for the dispatch of a number. -/
  | read (seq : Int) (text : Text)
  /-- The run of a number is executed, and returns or raises. -/
  | execute (seq : Int) (text : Text) (cancelled : Bool) (r : Except Fault Outcome)
  /-- The outcome of a number is committed. -/
  | commit (seq : Int) (o : Outcome)
  /-- The keys at a path are looked up. -/
  | lookUp (path : Text)
  /-- The keys at a path are taken. -/
  | takeKeys (path : Text) (keys : Option (List Text))

namespace Call

variable {χ : Type}

/-- The client after a call. -/
def apply (h : Hooks χ) : Call χ → χ → χ
  | edit f, c => f c
  | read _ _, c => c
  | execute _ text cancelled _, c => (h.execute text cancelled c).2
  | commit _ o, c => h.commit o c
  | lookUp path, c =>
    match h.keysAt with
    | some keysAt => (keysAt path c).2
    | none => c
  | takeKeys path keys, c => h.takeKeys path keys c

/-- The client after some calls. -/
def replay (h : Hooks χ) (t : List (Call χ)) (c : χ) : χ := t.foldl (fun c call => call.apply h c) c

@[simp] theorem replay_snoc (h : Hooks χ) (t : List (Call χ)) (call : Call χ) (c : χ) :
    replay h (t ++ [call]) c = call.apply h (replay h t c) := by
  simp [replay]

/-- What is said of a call, given those before it.  A filter that is read is the client's, and
what an execution returns is what the client answers.  An outcome is committed for a newer number
than all before, when no newer one has been dispatched; it is what the only execution for the
number has returned, for the text that was read at its dispatch, and it is not a cancellation. -/
def InOrder (h : Hooks χ) (start : χ) (before : List (Call χ)) : Call χ → Prop
  | read _ text => text = h.filter (replay h before start)
  | execute _ text cancelled r => r = (h.execute text cancelled (replay h before start)).1.1
  | commit seq o =>
    (∀ s o', commit s o' ∈ before → s < seq) ∧
    (∀ s text, read s text ∈ before → s ≤ seq) ∧
    o.isCancelled = false ∧
    ∃ text cancelled r,
      read seq text ∈ before ∧ (∀ text', read seq text' ∈ before → text' = text) ∧
      execute seq text cancelled r ∈ before ∧
      (∀ text' c' r', execute seq text' c' r' ∈ before → r' = r) ∧
      o = .ofRun r
  | _ => True

/-- The number for which a call commits. -/
def committed? : Call χ → Option Int
  | commit seq _ => some seq
  | _ => none

theorem pairwise_committed {h : Hooks χ} {start : χ} {t : List (Call χ)}
    (ht : Throughout (InOrder h start) t) : (t.filterMap committed?).Pairwise (· < ·) := by
  induction t using List.reverseRecOn with
  | nil => exact List.Pairwise.nil
  | append_singleton t call ih =>
    rw [List.filterMap_append]
    cases call with
    | commit seq o =>
      refine List.pairwise_append.mpr ⟨ih ht.of_append, List.pairwise_singleton .., ?_⟩
      intro s hs s' hs'
      obtain ⟨call, hcall, hc⟩ := List.mem_filterMap.mp hs
      obtain rfl : s' = seq := List.mem_singleton.mp hs'
      cases call with
      | commit s o' =>
        obtain rfl := Option.some.inj hc
        exact ht.last.1 _ o' hcall
      | _ => cases hc
    | _ => simpa [committed?, List.filterMap_cons] using ih ht.of_append

end Call

namespace Dispatcher

variable {τ χ : Type} [Time τ]

/-- The calls at the end of a delay. -/
def elapsedCalls (h : Hooks χ) (seq : Int) (d : Dispatcher τ χ) : List (Call χ) :=
  if seq = d.minted then [.read seq (h.filter d.client)] else []

/-- The calls of a callback. -/
def reactedCalls (h : Hooks χ) (d : Dispatcher τ χ) : Callback → List (Call χ)
  | .debounce seq => d.elapsedCalls h seq
  | .result seq o => if d.commits seq o then [.commit seq o] else []
  | .keys path answer => if d.wants h path then [.takeKeys path answer.toOption] else []

/-- The calls of a job that ends. -/
def completedCalls (h : Hooks χ) (d : Dispatcher τ χ) (job : Job) : List (Call χ) :=
  if job.ended then []
  else
    match job.task with
    | .run seq text =>
      [.execute seq text job.cancelled (h.execute text job.cancelled d.client).1.1]
    | .lookUp path => if h.keysAt.isSome then [.lookUp path] else []

/-- The calls of a move. -/
def Move.calls (h : Hooks χ) (d : Dispatcher τ χ) : Move τ χ → List (Call χ)
  | .queue => []
  | .executeNow => [.read (d.minted + 1) (h.filter d.client)]
  | .edit f => [.edit f]
  | .requestKeys _ => []
  | .fire i => (d.alarms[i]?.map (d.elapsedCalls h)).getD []
  | .complete i => (d.jobs[i]?.map (d.completedCalls h)).getD []
  | .deliver i => (d.posted[i]?.map (d.reactedCalls h)).getD []
  | .tick _ => []

/-- The calls of some moves. -/
def trace (h : Hooks χ) : List (Move τ χ) → Dispatcher τ χ → List (Call χ)
  | [], _ => []
  | m :: rest, d => m.calls h d ++ trace h rest (m.act h d).2

/-! ### The invariant -/

/-- The calls so far and the state of the dispatcher fit together. -/
structure Recorded (h : Hooks χ) (start : χ) (t : List (Call χ)) (d : Dispatcher τ χ) : Prop where
  sound : d.Sound
  client : d.client = Call.replay h t start
  inOrder : Throughout (Call.InOrder h start) t
  read_le : ∀ s text, .read s text ∈ t → s ≤ d.active
  read_inj : ∀ s text text', .read s text ∈ t → .read s text' ∈ t → text' = text
  executed : ∀ s text c r, .execute s text c r ∈ t → s ≤ d.active ∧ s ∉ d.jobs.filterMap Job.open?
  job : ∀ j ∈ d.jobs, ∀ s text, j.task = .run s text → .read s text ∈ t
  result : ∀ s o, .result s o ∈ d.posted → ∃ text c r, .read s text ∈ t ∧
    .execute s text c r ∈ t ∧ (∀ text' c' r', .execute s text' c' r' ∈ t → r' = r) ∧ o = .ofRun r
  commit_le : ∀ s o, .commit s o ∈ t → s ≤ d.active ∧ (s = d.active → d.running = false)

variable {h : Hooks χ} {start : χ} {t : List (Call χ)} {d : Dispatcher τ χ}

omit [Time τ] in
/-- Releasing a token leaves the tasks as they are. -/
theorem task_of_mem_releasedJobs {j : Job} (hj : j ∈ d.releasedJobs) :
    ∃ j' ∈ d.jobs, j'.task = j.task := by
  obtain ⟨k, hk⟩ := List.getElem?_of_mem hj
  obtain ⟨j₀, hj₀, htask, -⟩ := of_releasedJobs hk
  exact ⟨j₀, List.mem_of_getElem? hj₀, htask.symm⟩

namespace Recorded

omit [Time τ] in
theorem ofClient (h : Hooks χ) (start : χ) (now : τ) (latency : Latency τ) :
    Recorded h start [] (ofClient start now latency) where
  sound := sound_ofClient start now latency
  client := rfl
  inOrder := throughout_nil
  read_le := by simp
  read_inj := by simp
  executed := by simp
  job := by simp [Dispatcher.ofClient]
  result := by simp [Dispatcher.ofClient]
  commit_le := by simp

/-- The filter is read at a dispatch. -/
theorem dispatched (hr : Recorded h start t d) {seq : Int} (hnew : d.active < seq)
    (hs : (d.dispatched h seq).Sound) :
    Recorded h start (t ++ [.read seq (h.filter d.client)]) (d.dispatched h seq) where
  sound := hs
  client := by
    rw [Call.replay_snoc]
    exact hr.client
  inOrder := hr.inOrder.snoc (congrArg h.filter hr.client)
  read_le := by
    intro s text hmem
    rcases List.mem_append.mp hmem with hmem | hmem
    · exact Int.le_of_lt (Int.lt_of_le_of_lt (hr.read_le s text hmem) hnew)
    · obtain ⟨rfl, rfl⟩ := Call.read.inj (List.mem_singleton.mp hmem)
      exact Int.le_refl _
  read_inj := by
    -- a number that was read before is too old to be read again
    have hold : ∀ text, .read seq text ∉ t := fun text hmem =>
      absurd (hr.read_le seq text hmem) (by omega)
    intro s text text' hmem hmem'
    simp only [List.mem_append, List.mem_singleton, Call.read.injEq] at hmem hmem'
    rcases hmem with hmem | ⟨rfl, rfl⟩
    · rcases hmem' with hmem' | ⟨rfl, rfl⟩
      · exact hr.read_inj s text text' hmem hmem'
      · exact absurd hmem (hold text)
    · rcases hmem' with hmem' | ⟨-, rfl⟩
      · exact absurd hmem' (hold text')
      · rfl
  executed := by
    intro s text c r hmem
    obtain ⟨hle, hopen⟩ := hr.executed s text c r (by simpa using hmem)
    have hlt : s < seq := Int.lt_of_le_of_lt hle hnew
    refine ⟨Int.le_of_lt hlt, ?_⟩
    show s ∉ (d.releasedJobs ++ [_]).filterMap Job.open?
    rw [List.filterMap_append, open?_releasedJobs]
    simp only [List.mem_append, not_or]
    refine ⟨hopen, ?_⟩
    simp [Job.open?, Task.seq?]
    omega
  job := by
    intro j hj s text htask
    rcases List.mem_append.mp hj with hj | hj
    · obtain ⟨j', hj', ht⟩ := task_of_mem_releasedJobs hj
      exact List.mem_append_left _ (hr.job j' hj' s text (ht.trans htask))
    · rw [List.mem_singleton.mp hj] at htask
      obtain ⟨rfl, rfl⟩ := Task.run.inj htask
      simp
  result := by
    intro s o ho
    obtain ⟨text, c, r, hread, hexec, huniq, rfl⟩ := hr.result s o ho
    exact ⟨text, c, r, by simp [hread], by simp [hexec], by simpa using huniq, rfl⟩
  commit_le := by
    intro s o hmem
    have hle := (hr.commit_le s o (by simpa using hmem)).1
    refine ⟨Int.le_of_lt (Int.lt_of_le_of_lt hle hnew), ?_⟩
    intro hseq
    change s = seq at hseq
    omega

omit [Time τ] in
/-- Without a call, no run is begun, ended or committed. -/
theorem uncalled (hr : Recorded h start t d) {d' : Dispatcher τ χ} (hs : d'.Sound)
    (hclient : d'.client = d.client) (hactive : d'.active = d.active)
    (hrunning : d.running = false → d'.running = false)
    (hopen : ∀ s ∈ d'.jobs.filterMap Job.open?, s ∈ d.jobs.filterMap Job.open?)
    (hjobs : ∀ j ∈ d'.jobs, ∀ s text, j.task = .run s text → ∃ j' ∈ d.jobs, j'.task = .run s text)
    (hposted : ∀ s o, .result s o ∈ d'.posted → .result s o ∈ d.posted) :
    Recorded h start t d' where
  sound := hs
  client := hclient.trans hr.client
  inOrder := hr.inOrder
  read_le := hactive ▸ hr.read_le
  read_inj := hr.read_inj
  executed := by
    intro s text c r hmem
    obtain ⟨hle, hclosed⟩ := hr.executed s text c r hmem
    exact ⟨hactive ▸ hle, fun hs => hclosed (hopen s hs)⟩
  job := by
    intro j hj s text htask
    obtain ⟨j', hj', ht⟩ := hjobs j hj s text htask
    exact hr.job j' hj' s text ht
  result := fun s o ho => hr.result s o (hposted s o ho)
  commit_le := by
    intro s o hmem
    obtain ⟨hle, hdone⟩ := hr.commit_le s o hmem
    rw [hactive]
    exact ⟨hle, fun hseq => hrunning (hdone hseq)⟩

omit [Time τ] in
/-- Without a call the client and the jobs are as they were, and no result is posted. -/
theorem quiet (hr : Recorded h start t d) {d' : Dispatcher τ χ} (hs : d'.Sound)
    (hclient : d'.client = d.client) (hactive : d'.active = d.active)
    (hrunning : d.running = false → d'.running = false) (hjobs : d'.jobs = d.jobs)
    (hposted : ∀ s o, .result s o ∈ d'.posted → .result s o ∈ d.posted) :
    Recorded h start t d' := by
  refine hr.uncalled hs hclient hactive hrunning ?_ ?_ hposted
  · rw [hjobs]
    exact fun _ => id
  · rw [hjobs]
    exact fun j hj _ _ htask => ⟨j, hj, htask⟩

omit [Time τ] in
/-- A call that is neither of a run nor a commit changes the client. -/
theorem called (hr : Recorded h start t d) (call : Call χ)
    (hread : ∀ s text, call ≠ .read s text) (hexec : ∀ s text c r, call ≠ .execute s text c r)
    (hcommit : ∀ s o, call ≠ .commit s o) :
    Recorded h start (t ++ [call]) { d with client := call.apply h d.client } := by
  -- the calls that the record speaks of are those of before
  have old_read (s text) : .read s text ∈ t ++ [call] ↔ .read s text ∈ t := by
    simp [(hread s text).symm]
  have old_execute (s text c r) : .execute s text c r ∈ t ++ [call] ↔ .execute s text c r ∈ t := by
    simp [(hexec s text c r).symm]
  have old_commit (s o) : .commit s o ∈ t ++ [call] ↔ .commit s o ∈ t := by
    simp [(hcommit s o).symm]
  refine
    { sound := { hr.sound with }
      client := ?_, inOrder := ?_, read_le := ?_, read_inj := ?_, executed := ?_, job := ?_
      result := ?_, commit_le := ?_ }
  · rw [Call.replay_snoc, ← hr.client]
  · refine hr.inOrder.snoc ?_
    cases call with
    | read s text => exact absurd rfl (hread s text)
    | execute s text c r => exact absurd rfl (hexec s text c r)
    | commit s o => exact absurd rfl (hcommit s o)
    | _ => trivial
  · simpa only [old_read] using hr.read_le
  · simpa only [old_read] using hr.read_inj
  · simpa only [old_execute] using hr.executed
  · simpa only [old_read] using hr.job
  · simpa only [old_read, old_execute] using hr.result
  · simpa only [old_commit] using hr.commit_le

omit [Time τ] in
/-- A run that ends has not been executed before, and is not open afterwards. -/
theorem runEnded (hr : Recorded h start t d) {i : Nat} {job : Job} {seq : Int} {text : Text}
    (hj : d.jobs[i]? = some job) (hopen : job.ended = false) (htask : job.task = .run seq text)
    {cancelled : Bool} {d' : Dispatcher τ χ} (hs : d'.Sound)
    (hclient : d'.client = (h.execute text job.cancelled d.client).2)
    (hactive : d'.active = d.active) (hrunning : d'.running = d.running)
    (hjobs : d'.jobs = d.jobs.set i { job with cancelled, ended := true })
    (hposted : d'.posted = d.posted ++
      [.result seq (.ofRun (h.execute text job.cancelled d.client).1.1)]) :
    Recorded h start
      (t ++ [.execute seq text job.cancelled (h.execute text job.cancelled d.client).1.1]) d' := by
  have hseq : job.open? = some seq := by simp [Job.open?, hopen, htask, Task.seq?]
  have hjob : job ∈ d.jobs := List.mem_of_getElem? hj
  have hmem : seq ∈ d.jobs.filterMap Job.open? := List.mem_filterMap.mpr ⟨job, hjob, hseq⟩
  -- an open job has not been executed
  have hnew (text' c' r') : .execute seq text' c' r' ∉ t := fun hexec =>
    (hr.executed seq text' c' r' hexec).2 hmem
  have hbefore := filterMap_eraseIdx_perm Job.open? hj
  have hafter := filterMap_set_perm Job.open? { job with cancelled, ended := true } hj
  rw [hseq] at hbefore
  -- the number of the run occurs once among the open ones, and goes
  have hnodup := (List.nodup_append.mp hr.sound.outstanding_nodup).1
  have hgone : seq ∉ (d.jobs.eraseIdx i).filterMap Job.open? :=
    (List.nodup_cons.mp (hbefore.nodup_iff.mp hnodup)).1
  have hrest (s : Int) (hs : s ∈ (d.jobs.set i { job with cancelled, ended := true }).filterMap
      Job.open?) : s ∈ (d.jobs.eraseIdx i).filterMap Job.open? := by
    simpa [Job.open?] using hafter.mem_iff.mp hs
  refine
    { sound := hs
      client := ?_, inOrder := ?_, read_le := ?_, read_inj := ?_, executed := ?_, job := ?_
      result := ?_, commit_le := ?_ }
  · rw [Call.replay_snoc, ← hr.client]
    exact hclient
  · refine hr.inOrder.snoc ?_
    show _ = (h.execute text job.cancelled (Call.replay h t start)).1.1
    rw [← hr.client]
  · simpa [hactive] using hr.read_le
  · simpa using hr.read_inj
  · intro s text' c' r' hexec
    rw [hactive, hjobs]
    rcases List.mem_append.mp hexec with hexec | hexec
    · obtain ⟨hle, hclosed⟩ := hr.executed s text' c' r' hexec
      refine ⟨hle, fun hs => hclosed ?_⟩
      exact hbefore.mem_iff.mpr (List.mem_cons_of_mem _ (hrest s hs))
    · obtain ⟨rfl, -⟩ := Call.execute.inj (List.mem_singleton.mp hexec)
      refine ⟨hr.sound.outstanding_le s (List.mem_append_left _ hmem), fun hs => hgone (hrest s hs)⟩
  · intro j hmemj s text' ht
    rcases List.mem_or_eq_of_mem_set (hjobs ▸ hmemj) with hold | rfl
    · exact List.mem_append_left _ (hr.job j hold s text' ht)
    · exact List.mem_append_left _ (hr.job job hjob s text' ht)
  · intro s o ho
    rcases List.mem_append.mp (hposted ▸ ho) with ho | ho
    · obtain ⟨text', c', r', hread, hexec, huniq, rfl⟩ := hr.result s o ho
      have hne : s ≠ seq := fun he => hnew text' c' r' (he ▸ hexec)
      exact ⟨text', c', r', by simp [hread], by simp [hexec], by simpa [hne] using huniq, rfl⟩
    · obtain ⟨rfl, rfl⟩ := Callback.result.inj (List.mem_singleton.mp ho)
      refine ⟨text, job.cancelled, _, ?_, by simp, ?_, rfl⟩
      · exact List.mem_append_left _ (hr.job job hjob s text htask)
      · intro text' c' r' hexec
        rcases List.mem_append.mp hexec with hexec | hexec
        · exact absurd hexec (hnew text' c' r')
        · exact (Call.execute.inj (List.mem_singleton.mp hexec)).2.2.2
  · simpa [hactive, hrunning] using hr.commit_le

omit [Time τ] in
/-- A result that is committed is that of the active number, which has not been committed yet. -/
theorem committed (hr : Recorded h start t d) {o : Outcome} (ho : .result d.active o ∈ d.posted)
    (hc : o.isCancelled = false) {d' : Dispatcher τ χ} (hs : d'.Sound)
    (hclient : d'.client = h.commit o d.client) (hactive : d'.active = d.active)
    (hrunning : d'.running = false) (hjobs : d'.jobs = d.jobs)
    (hposted : ∀ s o, .result s o ∈ d'.posted → .result s o ∈ d.posted) :
    Recorded h start (t ++ [.commit d.active o]) d' := by
  -- the result is outstanding, so the active number is awaited and has not been committed
  have hout : d.active ∈ d.outstanding :=
    List.mem_append_right _ (List.mem_filterMap.mpr ⟨_, ho, rfl⟩)
  have hawaited : d.running = true := hr.sound.running_iff.mpr hout
  have hlt (s o') (hmem : .commit s o' ∈ t) : s < d.active := by
    obtain ⟨hle, hdone⟩ := hr.commit_le s o' hmem
    have hne : s ≠ d.active := fun he => by simp [hdone he] at hawaited
    omega
  refine
    { sound := hs
      client := ?_, inOrder := ?_, read_le := ?_, read_inj := ?_, executed := ?_, job := ?_
      result := ?_, commit_le := ?_ }
  · rw [Call.replay_snoc, ← hr.client]
    exact hclient
  · obtain ⟨text, c, r, hread, hexec, huniq, ho⟩ := hr.result _ o ho
    refine hr.inOrder.snoc ⟨hlt, hr.read_le, hc, text, c, r, hread, ?_, hexec, huniq, ho⟩
    exact fun text' hmem => hr.read_inj _ text text' hread hmem
  · simpa [hactive] using hr.read_le
  · simpa using hr.read_inj
  · simpa [hactive, hjobs] using hr.executed
  · simpa [hjobs] using hr.job
  · intro s o' hmem
    obtain ⟨text, c, r, hread, hexec, huniq, rfl⟩ := hr.result s o' (hposted s o' hmem)
    exact ⟨text, c, r, by simp [hread], by simp [hexec], by simpa using huniq, rfl⟩
  · intro s o' hmem
    refine ⟨?_, fun _ => hrunning⟩
    rw [hactive]
    rcases List.mem_append.mp hmem with hmem | hmem
    · exact Int.le_of_lt (hlt s o' hmem)
    · exact Int.le_of_eq (Call.commit.inj (List.mem_singleton.mp hmem)).1

/-! ### Moves keep the record -/

omit [Time τ] in
theorem queue (hr : Recorded h start t d) : Recorded h start t d.queue :=
  hr.quiet hr.sound.queue rfl rfl id rfl fun _ _ => id

theorem executeNow (hr : Recorded h start t d) :
    Recorded h start (t ++ [.read (d.minted + 1) (h.filter d.client)])
      (d.mint.dispatched h d.mint.minted) := by
  have hm : Recorded h start t d.mint :=
    hr.quiet hr.sound.mint rfl rfl id rfl fun _ _ => id
  exact hm.dispatched (Int.lt_add_one_of_le hr.sound.active_le) hr.sound.executeNow

omit [Time τ] in
theorem edit (hr : Recorded h start t d) (f : χ → χ) :
    Recorded h start (t ++ [.edit f]) (d.onClient f) :=
  hr.called (.edit f) (by simp) (by simp) (by simp)

omit [Time τ] in
theorem requested (hr : Recorded h start t d) (path : Text) :
    Recorded h start t (d.requested h path) := by
  have hs : (d.requested h path).Sound := hr.sound.requested path
  unfold Dispatcher.requested at hs ⊢
  split
  · next hk =>
    rw [if_pos hk] at hs
    refine hr.uncalled hs rfl rfl id ?_ ?_ fun _ _ => id
    · simp [Job.open?, Task.seq?]
    · intro j hj s text ht
      rcases List.mem_append.mp hj with hj | hj
      · exact ⟨j, hj, ht⟩
      · rw [List.mem_singleton.mp hj] at ht
        cases ht
  · exact hr

theorem fired (hr : Recorded h start t d) (i : Nat) :
    Recorded h start (t ++ (d.alarms[i]?.map (d.elapsedCalls h)).getD []) (d.fired h i) := by
  have hs : (d.fired h i).Sound := hr.sound.fired i
  have hquiet : Recorded h start t { d with alarms := d.alarms.eraseIdx i } :=
    hr.quiet (hr.sound.eraseAlarm i) rfl rfl id rfl fun _ _ => id
  rcases fired_cases h i d with ⟨hi, he⟩ | ⟨hi, he⟩ | ⟨seq, hi, hseq, he⟩
  · rw [hi, he]
    simpa using hr
  · rw [he] at hs
    rw [hi, he, Option.map_some, Option.getD_some, elapsedCalls, if_pos rfl]
    exact hquiet.dispatched (hr.sound.active_lt (List.mem_of_getElem? hi)) hs
  · rw [he] at hs
    rw [hi, he, Option.map_some, Option.getD_some, elapsedCalls, if_neg hseq, List.append_nil]
    exact hquiet.quiet hs rfl rfl id rfl fun _ _ => id

omit [Time τ] in
theorem complete (hr : Recorded h start t d) (i : Nat) :
    Recorded h start (t ++ (d.jobs[i]?.map (d.completedCalls h)).getD []) (d.complete h i) := by
  have hs : (d.complete h i).Sound := hr.sound.complete i
  rcases complete_cases h i d with
    ⟨hnone, he⟩ | ⟨job, seq, text, hj, hopen, htask, he⟩ | ⟨job, path, f, hj, hopen, htask, hf, he⟩
  · -- nothing is done, and nothing is called
    have hcalls : (d.jobs[i]?.map (d.completedCalls h)).getD [] = [] := by
      rcases hj : d.jobs[i]? with - | job
      · rfl
      · rw [Option.map_some, Option.getD_some, completedCalls]
        rcases hopen : job.ended with - | -
        · obtain ⟨hk, path, htask⟩ := hnone job hj hopen
          simp [htask, hk]
        · rfl
    rw [he, hcalls, List.append_nil]
    exact hr
  · have hcalls : (d.jobs[i]?.map (d.completedCalls h)).getD [] =
        [.execute seq text job.cancelled (h.execute text job.cancelled d.client).1.1] := by
      simp [hj, completedCalls, hopen, htask]
    rw [he] at hs
    rw [he, hcalls]
    exact hr.runEnded hj hopen htask hs rfl rfl rfl rfl rfl
  · have hcalls : (d.jobs[i]?.map (d.completedCalls h)).getD [] = [.lookUp path] := by
      simp [hj, completedCalls, hopen, htask, hf]
    rw [he] at hs
    rw [he, hcalls]
    have hcalled := hr.called (.lookUp path) (by simp) (by simp) (by simp)
    refine hcalled.uncalled hs (by simp [Call.apply, hf]) rfl id ?_ ?_ ?_
    · intro s hs
      obtain ⟨j, hmem, ho⟩ := List.mem_filterMap.mp hs
      rcases List.mem_or_eq_of_mem_set hmem with hold | rfl
      · exact List.mem_filterMap.mpr ⟨j, hold, ho⟩
      · simp [Job.open?] at ho
    · intro j hmem s text hrun
      rcases List.mem_or_eq_of_mem_set hmem with hold | rfl
      · exact ⟨j, hold, hrun⟩
      · exact ⟨job, List.mem_of_getElem? hj, hrun⟩
    · simp

/-- A delivery commits at most the result of the active number. -/
theorem delivered (hr : Recorded h start t d) (i : Nat) :
    Recorded h start (t ++ (d.posted[i]?.map (d.reactedCalls h)).getD []) (d.delivered h i) := by
  have hs : (d.delivered h i).Sound := hr.sound.delivered i
  have hposted (s o) (ho : .result s o ∈ d.posted.eraseIdx i) : .result s o ∈ d.posted :=
    List.mem_of_mem_eraseIdx ho
  rcases delivered_cases h i d with
    ⟨hi, he⟩ | ⟨seq, hi, -⟩ | ⟨seq, o, hi, he⟩ | ⟨path, answer, hi, he⟩
  · rw [hi, he]
    simpa using hr
  · exact absurd (List.mem_of_getElem? hi) (hr.sound.no_debounce seq)
  · rw [he] at hs
    rw [hi, he, Option.map_some, Option.getD_some, reactedCalls]
    by_cases hcommit : d.commits seq o
    · obtain ⟨hactive, hcancel⟩ : seq = d.active ∧ o.isCancelled = false := by
        simpa [commits, accepts] using hcommit
      subst hactive
      rw [if_pos hcommit]
      refine hr.committed (List.mem_of_getElem? hi) hcancel hs ?_ rfl ?_ rfl hposted
      · exact if_pos hcommit
      · exact if_pos (beq_self_eq_true _)
    · rw [if_neg hcommit, List.append_nil]
      refine hr.quiet hs ?_ rfl ?_ rfl hposted
      · exact if_neg hcommit
      · intro hstill
        show (if _ then false else d.running) = false
        rw [hstill, ite_self]
  · rw [he] at hs
    rw [hi, he, Option.map_some, Option.getD_some, reactedCalls]
    by_cases hwants : d.wants h path
    · rw [if_pos hwants]
      have hcalled := hr.called (.takeKeys path answer.toOption) (by simp) (by simp) (by simp)
      refine hcalled.quiet hs ?_ rfl id rfl hposted
      exact if_pos hwants
    · rw [if_neg hwants, List.append_nil]
      refine hr.quiet hs ?_ rfl id rfl hposted
      exact if_neg hwants

/-- **The record is kept by every move.** -/
theorem next (hr : Recorded h start t d) (m : Move τ χ) :
    Recorded h start (t ++ m.calls h d) (m.next h d) := by
  cases m with
  | queue =>
    rw [Move.calls, List.append_nil]
    exact hr.queue
  | executeNow => exact hr.executeNow
  | edit f => exact hr.edit f
  | requestKeys path =>
    rw [Move.calls, List.append_nil]
    exact hr.requested path
  | fire i => exact hr.fired i
  | complete i => exact hr.complete i
  | deliver i => exact hr.delivered i
  | tick now =>
    rw [Move.calls, List.append_nil]
    exact hr.quiet { hr.sound with } rfl rfl id rfl fun _ _ => id

theorem afterAll (hr : Recorded h start t d) (hd : d.shut = false) (ms : List (Move τ χ)) :
    Recorded h start (t ++ trace h ms d) (d.afterAll h ms) := by
  induction ms generalizing t d with
  | nil =>
    rw [trace, List.append_nil]
    exact hr
  | cons m rest ih =>
    have hrest := ih (hr.next m) ((Move.next_shut m).trans hd)
    rw [trace, Move.act_eq hd m, ← List.append_assoc]
    exact hrest

end Recorded

/-- **Monotonic display.**  Whatever happens to a new dispatcher, nothing is raised, the calls
are all that its client sees, they commit for ever newer numbers, and each is in order. -/
theorem commits_in_order (h : Hooks χ) (client : χ) (now : τ) (latency : Latency τ)
    (ms : List (Move τ χ)) :
    let t := trace h ms (ofClient client now latency)
    ∃ d, perform h ms (ofClient client now latency) = (.ok (), d) ∧
      d.client = Call.replay h t client ∧
      (t.filterMap Call.committed?).Pairwise (· < ·) ∧
      Throughout (Call.InOrder h client) t := by
  have hr := (Recorded.ofClient h client now latency).afterAll rfl ms
  rw [List.nil_append] at hr
  exact ⟨_, perform_eq ms rfl, hr.client, Call.pairwise_committed hr.inOrder, hr.inOrder⟩

end Dispatcher

end LiveQuery
