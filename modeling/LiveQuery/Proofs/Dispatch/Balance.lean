/-
LiveQuery/Proofs/Dispatch/Balance.lean

The latencies that a dispatcher records account for every number it has minted.

Design.  The spans that are open are those of the numbers whose alarm is set and of the runs that
are outstanding, each once (`Measured.keys`): a number keeps its span through its dispatch, which
only stamps it.  A result so always finds a span with both times, and a commit gives both samples.
With this the counters of the latencies are lengths of the marks of the run, and the balance is that
of the ledger.

Main result: `latencies_balance`.
-/
import LiveQuery.Proofs.Dispatch.Commits
import LiveQuery.Proofs.Dispatch.Ledger

namespace LiveQuery

/-! ### Spans -/

namespace Latency

variable {τ : Type} {l : Latency τ} {seq : Int}

/-- The numbers whose spans are open. -/
def keys (l : Latency τ) : List Int := l.pending.map Prod.fst

theorem span?_isSome_iff : (l.span? seq).isSome ↔ seq ∈ l.keys := by
  simp [span?, keys]

theorem mem_of_span? {s : Span τ} (hs : l.span? seq = some s) : (seq, s) ∈ l.pending := by
  unfold span? at hs
  obtain ⟨⟨k, s'⟩, hfind, rfl⟩ := Option.map_eq_some_iff.mp hs
  have hk : k = seq := by simpa using List.find?_some hfind
  exact hk ▸ List.mem_of_find?_eq_some hfind

theorem map_without (l : Latency τ) (seq : Int) :
    (l.without seq).map Prod.fst = l.keys.filter fun k => k ≠ seq := by
  unfold without keys
  rw [List.filter_map]
  rfl

/-- Closing the span of a number takes the number out. -/
theorem without_perm {rest : List Int} (hkeys : l.keys.Perm (seq :: rest))
    (hnodup : (seq :: rest).Nodup) : ((l.without seq).map Prod.fst).Perm rest := by
  obtain ⟨hnew, -⟩ := List.nodup_cons.mp hnodup
  have hrest : rest.filter (fun k => k ≠ seq) = rest := by
    refine List.filter_eq_self.mpr fun k hk => decide_eq_true ?_
    exact fun he => hnew (he ▸ hk)
  rw [map_without]
  refine (hkeys.filter _).trans ?_
  rw [List.filter_cons_of_neg (by simp), hrest]

/-- Opening a span in place of another one leaves the numbers. -/
theorem openSpan_perm {rest : List Int} (hkeys : l.keys.Perm (seq :: rest))
    (hnodup : (seq :: rest).Nodup) (s : Span τ) :
    (l.openSpan seq s).keys.Perm (seq :: rest) := by
  have hwithout := without_perm hkeys hnodup
  unfold openSpan keys
  rw [List.map_append]
  exact (hwithout.append_right _).trans (List.perm_append_singleton ..)

/-- Opening the span of a new number puts the number in. -/
theorem openSpan_new (hnew : seq ∉ l.keys) (s : Span τ) :
    (l.openSpan seq s).keys = l.keys ++ [seq] := by
  have hself : l.keys.filter (fun k => k ≠ seq) = l.keys := by
    refine List.filter_eq_self.mpr fun k hk => decide_eq_true ?_
    exact fun he => hnew (he ▸ hk)
  show (l.without seq ++ [(seq, s)]).map Prod.fst = _
  rw [List.map_append, map_without, hself]
  rfl

theorem mem_without {e : Int × Span τ} (he : e ∈ l.without seq) : e ∈ l.pending ∧ e.1 ≠ seq := by
  obtain ⟨hmem, hne⟩ := List.mem_filter.mp he
  exact ⟨hmem, of_decide_eq_true hne⟩

theorem mem_openSpan {s : Span τ} {e : Int × Span τ} (he : e ∈ (l.openSpan seq s).pending) :
    e = (seq, s) ∨ e ∈ l.pending ∧ e.1 ≠ seq := by
  rcases List.mem_append.mp he with he | he
  · exact .inr (mem_without he)
  · exact .inl (List.mem_singleton.mp he)

/-! What the hooks do while the latencies are recorded. -/

theorem queued_eq (hl : l.enabled = true) (now : τ) (seq : Int) :
    Id.run (l.queued (m := Id) now seq) = l.openSpan seq ⟨now, none⟩ := by
  unfold queued
  rw [hl]
  rfl

theorem dispatched_eq [Time τ] (hl : l.enabled = true) (now : τ) {s : Span τ}
    (hs : l.span? seq = some s) :
    Id.run (l.dispatched (m := Id) now seq) =
      { l.openSpan seq ⟨s.queued, some now⟩ with
        toStart := l.toStart ++ [Time.sub now s.queued] } := by
  unfold dispatched
  rw [hl, hs]
  rfl

theorem drop_eq (hl : l.enabled = true) (hseq : seq ∈ l.keys) :
    l.drop seq = { l with pending := l.without seq, dropped := l.dropped + 1 } := by
  have hspan : l.span? seq ≠ none := Option.isSome_iff_ne_none.mp (span?_isSome_iff.mpr hseq)
  unfold drop
  rw [if_neg (by simp [hl, hspan])]

theorem ended_eq [Time τ] (hl : l.enabled = true) (now : τ) {queued start : τ}
    (hs : l.span? seq = some ⟨queued, some start⟩) (cancelled accepted : Bool) :
    Id.run (l.ended (m := Id) now seq cancelled accepted) =
      { l with
        pending := l.without seq
        cancelled := if cancelled then l.cancelled + 1 else l.cancelled
        stale := if accepted then l.stale else l.stale + 1
        toFrame :=
          if accepted && !cancelled then l.toFrame ++ [Time.sub now queued] else l.toFrame
        running :=
          if accepted && !cancelled then l.running ++ [Time.sub now start] else l.running } := by
  unfold ended
  rw [hl, hs]
  rcases accepted with - | - <;> rcases cancelled with - | - <;> rfl

end Latency

/-! ### Latencies that fit marks -/

/-- The latencies fit the marks so far, where the numbers in `waiting` have been queued and those in
`runs` have been dispatched. -/
structure Measured {τ : Type} (log : List Mark) (waiting runs : List Int) (l : Latency τ) :
    Prop where
  enabled : l.enabled = true
  /-- The numbers that are waiting or running are those that have a span. -/
  keys : l.keys.Perm (waiting ++ runs)
  /-- The span of a run knows when it was dispatched. -/
  stamped : ∀ e ∈ l.pending, e.1 ∈ runs → e.2.dispatched.isSome
  dropped : l.dropped = (log.filterMap Mark.superseded?).length
  toStart : l.toStart.length = (log.filterMap Mark.dispatched?).length
  stale : l.stale = (log.filterMap Mark.rejected?).length
  toFrame : l.toFrame.length = (log.filterMap Mark.committed?).length
  running : l.running.length = (log.filterMap Mark.committed?).length

namespace Measured

variable {τ : Type} {log : List Mark} {waiting waiting' runs runs' : List Int} {l : Latency τ}
  {seq : Int}

theorem start : Measured [] [] [] ({ enabled := true } : Latency τ) where
  enabled := rfl
  keys := .nil
  stamped := by simp
  dropped := rfl
  toStart := rfl
  stale := rfl
  toFrame := rfl
  running := rfl

theorem perm (hm : Measured log waiting runs l) (hwaiting : waiting.Perm waiting')
    (hruns : runs.Perm runs') : Measured log waiting' runs' l :=
  { hm with
    keys := hm.keys.trans (hwaiting.append hruns)
    stamped := fun e he hmem => hm.stamped e he (hruns.mem_iff.mpr hmem) }

/-- A number that is queued waits. -/
theorem queued (hm : Measured log waiting runs l) (hnew : seq ∉ waiting ++ runs) (now : τ) :
    Measured (log ++ [.minted seq]) (seq :: waiting) runs
      (Id.run (l.queued (m := Id) now seq)) := by
  rw [Latency.queued_eq hm.enabled]
  refine
    { enabled := hm.enabled
      keys := ?_
      stamped := ?_
      dropped := by simpa [Latency.openSpan, List.filterMap_cons] using hm.dropped
      toStart := by simpa [Latency.openSpan, List.filterMap_cons] using hm.toStart
      stale := by simpa [Latency.openSpan, List.filterMap_cons] using hm.stale
      toFrame := by simpa [Latency.openSpan, List.filterMap_cons] using hm.toFrame
      running := by simpa [Latency.openSpan, List.filterMap_cons] using hm.running }
  · rw [Latency.openSpan_new fun hmem => hnew (hm.keys.mem_iff.mp hmem)]
    exact (List.perm_append_singleton ..).trans (hm.keys.cons seq)
  · intro e he hrun
    rcases Latency.mem_openSpan he with rfl | ⟨he, -⟩
    · exact absurd (List.mem_append_right _ hrun) hnew
    · exact hm.stamped e he hrun

/-- A dispatch stamps the span of its number. -/
theorem dispatched [Time τ] (hm : Measured log (seq :: waiting) runs l)
    (hnodup : (seq :: (waiting ++ runs)).Nodup) (now : τ) :
    Measured (log ++ [.dispatched seq]) waiting (seq :: runs)
      (Id.run (l.dispatched (m := Id) now seq)) := by
  have hmem : seq ∈ l.keys := hm.keys.mem_iff.mpr List.mem_cons_self
  obtain ⟨s, hs⟩ := Option.isSome_iff_exists.mp (Latency.span?_isSome_iff.mpr hmem)
  rw [Latency.dispatched_eq hm.enabled now hs]
  refine
    { enabled := hm.enabled
      keys := (Latency.openSpan_perm hm.keys hnodup _).trans List.perm_middle.symm
      stamped := ?_
      dropped := by simpa [Latency.openSpan, List.filterMap_cons] using hm.dropped
      toStart := by simpa [List.filterMap_cons] using hm.toStart
      stale := by simpa [Latency.openSpan, List.filterMap_cons] using hm.stale
      toFrame := by simpa [Latency.openSpan, List.filterMap_cons] using hm.toFrame
      running := by simpa [Latency.openSpan, List.filterMap_cons] using hm.running }
  intro e he hrun
  rcases Latency.mem_openSpan he with rfl | ⟨he, hne⟩
  · rfl
  · exact hm.stamped e he ((List.mem_cons.mp hrun).resolve_left hne)

/-- A number that was superseded gives no sample. -/
theorem drop (hm : Measured log (seq :: waiting) runs l)
    (hnodup : (seq :: (waiting ++ runs)).Nodup) :
    Measured (log ++ [.superseded seq]) waiting runs (l.drop seq) := by
  have hmem : seq ∈ l.keys := hm.keys.mem_iff.mpr List.mem_cons_self
  rw [Latency.drop_eq hm.enabled hmem]
  exact
    { enabled := hm.enabled
      keys := Latency.without_perm hm.keys hnodup
      stamped := fun e he => hm.stamped e (Latency.mem_without he).1
      dropped := by simpa [List.filterMap_cons] using hm.dropped
      toStart := by simpa [List.filterMap_cons] using hm.toStart
      stale := by simpa [List.filterMap_cons] using hm.stale
      toFrame := by simpa [List.filterMap_cons] using hm.toFrame
      running := by simpa [List.filterMap_cons] using hm.running }

/-- A result closes the span of its run; if it is committed, the span gives both samples. -/
theorem ended [Time τ] (hm : Measured log waiting (seq :: runs) l)
    (hnodup : (seq :: (waiting ++ runs)).Nodup) (now : τ) (o : Outcome) (accepted : Bool) :
    Measured (log ++ [.delivered seq o accepted]) waiting runs
      (Id.run (l.ended (m := Id) now seq o.isCancelled accepted)) := by
  have hkeys := hm.keys.trans List.perm_middle
  have hmem : seq ∈ l.keys := hkeys.mem_iff.mpr List.mem_cons_self
  obtain ⟨⟨queued, start⟩, hs⟩ := Option.isSome_iff_exists.mp (Latency.span?_isSome_iff.mpr hmem)
  have hstamped : start.isSome := hm.stamped _ (Latency.mem_of_span? hs) List.mem_cons_self
  obtain ⟨start, rfl⟩ := Option.isSome_iff_exists.mp hstamped
  rw [Latency.ended_eq hm.enabled now hs]
  refine
    { enabled := hm.enabled
      keys := Latency.without_perm hkeys hnodup
      stamped := ?_
      dropped := by simpa [List.filterMap_cons] using hm.dropped
      toStart := by simpa [List.filterMap_cons] using hm.toStart
      stale := ?_
      toFrame := ?_
      running := ?_ }
  · intro e he hrun
    exact hm.stamped e (Latency.mem_without he).1 (List.mem_cons_of_mem _ hrun)
  · rcases accepted with - | - <;> simp [hm.stale]
  · rcases accepted with - | - <;> rcases ho : o.isCancelled with - | - <;>
      simp [ho, hm.toFrame]
  · rcases accepted with - | - <;> rcases ho : o.isCancelled with - | - <;>
      simp [ho, hm.running]

end Measured

namespace Dispatcher

variable {τ χ : Type} [Time τ] {h : Hooks χ} {log : List Mark} {d d' : Dispatcher τ χ}

/-! ### Commits -/

omit [Time τ] in
/-- A move commits for the number whose result it marks as committed. -/
theorem Move.committed_marks (h : Hooks χ) (d : Dispatcher τ χ) (m : Move τ χ) :
    (m.marks d).filterMap Mark.committed? = (m.calls h d).filterMap Call.committed? := by
  have helapsed (seq : Int) : (d.elapsedMarks seq).filterMap Mark.committed? =
      (d.elapsedCalls h seq).filterMap Call.committed? := by
    unfold elapsedMarks elapsedCalls
    split <;> rfl
  have hreacted (c : Callback) : (d.reactedMarks c).filterMap Mark.committed? =
      (d.reactedCalls h c).filterMap Call.committed? := by
    cases c with
    | debounce seq => exact helapsed seq
    | result seq o =>
      rcases hc : d.commits seq o with - | - <;>
        simp_all [reactedMarks, reactedCalls, commits, Call.committed?]
    | keys path answer =>
      show [] = (if d.wants h path then [Call.takeKeys path answer.toOption] else []).filterMap _
      split <;> rfl
  have hcompleted (job : Job) : [] = (d.completedCalls h job).filterMap Call.committed? := by
    unfold completedCalls
    repeat' split
    all_goals rfl
  cases m with
  | fire i =>
    rw [Move.marks, Move.calls]
    rcases d.alarms[i]? with - | seq
    · rfl
    · exact helapsed seq
  | deliver i =>
    rw [Move.marks, Move.calls]
    rcases d.posted[i]? with - | c
    · rfl
    · exact hreacted c
  | complete i =>
    rw [Move.marks, Move.calls]
    rcases d.jobs[i]? with - | job
    · rfl
    · exact hcompleted job
  | _ => rfl

theorem committed_history (h : Hooks χ) (ms : List (Move τ χ)) (d : Dispatcher τ χ) :
    (history h ms d).filterMap Mark.committed? = (trace h ms d).filterMap Call.committed? := by
  induction ms generalizing d with
  | nil => rfl
  | cons m rest ih =>
    rw [history, trace, List.filterMap_append, List.filterMap_append, m.committed_marks h d, ih]

/-! ### Moves -/

omit [Time τ] in
/-- The numbers that are open are distinct. -/
theorem Ledger.nodup_open (hl : Ledger log d) : (d.alarms ++ d.outstanding).Nodup := by
  have hall := hl.places_perm.nodup_iff.mp (nodup_range d.minted)
  exact (List.nodup_append.mp hall).1

omit [Time τ] in
/-- A number that is minted is not open before. -/
theorem Sound.not_mem_open (hd : d.Sound) : d.minted + 1 ∉ d.alarms ++ d.outstanding := by
  intro hmem
  rcases List.mem_append.mp hmem with hmem | hmem
  · have hle := (hd.alarm_range _ hmem).2
    omega
  · have hle := Int.le_trans (hd.outstanding_le _ hmem) hd.active_le
    omega

theorem measured_executeNow (hl : Ledger log d)
    (hm : Measured log d.alarms d.outstanding d.latency) :
    Measured (log ++ [.minted (d.minted + 1), .dispatched (d.minted + 1)]) d.alarms
      (d.mint.dispatched h d.mint.minted).outstanding
      (d.mint.dispatched h d.mint.minted).latency := by
  have hnew := hl.sound.not_mem_open
  have hqueued := hm.queued hnew d.now
  have hdispatched := hqueued.dispatched (List.nodup_cons.mpr ⟨hnew, hl.nodup_open⟩) d.now
  rw [List.append_assoc] at hdispatched
  exact hdispatched.perm (.refl _) (outstanding_dispatched (h := h) (d := d.mint) _).symm

theorem measured_fired (hl : Ledger log d) (hm : Measured log d.alarms d.outstanding d.latency)
    (i : Nat) :
    Measured (log ++ (d.alarms[i]?.map d.elapsedMarks).getD []) (d.fired h i).alarms
      (d.fired h i).outstanding (d.fired h i).latency := by
  have hopen {seq : Int} (hi : d.alarms[i]? = some seq) :
      Measured log (seq :: d.alarms.eraseIdx i) d.outstanding d.latency ∧
        (seq :: (d.alarms.eraseIdx i ++ d.outstanding)).Nodup := by
    have hperm := perm_cons_eraseIdx hi
    exact ⟨hm.perm hperm (.refl _), (hperm.append_right _).nodup_iff.mp hl.nodup_open⟩
  rcases fired_cases h i d with ⟨hi, he⟩ | ⟨hi, he⟩ | ⟨seq, hi, hseq, he⟩
  · rw [hi, he]
    simpa using hm
  · obtain ⟨hwaiting, hnodup⟩ := hopen hi
    rw [hi, he, Option.map_some, Option.getD_some, elapsedMarks, if_pos rfl]
    have hdispatched := hwaiting.dispatched hnodup d.now
    exact hdispatched.perm (.refl _) (outstanding_dispatched (h := h) _).symm
  · obtain ⟨hwaiting, hnodup⟩ := hopen hi
    rw [hi, he, Option.map_some, Option.getD_some, elapsedMarks, if_neg hseq]
    exact hwaiting.drop hnodup

theorem measured_delivered (hl : Ledger log d)
    (hm : Measured log d.alarms d.outstanding d.latency) (i : Nat) :
    Measured (log ++ (d.posted[i]?.map d.reactedMarks).getD []) (d.delivered h i).alarms
      (d.delivered h i).outstanding (d.delivered h i).latency := by
  rcases delivered_cases h i d with
    ⟨hi, he⟩ | ⟨seq, hi, -⟩ | ⟨seq, o, hi, he⟩ | ⟨path, answer, hi, he⟩
  · rw [hi, he]
    simpa using hm
  · exact absurd (List.mem_of_getElem? hi) (hl.sound.no_debounce seq)
  · have hout := outstanding_eraseIdx hi
    have hrunning := hm.perm (.refl _) hout
    have hnodup := ((hout.append_left _).trans List.perm_middle).nodup_iff.mp hl.nodup_open
    rw [hi, he, Option.map_some, Option.getD_some, reactedMarks]
    exact hrunning.ended hnodup d.now o (d.accepts seq)
  · have hout := outstanding_eraseIdx hi
    rw [hi, he, Option.map_some, Option.getD_some, reactedMarks, List.append_nil]
    exact hm.perm (.refl _) hout

omit [Time τ] in
theorem measured_complete (hm : Measured log d.alarms d.outstanding d.latency) (i : Nat) :
    Measured log (d.complete h i).alarms (d.complete h i).outstanding (d.complete h i).latency := by
  have hout := outstanding_complete h i d
  rcases complete_cases h i d with
    ⟨-, he⟩ | ⟨job, seq, text, -, -, -, he⟩ | ⟨job, path, f, -, -, -, -, he⟩
  all_goals
    rw [he] at hout ⊢
    exact hm.perm (.refl _) hout.symm

omit [Time τ] in
theorem measured_requested (hm : Measured log d.alarms d.outstanding d.latency) (path : Text) :
    Measured log (d.requested h path).alarms (d.requested h path).outstanding
      (d.requested h path).latency := by
  rw [outstanding_requested]
  unfold requested
  split <;> exact hm

/-- **The latencies follow every move.** -/
theorem measured_next (hl : Ledger log d) (hm : Measured log d.alarms d.outstanding d.latency)
    (m : Move τ χ) :
    Measured (log ++ m.marks d) (m.next h d).alarms (m.next h d).outstanding
      (m.next h d).latency := by
  cases m with
  | queue =>
    have hqueued := hm.queued hl.sound.not_mem_open d.now
    exact hqueued.perm (List.perm_append_singleton ..).symm (.refl _)
  | executeNow => exact measured_executeNow hl hm
  | fire i => exact measured_fired hl hm i
  | deliver i => exact measured_delivered hl hm i
  | edit f =>
    rw [Move.marks, List.append_nil]
    exact hm
  | requestKeys path =>
    rw [Move.marks, List.append_nil]
    exact measured_requested hm path
  | complete i =>
    rw [Move.marks, List.append_nil]
    exact measured_complete hm i
  | tick now =>
    rw [Move.marks, List.append_nil]
    exact hm

/-! ### Runs -/

omit [Time τ] in
/-- The numbers that are open are those that were minted, and neither superseded nor delivered. -/
theorem Ledger.mem_open_iff (hl : Ledger log d) (seq : Int) :
    seq ∈ d.alarms ++ d.outstanding ↔
      seq ∈ log.filterMap Mark.minted? ∧ seq ∉ log.filterMap Mark.superseded? ∧
        seq ∉ log.filterMap Mark.delivered? := by
  have hnodup := hl.places_perm.nodup_iff.mp (nodup_range d.minted)
  obtain ⟨-, -, hapart⟩ := List.nodup_append.mp hnodup
  have hplaces := hl.places_perm.mem_iff (a := seq)
  rw [← hl.minted, List.mem_append] at hplaces
  constructor
  · intro hopen
    refine ⟨hplaces.mpr (.inl hopen), ?_, ?_⟩
    · intro hmem
      exact hapart seq hopen seq (List.mem_append_left _ hmem) rfl
    · intro hmem
      exact hapart seq hopen seq (List.mem_append_right _ hmem) rfl
  · rintro ⟨hminted, hsuperseded, hdelivered⟩
    refine (hplaces.mp hminted).resolve_right ?_
    intro hmem
    exact (List.mem_append.mp hmem).elim hsuperseded hdelivered

omit [Time τ] in
/-- Every number that was minted is open, or was superseded, rejected, discarded or committed. -/
theorem Ledger.balance (hl : Ledger log d) :
    d.minted = (d.alarms ++ d.outstanding).length + (log.filterMap Mark.superseded?).length +
      (log.filterMap Mark.rejected?).length + (log.filterMap Mark.committed?).length +
      (log.filterMap Mark.discarded?).length := by
  have hnonneg : 0 ≤ d.minted := Int.le_trans hl.sound.active_nonneg hl.sound.active_le
  have hlength := hl.places_perm.length_eq
  have hall := length_range 1 (d.minted + 1)
  have hdelivered := Mark.length_delivered log
  simp only [List.length_append] at hlength ⊢
  omega

omit [Time τ] in
/-- Nothing is outstanding once all jobs have ended and all they posted has been delivered. -/
theorem outstanding_eq_nil (hjobs : ∀ j ∈ d.jobs, j.ended = true) (hposted : d.posted = []) :
    d.outstanding = [] := by
  have hclosed : d.jobs.filterMap Job.open? = [] := by
    refine List.filterMap_eq_nil_iff.mpr ?_
    intro j hj
    rw [Job.open?, if_pos (hjobs j hj)]
  rw [outstanding, hclosed, hposted]
  rfl

/-- **The latencies balance.**  Whatever has happened to a dispatcher before its end, in any order,
the numbers that have a span are those it minted and neither superseded nor delivered, each once;
the counters count the numbers that were superseded, dispatched, rejected and committed; and the
minted numbers are all accounted for.  Once nothing is left to happen, no span is open. -/
theorem latencies_balance (h : Hooks χ) (client : χ) (now : τ) (ms : List (Move τ χ)) :
    let start : Dispatcher τ χ := ofClient client now { enabled := true }
    let log := history h ms start
    ∃ d, perform h ms start = (.ok (), d) ∧
      log.filterMap Mark.minted? = Int.range 1 (d.minted + 1) ∧
      (d.latency.pending.map Prod.fst).Nodup ∧
      (∀ seq, seq ∈ d.latency.pending.map Prod.fst ↔
        seq ∈ log.filterMap Mark.minted? ∧ seq ∉ log.filterMap Mark.superseded? ∧
          seq ∉ log.filterMap Mark.delivered?) ∧
      d.latency.dropped = (log.filterMap Mark.superseded?).length ∧
      d.latency.toStart.length = (log.filterMap Mark.dispatched?).length ∧
      d.latency.toFrame.length = ((trace h ms start).filterMap Call.committed?).length ∧
      d.latency.running.length = d.latency.toFrame.length ∧
      d.latency.stale = (log.filterMap Mark.rejected?).length ∧
      d.minted = d.latency.pending.length + d.latency.dropped + d.latency.stale +
        d.latency.toFrame.length + (log.filterMap Mark.discarded?).length ∧
      (d.alarms = [] → (∀ j ∈ d.jobs, j.ended = true) → d.posted = [] →
        d.latency.pending = []) := by
  intro start log
  have hopen : start.shut = false := rfl
  have hstart : Ledger [] start ∧ Measured [] start.alarms start.outstanding start.latency :=
    ⟨.ofClient client now _, .start⟩
  have hkept : Ledger log (start.afterAll h ms) ∧
      Measured log (start.afterAll h ms).alarms (start.afterAll h ms).outstanding
        (start.afterAll h ms).latency :=
    history_induction
      (P := fun log d => Ledger log d ∧ Measured log d.alarms d.outstanding d.latency)
      (fun _ _ m hP => ⟨hP.1.next m, measured_next hP.1 hP.2 m⟩) hopen hstart ms
  obtain ⟨hl, hm⟩ := hkept
  have hcommits : (trace h ms start).filterMap Call.committed? = log.filterMap Mark.committed? :=
    (committed_history h ms start).symm
  have hpending := hm.keys.length_eq
  rw [Latency.keys, List.length_map] at hpending
  refine ⟨start.afterAll h ms, perform_eq ms hopen, hl.minted, ?_, ?_, hm.dropped, hm.toStart, ?_,
    ?_, hm.stale, ?_, ?_⟩
  · exact hm.keys.nodup_iff.mpr hl.nodup_open
  · intro seq
    exact hm.keys.mem_iff.trans (hl.mem_open_iff seq)
  · rw [hcommits, hm.toFrame]
  · rw [hm.running, hm.toFrame]
  · rw [hpending, hm.dropped, hm.stale, hm.toFrame]
    have hbalance := hl.balance
    omega
  · intro halarms hjobs hposted
    rw [halarms, outstanding_eq_nil hjobs hposted] at hpending
    exact List.length_eq_zero_iff.mp hpending

end Dispatcher

end LiveQuery
