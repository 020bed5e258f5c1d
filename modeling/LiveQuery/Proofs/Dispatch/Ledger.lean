/-
LiveQuery/Proofs/Dispatch/Ledger.lean

What becomes of the sequence numbers that a dispatcher mints.

A run is written down as a list of marks: a number is minted, its alarm goes off too late, it is
dispatched, its result is taken.  At any time a number that has been minted is in one of four
places: its alarm is set, it has been superseded, its run is outstanding, or its result has been
delivered.  `Ledger log d` says that these four make up the minted numbers, each once.

Design.  The marks of a move are read off the state before it (`Move.marks`), so that they are
defined for a dispatcher that refuses jobs as well.  What a move does to the four places is counted
number by number: a permutation of lists is an equality of counts, which is linear arithmetic once
the move is known.

Main results: the ledger is kept by every move (`Ledger.next`), and what is kept by every move is
kept by a run (`history_induction`).
-/
import Mathlib.Data.Int.Range
import LiveQuery.Proofs.Dispatch.Sound

namespace LiveQuery

/-! ### Marks -/

/-- A mark in the record of a run. -/
inductive Mark
  /-- A number was minted. -/
  | minted (seq : Int)
  /-- The alarm of a number went off after a newer one had been minted. -/
  | superseded (seq : Int)
  /-- A number was dispatched. -/
  | dispatched (seq : Int)
  /-- The result of a number was delivered, and accepted or rejected. -/
  | delivered (seq : Int) (o : Outcome) (accepted : Bool)

namespace Mark

/-- The number that was minted. -/
@[simp] def minted? : Mark → Option Int
  | minted seq => some seq
  | _ => none

/-- The number that was superseded. -/
@[simp] def superseded? : Mark → Option Int
  | superseded seq => some seq
  | _ => none

/-- The number that was dispatched. -/
@[simp] def dispatched? : Mark → Option Int
  | dispatched seq => some seq
  | _ => none

/-- The number whose result was delivered. -/
@[simp] def delivered? : Mark → Option Int
  | delivered seq _ _ => some seq
  | _ => none

/-- The number whose result was rejected. -/
@[simp] def rejected? : Mark → Option Int
  | delivered seq _ accepted => if accepted then none else some seq
  | _ => none

/-- The number whose result was accepted, and had been cancelled. -/
@[simp] def discarded? : Mark → Option Int
  | delivered seq o accepted => if accepted && o.isCancelled then some seq else none
  | _ => none

/-- The number whose result was accepted, and had not been cancelled. -/
@[simp] def committed? : Mark → Option Int
  | delivered seq o accepted => if accepted && !o.isCancelled then some seq else none
  | _ => none

/-- A result that is delivered is rejected, discarded or committed. -/
theorem length_delivered (log : List Mark) :
    (log.filterMap delivered?).length =
      (log.filterMap rejected?).length + (log.filterMap discarded?).length +
        (log.filterMap committed?).length := by
  induction log with
  | nil => rfl
  | cons mark rest ih =>
    cases mark with
    | delivered seq o accepted =>
      rcases accepted with - | -
      · simp
        omega
      · rcases ho : o.isCancelled with - | - <;>
          simp [ho] <;> omega
    | _ =>
      simpa [List.filterMap_cons] using ih

end Mark

namespace Dispatcher

variable {τ χ : Type}

/-- The mark at the end of a delay. -/
def elapsedMarks (d : Dispatcher τ χ) (seq : Int) : List Mark :=
  if seq = d.minted then [.dispatched seq] else [.superseded seq]

/-- The marks of a callback. -/
def reactedMarks (d : Dispatcher τ χ) : Callback → List Mark
  | .debounce seq => d.elapsedMarks seq
  | .result seq o => [.delivered seq o (d.accepts seq)]
  | .keys _ _ => []

/-- The marks of a move. -/
def Move.marks (d : Dispatcher τ χ) : Move τ χ → List Mark
  | .queue => [.minted (d.minted + 1)]
  | .executeNow => [.minted (d.minted + 1), .dispatched (d.minted + 1)]
  | .fire i => (d.alarms[i]?.map d.elapsedMarks).getD []
  | .deliver i => (d.posted[i]?.map d.reactedMarks).getD []
  | .edit _ => []
  | .requestKeys _ => []
  | .complete _ => []
  | .tick _ => []

variable [Time τ]

/-- The marks of some moves, each of which is done whatever the ones before it have raised. -/
def history (h : Hooks χ) : List (Move τ χ) → Dispatcher τ χ → List Mark
  | [], _ => []
  | m :: rest, d => m.marks d ++ history h rest (m.act h d).2

/-! ### Numbers in a row -/

/-- Numbers in a row, and the one before them. -/
theorem range_cons {a b : Int} (h : a < b) : Int.range a b = a :: Int.range (a + 1) b := by
  have hfirst : (b - a).toNat = (b - (a + 1)).toNat + 1 := by omega
  rw [Int.range, hfirst, List.range_succ_eq_map, List.map_cons, List.map_map, Int.range]
  refine congrArg₂ List.cons (by omega) (List.map_congr_left fun r _ => ?_)
  show a + ((r + 1 : Nat) : Int) = a + 1 + r
  omega

/-- Numbers in a row, and the next one. -/
theorem range_concat {a b : Int} (h : a ≤ b) : Int.range a (b + 1) = Int.range a b ++ [b] := by
  have hlast : (b + 1 - a).toNat = (b - a).toNat + 1 := by omega
  have hend : a + ((b - a).toNat : Int) = b := by omega
  rw [Int.range, hlast, List.range_succ, List.map_append, List.map_singleton, hend]
  rfl

/-- The numbers up to the next one. -/
theorem range_snoc {n : Int} (hn : 0 ≤ n) :
    Int.range 1 (n + 1 + 1) = Int.range 1 (n + 1) ++ [n + 1] :=
  range_concat (by omega)

theorem nodup_range (n : Int) : (Int.range 1 (n + 1)).Nodup := by
  unfold Int.range
  refine List.Pairwise.map _ ?_ List.nodup_range
  intro a b hne hab
  omega

theorem length_range (a b : Int) : (Int.range a b).length = (b - a).toNat := by
  rw [Int.range, List.length_map, List.length_range]

/-! ### The ledger -/

/-- The marks so far and the numbers of a dispatcher fit together. -/
structure Ledger (log : List Mark) (d : Dispatcher τ χ) : Prop where
  sound : d.Sound
  /-- The numbers are minted one after the other. -/
  minted : log.filterMap Mark.minted? = Int.range 1 (d.minted + 1)
  /-- A number has its alarm, or was superseded, or was dispatched. -/
  minted_perm : (Int.range 1 (d.minted + 1)).Perm
    (d.alarms ++ log.filterMap Mark.superseded? ++ log.filterMap Mark.dispatched?)
  /-- The result of a number that was dispatched is outstanding, or was delivered. -/
  dispatched_perm : (log.filterMap Mark.dispatched?).Perm
    (d.outstanding ++ log.filterMap Mark.delivered?)
  /-- A number was dispatched by handing its run to the background. -/
  submitted : d.jobs.filterMap (fun j => j.task.seq?) = log.filterMap Mark.dispatched?

omit [Time τ] in
/-- A dispatch hands the run of its number to the background. -/
theorem submitted_dispatched (d : Dispatcher τ χ) (seq : Int) (text : Text) :
    (d.releasedJobs ++ [Job.mk (.run seq text) false false]).filterMap (fun j => j.task.seq?) =
      d.jobs.filterMap (fun j => j.task.seq?) ++ [seq] := by
  rw [List.filterMap_append, filterMap_releasedJobs (fun _ => rfl)]
  rfl

variable {h : Hooks χ} {log : List Mark} {d : Dispatcher τ χ}

namespace Ledger

omit [Time τ] in
theorem ofClient (client : χ) (now : τ) (latency : Latency τ) :
    Ledger [] (ofClient client now latency) where
  sound := sound_ofClient client now latency
  minted := rfl
  minted_perm := .nil
  dispatched_perm := .nil
  submitted := rfl

omit [Time τ] in
theorem nodup_dispatched (hl : Ledger log d) : (log.filterMap Mark.dispatched?).Nodup := by
  have hall := hl.minted_perm.nodup_iff.mp (nodup_range d.minted)
  exact (List.nodup_append.mp hall).2.1

omit [Time τ] in
/-- A number that was dispatched is outstanding as long as its result has not been delivered. -/
theorem mem_outstanding_iff (hl : Ledger log d) (seq : Int) :
    seq ∈ d.outstanding ↔
      seq ∈ log.filterMap Mark.dispatched? ∧ seq ∉ log.filterMap Mark.delivered? := by
  have hnodup := hl.dispatched_perm.nodup_iff.mp hl.nodup_dispatched
  obtain ⟨-, -, hapart⟩ := List.nodup_append.mp hnodup
  constructor
  · intro hout
    refine ⟨hl.dispatched_perm.mem_iff.mpr (List.mem_append_left _ hout), ?_⟩
    intro hdelivered
    exact hapart seq hout seq hdelivered rfl
  · rintro ⟨hdispatched, hdelivered⟩
    have hmem := List.mem_append.mp (hl.dispatched_perm.mem_iff.mp hdispatched)
    exact hmem.resolve_right hdelivered

omit [Time τ] in
/-- The minted numbers by what has become of them. -/
theorem places_perm (hl : Ledger log d) :
    (Int.range 1 (d.minted + 1)).Perm
      ((d.alarms ++ d.outstanding) ++
        (log.filterMap Mark.superseded? ++ log.filterMap Mark.delivered?)) := by
  refine List.perm_iff_count.mpr fun s => ?_
  have hminted := hl.minted_perm.count_eq s
  have hdispatched := hl.dispatched_perm.count_eq s
  simp only [List.count_append] at hminted hdispatched ⊢
  omega

/-! ### Moves keep the ledger -/

omit [Time τ] in
/-- **What leaves one place enters another.**  A number that is minted gets its alarm or is
dispatched; one whose alarm goes off was superseded or is dispatched; and the run of a number is
outstanding from its dispatch to the delivery of its result. -/
theorem snoc (hl : Ledger log d) {marks : List Mark} {d' : Dispatcher τ χ} (hs : d'.Sound)
    (hminted : Int.range 1 (d'.minted + 1) =
      Int.range 1 (d.minted + 1) ++ marks.filterMap Mark.minted?)
    (halarms : (marks.filterMap Mark.minted? ++ d.alarms).Perm
      (marks.filterMap Mark.superseded? ++ (marks.filterMap Mark.dispatched? ++ d'.alarms)))
    (hout : (marks.filterMap Mark.dispatched? ++ d.outstanding).Perm
      (marks.filterMap Mark.delivered? ++ d'.outstanding))
    (hjobs : d'.jobs.filterMap (fun j => j.task.seq?) =
      d.jobs.filterMap (fun j => j.task.seq?) ++ marks.filterMap Mark.dispatched?) :
    Ledger (log ++ marks) d' where
  sound := hs
  minted := by rw [List.filterMap_append, hl.minted, hminted]
  minted_perm := by
    rw [hminted]
    refine List.perm_iff_count.mpr fun s => ?_
    have hold := hl.minted_perm.count_eq s
    have hmoved := halarms.count_eq s
    simp only [List.filterMap_append, List.count_append] at hold hmoved ⊢
    omega
  dispatched_perm := by
    refine List.perm_iff_count.mpr fun s => ?_
    have hold := hl.dispatched_perm.count_eq s
    have hmoved := hout.count_eq s
    simp only [List.filterMap_append, List.count_append] at hold hmoved ⊢
    omega
  submitted := by rw [hjobs, hl.submitted, List.filterMap_append]

omit [Time τ] in
/-- Nothing is marked where the numbers stay in their places. -/
theorem unmarked (hl : Ledger log d) {d' : Dispatcher τ χ} (hs : d'.Sound)
    (hminted : d'.minted = d.minted) (halarms : d'.alarms = d.alarms)
    (hout : d'.outstanding.Perm d.outstanding)
    (hjobs : d'.jobs.filterMap (fun j => j.task.seq?) = d.jobs.filterMap fun j => j.task.seq?) :
    Ledger log d' := by
  have hnone : Ledger (log ++ []) d' :=
    hl.snoc hs (by simp [hminted]) (.of_eq halarms.symm) hout.symm (by simpa using hjobs)
  rwa [List.append_nil] at hnone

omit [Time τ] in
theorem complete (hl : Ledger log d) (i : Nat) : Ledger log (d.complete h i) := by
  have hs : (d.complete h i).Sound := hl.sound.complete i
  have hout := outstanding_complete h i d
  rcases complete_cases h i d with
    ⟨-, he⟩ | ⟨job, seq, text, hj, -, -, he⟩ | ⟨job, path, f, hj, -, -, -, he⟩
  · rw [he]
    exact hl
  · rw [he] at hs hout ⊢
    exact hl.unmarked hs rfl rfl hout (filterMap_set hj rfl)
  · rw [he] at hs hout ⊢
    exact hl.unmarked hs rfl rfl hout (filterMap_set hj rfl)

omit [Time τ] in
theorem requested (hl : Ledger log d) (path : Text) : Ledger log (d.requested h path) := by
  have hs : (d.requested h path).Sound := hl.sound.requested path
  have hout := outstanding_requested (h := h) (d := d) path
  unfold Dispatcher.requested at hs hout ⊢
  split
  · next hk =>
    rw [if_pos hk] at hs hout
    exact hl.unmarked hs rfl rfl (.of_eq hout) (by simp [Task.seq?])
  · exact hl

omit [Time τ] in
theorem queue (hl : Ledger log d) : Ledger (log ++ [.minted (d.minted + 1)]) d.queue := by
  have hnonneg : 0 ≤ d.minted := Int.le_trans hl.sound.active_nonneg hl.sound.active_le
  refine hl.snoc hl.sound.queue (range_snoc hnonneg) ?_ (.refl _) (List.append_nil _).symm
  show ((d.minted + 1) :: d.alarms).Perm (d.alarms ++ [d.minted + 1])
  exact (List.perm_append_singleton ..).symm

theorem executeNow (hl : Ledger log d) :
    Ledger (log ++ [.minted (d.minted + 1), .dispatched (d.minted + 1)])
      (d.mint.dispatched h d.mint.minted) := by
  have hnonneg : 0 ≤ d.minted := Int.le_trans hl.sound.active_nonneg hl.sound.active_le
  have hout := outstanding_dispatched (h := h) (d := d.mint) (d.minted + 1)
  exact hl.snoc hl.sound.executeNow (range_snoc hnonneg) (.refl _) hout.symm
    (submitted_dispatched d.mint (d.minted + 1) _)

/-- An alarm that goes off takes its number to another place. -/
theorem fired (hl : Ledger log d) (i : Nat) :
    Ledger (log ++ (d.alarms[i]?.map d.elapsedMarks).getD []) (d.fired h i) := by
  have hs : (d.fired h i).Sound := hl.sound.fired i
  rcases fired_cases h i d with ⟨hi, he⟩ | ⟨hi, he⟩ | ⟨seq, hi, hseq, he⟩
  · rw [hi, he]
    simpa using hl
  · rw [he] at hs
    rw [hi, he, Option.map_some, Option.getD_some, elapsedMarks, if_pos rfl]
    have hout := outstanding_dispatched (h := h) (d := { d with alarms := d.alarms.eraseIdx i })
      d.minted
    exact hl.snoc hs (List.append_nil _).symm (perm_cons_eraseIdx hi) hout.symm
      (submitted_dispatched d d.minted _)
  · rw [he] at hs
    rw [hi, he, Option.map_some, Option.getD_some, elapsedMarks, if_neg hseq]
    exact hl.snoc hs (List.append_nil _).symm (perm_cons_eraseIdx hi) (.refl _)
      (List.append_nil _).symm

theorem delivered (hl : Ledger log d) (i : Nat) :
    Ledger (log ++ (d.posted[i]?.map d.reactedMarks).getD []) (d.delivered h i) := by
  have hs : (d.delivered h i).Sound := hl.sound.delivered i
  rcases delivered_cases h i d with
    ⟨hi, he⟩ | ⟨seq, hi, -⟩ | ⟨seq, o, hi, he⟩ | ⟨path, answer, hi, he⟩
  · rw [hi, he]
    simpa using hl
  · exact absurd (List.mem_of_getElem? hi) (hl.sound.no_debounce seq)
  · rw [he] at hs
    rw [hi, he, Option.map_some, Option.getD_some, reactedMarks]
    exact hl.snoc hs (List.append_nil _).symm (.refl _) (outstanding_eraseIdx hi)
      (List.append_nil _).symm
  · have hout := outstanding_eraseIdx hi
    rw [he] at hs
    rw [hi, he, Option.map_some, Option.getD_some, reactedMarks, List.append_nil]
    exact hl.unmarked hs rfl rfl hout.symm rfl

/-- **The ledger is kept by every move.** -/
theorem next (hl : Ledger log d) (m : Move τ χ) : Ledger (log ++ m.marks d) (m.next h d) := by
  cases m with
  | queue => exact hl.queue
  | executeNow => exact hl.executeNow
  | fire i => exact hl.fired i
  | deliver i => exact hl.delivered i
  | edit f =>
    rw [Move.marks, List.append_nil]
    exact hl.unmarked { hl.sound with } rfl rfl (.refl _) rfl
  | requestKeys path =>
    rw [Move.marks, List.append_nil]
    exact hl.requested path
  | complete i =>
    rw [Move.marks, List.append_nil]
    exact hl.complete i
  | tick now =>
    rw [Move.marks, List.append_nil]
    exact hl.unmarked { hl.sound with } rfl rfl (.refl _) rfl

end Ledger

/-- What is kept with the marks of each move is kept with those of a run. -/
theorem history_induction {P : List Mark → Dispatcher τ χ → Prop}
    (hnext : ∀ log d m, P log d → P (log ++ Move.marks d m) (m.next h d))
    (hd : d.shut = false) (hP : P log d) (ms : List (Move τ χ)) :
    P (log ++ history h ms d) (d.afterAll h ms) := by
  induction ms generalizing log d with
  | nil =>
    rw [history, List.append_nil]
    exact hP
  | cons m rest ih =>
    have hrest := ih ((Move.next_shut m).trans hd) (hnext log d m hP)
    rw [history, Move.act_eq hd m, ← List.append_assoc]
    exact hrest

end Dispatcher

end LiveQuery
