/-
LiveQuery/Proofs/Desktop/FailedLoads.lean

What becomes of a load that fails.

Its reason is held until the loading lets go of it, which is before it ends.  If the alarm goes off
before that, the user is warned as is meant; if it goes off after, it breaks down before it has told
anything: the user is not warned, the state is not that of a failure, and the loading is shown until
another document is opened.  Either way the sessions are left alone.

Main result: `failed_loads_of_run`, by the accounts of `Ran`.
-/
import LiveQuery.Display.Wide
import LiveQuery.Proofs.Desktop.Runs

namespace LiveQuery

namespace Desktop

section

variable {τ : Type} [Time τ] [Glyphs]

omit [Glyphs] in
/-- The loading changes nothing of the window but the clock and what it keeps for itself. -/
theorem work_eq (w : Window τ) :
    ∃ clock loader reasons, w.work = { w with clock, loader, reasons } := by
  unfold Window.work
  rcases w.loader with - | path | - | failure
  · exact ⟨_, _, _, rfl⟩
  · dsimp only
    rcases Document.load w.folder .terminal (some path) with e | ⟨doc, name⟩ <;>
      exact ⟨_, _, _, rfl⟩
  · exact ⟨_, _, _, rfl⟩
  · exact ⟨_, _, _, rfl⟩

/-- **A load that fails is reported as long as its reason is held.**  In every run in which the
window is not closed, the loads that have failed are those that the user has been warned of, those
whose reason was let go of too early, and those that wait for their alarm; of the second kind each
waits for its alarm or has broken it down.  A reason is held exactly as long as its loading has not
let go of it.  An alarm warns the user if its reason is held, and otherwise adds nothing but the
notice of its breakdown; a step of the loading touches no session and nothing that is shown.  As
long as nobody is warned the state is not that of a failure, and the loading is shown until another
document is opened. -/
theorem failed_loads_of_run (evaluator : Evaluator) (folder : Folder) (immediate recording : Bool)
    (paneWidth charWidth : Int) {as : List Action} (hopen : .close ∉ as) :
    let start : Window τ := .started evaluator folder immediate recording paneWidth charWidth
    let w := afterAll as start
    (w.notices.countP Notice.isWarning + missesOf as start +
        w.waiting (Alarm.isHeld w.reasons) = failuresOf as start ∧
      w.notices.count lostNotice + w.waiting (Alarm.isLost w.reasons) = missesOf as start) ∧
    (∀ n, (w.reason? n).isSome ↔ w.loader = .ends (some n)) ∧
    (∀ (n : Nat) (w' : Window τ), Window.guarded (Alarm.notLoaded n).answer w' =
      match w'.reason? n with
      | some e => (some (), w'.warned e)
      | none => (none, w'.notice lostNotice)) ∧
    (∀ w' : Window τ, ∃ clock loader reasons,
      (Action.work.perform w').2 = { w' with clock, loader, reasons }) ∧
    (w.notices.countP Notice.isWarning = 0 → w.status ≠ statusLine notLoadedState) ∧
    ∀ bs : List Action, .close ∉ bs → w.busy = true →
      (afterAll bs w).notices.countP Notice.isWarning = w.notices.countP Notice.isWarning →
      (afterAll bs w).busy = true ∨ w.desks.length < (afterAll bs w).desks.length := by
  intro start w
  have hstart : start.Sound := Window.sound_started _ _ _ _ _ _
  obtain ⟨opens, told, hran, -⟩ := ran_after hopen hstart
  have hsound : w.Sound := hran.sound hstart
  have hnotices : w.notices = told := hran.notices
  have hquiet {l : List Notice} (h : l.countP Notice.isWarning = 0) :
      ∀ n ∈ l, n.isWarning = false :=
    fun n hn => Bool.eq_false_iff.mpr (List.countP_eq_zero.mp h n hn)
  refine ⟨⟨?_, ?_⟩, hsound.held, guarded_notLoaded, work_eq, fun hnone => ?_,
    fun bs hclose hbusy hcount => ?_⟩
  · rw [hnotices]
    exact hran.warnings.trans (Nat.zero_add _)
  · rw [hnotices]
    exact hran.losses.trans (Nat.zero_add _)
  · rw [hnotices] at hnone
    exact hran.status (hquiet hnone) fun hs => absurd (statusLine_inj hs) (by decide)
  · obtain ⟨opens', told', hran', -⟩ := ran_after hclose hsound
    have hlength : (afterAll bs w).desks.length = w.desks.length + opens' := hran'.opened
    rw [hran'.notices, List.countP_append] at hcount
    exact (hran'.busy (hquiet (by omega)) hbusy).imp_right fun hopened => by omega

end

/-- Behind a document, a file that does not exist is chosen twice: the first time the alarm goes off
while the reason is held, and the second time when the loading has ended. -/
theorem failed_loads_of_second :
    let folder : Folder := .ofNames [("a.json".toList, [49])] []
    let start : Window ℚ :=
      .started ⟨fun _ => .ok (.onValue fun v => [.value v])⟩ folder true false 400 10
    let as : List Action :=
      [.choose "a.json".toList, .work, .work, .advance 0,
       .choose "b.json".toList, .work, .advance 0, .work, .work,
       .choose "b.json".toList, .work, .work, .work, .advance 0]
    let w := afterAll as start
    .close ∉ as ∧ failuresOf as start = 2 ∧ missesOf as start = 1 ∧
      w.notices.countP Notice.isWarning = 1 ∧ w.notices.count lostNotice = 1 ∧ w.busy = true := by
  intro folder start as w
  have hopen : .close ∉ as := by simp [as]
  have hfailures : failuresOf as start = 2 := by decide +kernel
  have hmisses : missesOf as start = 1 := by decide +kernel
  have hwaiting : w.waiting (Alarm.isFailure fun _ => true) = 0 := by decide +kernel
  have hnone := (waiting_held_add_lost w.reasons w).trans hwaiting
  have hbalance : w.notices.countP Notice.isWarning + missesOf as start +
      w.waiting (Alarm.isHeld w.reasons) = failuresOf as start ∧
      w.notices.count lostNotice + w.waiting (Alarm.isLost w.reasons) = missesOf as start :=
    (failed_loads_of_run _ folder true false 400 10 hopen).1
  exact ⟨hopen, hfailures, hmisses, by omega, by omega, by decide +kernel⟩

/-- A file that does not exist is chosen first, and its loading ends before the alarm goes off:
nothing is told of the failure, and the loading is shown on. -/
theorem missing_file_unreported :
    let start : Window ℚ :=
      .started ⟨fun _ => .ok (.onValue fun v => [.value v])⟩ {} true false 400 10
    let as : List Action := [.choose "missing.json".toList, .work, .work, .work, .advance 0]
    let w := afterAll as start
    failuresOf as start = 1 ∧ w.loader = .idle ∧ w.waiting (Alarm.isFailure fun _ => true) = 0 ∧
      w.busy = true ∧ w.status = statusLine loadingState ∧ w.log = greeting ++ [Text.newline] ∧
      w.notices = [.asked fileQuestion, lostNotice] := by
  decide +kernel

end Desktop

end LiveQuery
