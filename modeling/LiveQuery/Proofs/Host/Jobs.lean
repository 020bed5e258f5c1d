/-
LiveQuery/Proofs/Host/Jobs.lean

Jobs that end as soon as the command is over that has submitted them.

A host whose background is immediate tells each job to end, in the order of their submission.

Main results: all jobs have ended then (`ended_completeAll`), and what the end of each job keeps is
kept (`completeAll_induction`).
-/
import LiveQuery.Host.Looped
import LiveQuery.Proofs.Dispatch.Moves

namespace LiveQuery

namespace Looped

open Dispatcher

variable {τ : Type} [Glyphs]

/-- A job that is told to end has ended, and the others are as they were. -/
theorem getElem?_complete {d : Desk τ} {i k : Nat} {j : Job}
    (hj : (d.complete Session.hooks i).jobs[k]? = some j) :
    if k = i then j.ended = true else d.jobs[k]? = some j := by
  rcases complete_cases Session.hooks i d with
    ⟨hended, he⟩ | ⟨job, seq, text, hi, -, -, he⟩ | ⟨job, path, f, hi, -, -, -, he⟩
  · rw [he] at hj
    split
    · next hk =>
      subst hk
      rcases ho : j.ended with - | -
      · exact absurd (hended j hj ho).1 (by simp [Session.hooks])
      · rfl
    · exact hj
  all_goals
    obtain ⟨hlt, -⟩ := List.getElem?_eq_some_iff.mp hi
    rw [he] at hj
    dsimp only at hj
    split
    · next hk =>
      rw [hk, List.getElem?_set_self hlt] at hj
      rw [← Option.some.inj hj]
    · next hk => rwa [List.getElem?_set_ne (Ne.symm hk)] at hj

theorem length_complete (d : Desk τ) (i : Nat) :
    (d.complete Session.hooks i).jobs.length = d.jobs.length := by
  rcases complete_cases Session.hooks i d with
    ⟨-, he⟩ | ⟨job, seq, text, -, -, -, he⟩ | ⟨job, path, f, -, -, -, -, he⟩
  · rw [he]
  all_goals
    rw [he]
    exact List.length_set

/-- The jobs before a position have ended, once they have been told to. -/
theorem ended_of_lt (d : Desk τ) (n : Nat) {k : Nat} (hk : k < n) {j : Job}
    (hj : ((List.range n).foldl (fun d i => d.complete Session.hooks i) d).jobs[k]? = some j) :
    j.ended = true := by
  induction n generalizing j with
  | zero => omega
  | succ n ih =>
    rw [List.range_succ, List.foldl_append] at hj
    have hlast := getElem?_complete hj
    split at hlast
    · exact hlast
    · exact ih (by omega) hlast

/-- What the end of each job keeps, the end of all jobs keeps. -/
theorem completeAll_induction {P : Desk τ → Prop} {d : Desk τ} (h : P d)
    (hstep : ∀ d i, P d → P (d.complete Session.hooks i)) : P (completeAll d) := by
  unfold completeAll
  generalize List.range d.jobs.length = is
  induction is generalizing d with
  | nil => exact h
  | cons i rest ih => exact ih (hstep d i h)

theorem ended_completeAll (d : Desk τ) : ∀ j ∈ (completeAll d).jobs, j.ended = true := by
  intro j hj
  have hlength : (completeAll d).jobs.length = d.jobs.length :=
    completeAll_induction (P := fun d' => d'.jobs.length = d.jobs.length) rfl
      fun d' i h => (length_complete d' i).trans h
  obtain ⟨k, hk⟩ := List.mem_iff_getElem?.mp hj
  obtain ⟨hlt, -⟩ := List.getElem?_eq_some_iff.mp hk
  exact ended_of_lt d d.jobs.length (by omega) hk

end Looped

end LiveQuery
