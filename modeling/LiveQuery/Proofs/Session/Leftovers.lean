/-
LiveQuery/Proofs/Session/Leftovers.lean

What the host still has to do after the end of a session.

Design.  Before the end the newest number has been dispatched, or its alarm is set: one of the two
is true of a new session, and each move keeps it (`Awaits.next`).  After the end nothing is minted
any more, alarms only go off, and of all that the host may do just the alarm of the newest number
raises a fault, since it hands a run to a background that takes none.

Main result: `leftovers_raise_iff`.
-/
import LiveQuery.Display.Wide
import LiveQuery.Proofs.Dispatch.Ended
import LiveQuery.Proofs.Session.Inputs

namespace LiveQuery

namespace Dispatcher

variable {τ χ : Type} [Time τ] {h : Hooks χ} {d : Dispatcher τ χ}

/-! ### The newest number -/

/-- The numbers are sound, and the newest one has been dispatched or waits for its alarm. -/
structure Awaits (d : Dispatcher τ χ) : Prop where
  sound : d.Sound
  newest : d.minted = d.active ∨ d.minted ∈ d.alarms

namespace Awaits

omit [Time τ] in
/-- At the end, the alarm of the newest number is set exactly if it has not been dispatched. -/
theorem mem_alarms_iff (ha : d.Awaits) :
    d.shutDown.minted ∈ d.shutDown.alarms ↔ d.shutDown.minted ≠ d.shutDown.active := by
  rw [shutDown_eq]
  constructor
  · intro hmem he
    exact ha.sound.alarm_ne (he ▸ hmem)
  · exact ha.newest.resolve_left

theorem fired (ha : d.Awaits) (i : Nat) : (d.fired h i).Awaits := by
  refine ⟨ha.sound.fired i, ?_⟩
  rcases fired_cases h i d with ⟨-, he⟩ | ⟨-, he⟩ | ⟨seq, hi, hseq, he⟩
  · rw [he]
    exact ha.newest
  · rw [he]
    exact .inl rfl
  · rw [he]
    -- the alarm that goes off is another one
    refine ha.newest.imp_right fun hmem => ?_
    have hrest := List.mem_cons.mp ((perm_cons_eraseIdx hi).mem_iff.mp hmem)
    exact hrest.resolve_left (Ne.symm hseq)

omit [Time τ] in
theorem same (ha : d.Awaits) {d' : Dispatcher τ χ} (hs : d'.Sound) (hd' : SameNumbers d d') :
    d'.Awaits where
  sound := hs
  newest := by
    rw [hd'.minted, hd'.active, hd'.alarms]
    exact ha.newest

/-- **Every move keeps the newest number in its place.** -/
theorem next (ha : d.Awaits) (m : Move τ χ) : (m.next h d).Awaits := by
  have hs : (m.next h d).Sound := ha.sound.next m
  cases m with
  | queue => exact ⟨hs, .inr (List.mem_append_right _ (List.mem_singleton_self _))⟩
  | executeNow => exact ⟨hs, .inl rfl⟩
  | edit f => exact ⟨hs, ha.newest⟩
  | requestKeys path => exact ha.same hs (sameNumbers_requested h d path)
  | fire i => exact ha.fired i
  | complete i => exact ha.same hs (sameNumbers_complete h d i)
  | deliver i => exact ha.same hs (sameNumbers_delivered ha.sound.no_debounce i)
  | tick now => exact ⟨hs, ha.newest⟩

end Awaits

end Dispatcher

namespace Desk

open Dispatcher

section

variable {τ : Type} [Time τ] [Glyphs] {d : Desk τ}

/-! ### After the end -/

/-- Of all that the host may do, only the alarm of the newest number raises a fault. -/
theorem raises_iff (he : d.Ended) (m : HostMove τ) (f : Fault) :
    (m.move.act Session.hooks d).1 = .error f ↔
      f = .shutDown ∧ ∃ i, m = .fire i ∧ d.alarms[i]? = some d.minted := by
  cases m with
  | fire i =>
    show (fire Session.hooks i d).1 = _ ↔ _
    rcases fire_ended (h := Session.hooks) he.shut i with ⟨hi, hf⟩ | ⟨hi, hf⟩ | ⟨seq, hi, hseq, hf⟩
    · rw [hf]
      simp [hi]
    · rw [hf]
      simp [hi, eq_comm]
    · rw [hf]
      simp [hi, hseq]
  | complete i =>
    show (Except.ok () : Except Fault Unit) = .error f ↔ _
    simp
  | deliver i =>
    show (deliverAt Session.hooks i d).1 = _ ↔ _
    rw [deliverAt_ended he]
    simp
  | tick now =>
    show (Except.ok () : Except Fault Unit) = .error f ↔ _
    simp

/-- The host mints nothing, and sets no alarm. -/
theorem next_leftovers (he : d.Ended) (m : HostMove τ) :
    (m.next d).Ended ∧ (m.next d).minted = d.minted ∧ (m.next d).alarms ⊆ d.alarms := by
  refine ⟨he.act m.move, ?_⟩
  cases m with
  | fire i =>
    show (fire Session.hooks i d).2.minted = _ ∧ (fire Session.hooks i d).2.alarms ⊆ _
    have herase : d.alarms.eraseIdx i ⊆ d.alarms := (List.eraseIdx_sublist ..).subset
    rcases fire_ended (h := Session.hooks) he.shut i with ⟨-, hf⟩ | ⟨-, hf⟩ | ⟨seq, -, -, hf⟩
    · rw [hf]
      exact ⟨rfl, List.Subset.refl _⟩
    · rw [hf]
      exact ⟨rfl, herase⟩
    · rw [hf]
      exact ⟨rfl, herase⟩
  | complete i =>
    have hsame := sameNumbers_complete Session.hooks d i
    exact ⟨hsame.minted, hsame.alarms ▸ List.Subset.refl _⟩
  | deliver i =>
    have hsame := sameNumbers_delivered (h := Session.hooks) he.no_debounce i
    show (deliverAt Session.hooks i d).2.minted = _ ∧ (deliverAt Session.hooks i d).2.alarms ⊆ _
    rw [deliverAt_ended he]
    exact ⟨hsame.minted, hsame.alarms ▸ List.Subset.refl _⟩
  | tick now => exact ⟨rfl, List.Subset.refl _⟩

theorem afterHost_leftovers (he : d.Ended) (ms : List (HostMove τ)) :
    (afterHost ms d).Ended ∧ (afterHost ms d).minted = d.minted ∧
      (afterHost ms d).alarms ⊆ d.alarms := by
  induction ms generalizing d with
  | nil => exact ⟨he, rfl, List.Subset.refl _⟩
  | cons m rest ih =>
    obtain ⟨hended, hminted, halarms⟩ := next_leftovers he m
    obtain ⟨hended', hminted', halarms'⟩ := ih hended
    exact ⟨hended', hminted'.trans hminted, List.Subset.trans halarms' halarms⟩

/-- Where the alarm of the newest number is not set, the host raises nothing, whatever it does. -/
theorem perform_leftovers (he : d.Ended) (hnone : d.minted ∉ d.alarms) (ms : List (HostMove τ)) :
    (perform Session.hooks (ms.map HostMove.move) d).1 = .ok () := by
  induction ms generalizing d with
  | nil => rfl
  | cons m rest ih =>
    have hm : m.move.act Session.hooks d = (.ok (), m.next d) := by
      refine Prod.ext ?_ rfl
      rcases hr : (m.move.act Session.hooks d).1 with f | -
      · obtain ⟨-, i, -, hi⟩ := (raises_iff he m f).mp hr
        exact absurd (List.mem_of_getElem? hi) hnone
      · rfl
    obtain ⟨hended, hminted, halarms⟩ := next_leftovers he m
    have hrest := ih hended fun hmem => hnone (hminted ▸ halarms hmem)
    show ((m.move.act Session.hooks >>= fun _ =>
      perform Session.hooks (rest.map HostMove.move)) d).1 = _
    rw [bind_ok hm]
    exact hrest

/-- **What is left after the end raises no fault exactly where the newest number was dispatched.**
Whatever has happened to a session when it is ended, the host may do all that is left, in any order,
without a fault if and only if no number waits for its alarm that would be dispatched.  Otherwise
each thing it does raises a fault exactly if it is the alarm of the newest number. -/
theorem leftovers_raise_iff (source : Source) (name : Text) (capacity : Int) (recording : Bool)
    (es : List (Happening τ)) :
    let d := (after es (ofSession (Session.ofSource source name capacity) recording)).shutDown
    ((∀ ms : List (HostMove τ), (perform Session.hooks (ms.map HostMove.move) d).1 = .ok ()) ↔
      d.minted = d.active) ∧
    ∀ (ms : List (HostMove τ)) (m : HostMove τ) (f : Fault),
      (m.move.act Session.hooks (afterHost ms d)).1 = .error f ↔
        f = .shutDown ∧ ∃ i, m = .fire i ∧ (afterHost ms d).alarms[i]? = some d.minted := by
  intro d
  have hstart : (ofSession (Session.ofSource source name capacity) recording : Desk τ).Awaits :=
    ⟨sound_ofClient _ _ _, .inl rfl⟩
  have hbefore := ((Leads.refl _).after rfl es).keeps (fun _ m ha => ha.next m) hstart
  have hended : d.Ended := hbefore.sound.ended
  have hnewest : d.minted ∈ d.alarms ↔ d.minted ≠ d.active := hbefore.mem_alarms_iff
  refine ⟨⟨?_, ?_⟩, ?_⟩
  · intro hall
    by_contra hne
    obtain ⟨i, hi⟩ := List.getElem?_of_mem (hnewest.mpr hne)
    -- the alarm of the newest number alone raises a fault
    have hraises := (raises_iff hended (.fire i) .shutDown).mpr ⟨rfl, i, rfl, hi⟩
    have hfire : (perform Session.hooks [.fire i] d).1 = .error .shutDown :=
      congrArg Prod.fst (bind_error (f := fun _ => perform Session.hooks []) (Prod.ext hraises rfl))
    exact absurd ((hall [.fire i]).symm.trans hfire) (by simp)
  · intro heq ms
    exact perform_leftovers hended (fun hmem => hnewest.mp hmem heq) ms
  · intro ms m f
    obtain ⟨hended', hminted, -⟩ := afterHost_leftovers hended ms
    rw [raises_iff hended' m f, hminted]

end

/-- A filter is typed and the session is ended within the delay: the alarm that is left raises a
fault. -/
theorem leftover_raises :
    let evaluator : Evaluator := ⟨fun _ => .ok (.onValue fun v => [.value v])⟩
    let source : Source := ⟨evaluator, .object [(['a'], .int 1)], 0⟩
    let es : List (Happening Float) := [.input .start, .input (.setFilter ['.', 'a'])]
    let d := (after es (ofSession (Session.ofSource source [] 16) false)).shutDown
    (perform Session.hooks ([HostMove.fire 0].map HostMove.move) d).1 = .error .shutDown := by
  rfl

end Desk

end LiveQuery
