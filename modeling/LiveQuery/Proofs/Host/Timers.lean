/-
LiveQuery/Proofs/Host/Timers.lean

Timers and message loops as the callbacks that they still hold.

Design.  The timers of a clock have different numbers, since each is given the next one when it is
started; so the one that is taken off the clock by its number is the one that has come first, and
nothing else is lost.  A loop holds its callbacks in two places, its queue and its timers: putting
some on it adds them to one or the other (`Gains`), letting time pass moves them between the two
(`Passes`), and taking one is the only way by which they become fewer (`Hands`).  On exact times it
can be said when the clock stands where.

Main result: `hands_next?`, all that waiting for a callback does.
-/
import Mathlib.Algebra.Order.Ring.Rat
import Mathlib.Data.List.Perm.Basic
import Mathlib.Tactic.Linarith
import LiveQuery.Host.EventLoop

namespace LiveQuery

/-! ### Exact times -/

namespace Time

@[simp] theorem zero_rat : (zero : ℚ) = 0 := rfl

@[simp] theorem add_rat (s t : ℚ) : add s t = s + t := rfl

@[simp] theorem sub_rat (s t : ℚ) : sub s t = s - t := rfl

@[simp] theorem le_rat (s t : ℚ) : le s t = true ↔ s ≤ t := decide_eq_true_iff

theorem ofMillis_rat (n : Int) : (ofMillis n : ℚ) = n / 1000 := rfl

theorem le_slices_rat (t : ℚ) : t * 20 ≤ (slices t : ℚ) := by
  have hceil : t * 20 ≤ ((t * 20).ceil : ℚ) := Rat.le_ceil
  have hnat : (t * 20).ceil ≤ ((t * 20).ceil.toNat : Int) := Int.self_le_toNat _
  exact hceil.trans (by exact_mod_cast hnat)

@[simp] theorem later_rat (s t : ℚ) : later s t = max s t := by
  unfold later
  split
  · next h => exact (max_eq_left ((le_rat t s).mp h)).symm
  · next h => exact (max_eq_right (le_of_not_ge fun hts => h ((le_rat t s).mpr hts))).symm

@[simp] theorem earlier_rat (s t : ℚ) : earlier s t = min s t := by
  unfold earlier
  split
  · next h => exact (min_eq_left ((le_rat s t).mp h)).symm
  · next h => exact (min_eq_right (le_of_not_ge fun hst => h ((le_rat s t).mpr hst))).symm

@[simp] theorem isZero_rat (t : ℚ) : isZero t = true ↔ t = 0 := by
  rw [isZero, Bool.and_eq_true, le_rat, le_rat, zero_rat, ← le_antisymm_iff]

end Time

/-! ### Timers -/

namespace Timers

variable {τ κ : Type}

/-- The timers on a clock have different numbers, which have been given out. -/
structure Numbered (t : Timers τ κ) : Prop where
  nodup : (t.pending.map Timer.number).Nodup
  lt : ∀ p ∈ t.pending, p.number < t.started

/-- The timer that has a number is the only one without which the others are left. -/
theorem perm_cons_filter {p : Timer τ κ} {l : List (Timer τ κ)} (hl : (l.map Timer.number).Nodup)
    (hp : p ∈ l) : l.Perm (p :: l.filter fun q => q.number ≠ p.number) := by
  induction l with
  | nil => cases hp
  | cons q rest ih =>
    obtain ⟨hq, hrest⟩ := List.nodup_cons.mp hl
    rcases List.mem_cons.mp hp with rfl | hp
    · have hall : rest.filter (fun q => q.number ≠ p.number) = rest := by
        refine List.filter_eq_self.mpr fun q hmem => ?_
        exact decide_eq_true fun he => hq (he ▸ List.mem_map_of_mem hmem)
      rw [List.filter_cons_of_neg (by simp), hall]
    · have hne : q.number ≠ p.number := fun he => hq (he ▸ List.mem_map_of_mem hp)
      rw [List.filter_cons_of_pos (by simpa using hne)]
      exact ((ih hrest hp).cons q).trans (.swap p q _)

variable [Time τ]

theorem numbered_atZero : (atZero : Timers τ κ).Numbered := ⟨List.nodup_nil, by simp [atZero]⟩

theorem Numbered.start {t : Timers τ κ} (h : t.Numbered) (delay : τ) (action : κ) :
    (t.start delay action).Numbered where
  nodup := by
    rw [Timers.start, List.map_append]
    refine List.nodup_append.mpr ⟨h.nodup, by simp, fun n hn m hm he => ?_⟩
    -- the number of the new timer has not been given out
    obtain ⟨p, hp, rfl⟩ := List.mem_map.mp hn
    have hm : m = t.started := List.mem_singleton.mp hm
    exact absurd (h.lt p hp) (by omega)
  lt p hp := by
    rcases List.mem_append.mp hp with hp | hp
    · exact Nat.lt_succ_of_lt (h.lt p hp)
    · rw [List.mem_singleton.mp hp]
      exact Nat.lt_succ_self _

omit [Time τ] in
theorem Numbered.cancel {t : Timers τ κ} (h : t.Numbered) (n : Nat) : (t.cancel n).Numbered where
  nodup := h.nodup.sublist ((List.filter_sublist ..).map _)
  lt p hp := h.lt p (List.mem_of_mem_filter hp)

theorem first?_mem {limit : τ} {p : Timer τ κ} {l : List (Timer τ κ)}
    (h : first? limit l = some p) : p ∈ l := by
  induction l generalizing p with
  | nil => cases h
  | cons q rest ih =>
    rw [first?] at h
    rcases hrest : first? limit rest with - | r <;> rw [hrest] at h <;> dsimp only at h <;>
      split at h <;> cases h
    · exact List.mem_cons_self
    · exact List.mem_cons_self
    · exact List.mem_cons_of_mem q (ih hrest)

/-- The timer that goes off is taken off the clock, which moves on to it. -/
theorem Numbered.pop? {t t' : Timers τ κ} (h : t.Numbered) {limit : τ} {action : κ}
    (hpop : t.pop? limit = some (action, t')) :
    ∃ p, first? limit t.pending = some p ∧ p.action = action ∧
      t.pending.Perm (p :: t'.pending) ∧ t'.now = Time.later t.now p.due ∧ t'.Numbered := by
  unfold Timers.pop? at hpop
  split at hpop
  · cases hpop
  · next p hp =>
    cases hpop
    exact ⟨p, hp, rfl, perm_cons_filter h.nodup (first?_mem hp), rfl, { h.cancel p.number with }⟩

theorem first?_of_pop?_none {t : Timers τ κ} {limit : τ} (h : t.pop? limit = none) :
    first? limit t.pending = none := by
  unfold Timers.pop? at h
  split at h
  · assumption
  · cases h

/-- Where no timer is due by a time, all are due after it. -/
theorem due_of_first?_none {limit : ℚ} {l : List (Timer ℚ κ)} (h : first? limit l = none) :
    ∀ p ∈ l, limit < p.due := by
  induction l with
  | nil => simp
  | cons q rest ih =>
    rw [first?] at h
    rcases hrest : first? limit rest with - | r <;> rw [hrest] at h <;> dsimp only at h <;>
      split at h <;> cases h
    next hq =>
    exact List.forall_mem_cons.mpr ⟨not_le.mp fun hle => hq ((Time.le_rat _ _).mpr hle), ih hrest⟩

end Timers

/-! ### Loops -/

namespace EventLoop

variable {κ : Type} {l l' l'' : EventLoop ℚ κ}

/-- The callbacks that a loop still has to run. -/
def callbacks {τ : Type} (l : EventLoop τ κ) : List κ :=
  l.queue ++ l.timers.pending.map Timer.action

/-- A loop that is open, with timers of different numbers. -/
structure Sound {τ : Type} (l : EventLoop τ κ) : Prop where
  isOpen : l.closed = false
  numbered : l.timers.Numbered

/-- Time passes: timers go off and their callbacks wait. -/
structure Passes (l l' : EventLoop ℚ κ) : Prop where
  sound : l'.Sound
  callbacks : l'.callbacks.Perm l.callbacks
  timers : l'.timers.pending ⊆ l.timers.pending
  now_le : l.now ≤ l'.now

/-- Timers go off: the clock stands where it stood or where one of them was due. -/
structure Fires (l l' : EventLoop ℚ κ) : Prop extends Passes l l' where
  now_at : l'.now = l.now ∨ ∃ p ∈ l.timers.pending, l'.now = p.due

theorem Fires.refl (h : l.Sound) : Fires l l :=
  ⟨⟨h, .refl _, List.Subset.refl _, le_refl _⟩, .inl rfl⟩

theorem Fires.trans (h : Fires l l') (h' : Fires l' l'') : Fires l l'' where
  sound := h'.sound
  callbacks := h'.callbacks.trans h.callbacks
  timers := List.Subset.trans h'.timers h.timers
  now_le := h.now_le.trans h'.now_le
  now_at := by
    rcases h'.now_at with he | ⟨p, hp, he⟩
    · exact he ▸ h.now_at
    · exact .inr ⟨p, h.timers hp, he⟩

/-- A timer goes off: its callback waits behind the others. -/
theorem fires_fireOne? (hl : l.Sound) {limit : ℚ} (h : l.fireOne? limit = some l') :
    Fires l l' ∧ l'.queue ≠ [] ∧ l'.timers.pending.length + 1 = l.timers.pending.length := by
  obtain ⟨⟨action, timers⟩, hpop, rfl⟩ := Option.map_eq_some_iff.mp h
  obtain ⟨p, -, rfl, hperm, hnow, hnumbered⟩ := hl.numbered.pop? hpop
  have hl' : callSoon p.action { l with timers } =
      { l with timers, queue := l.queue ++ [p.action] } := by
    simp [callSoon, hl.isOpen]
  dsimp only
  rw [hl']
  have hcallbacks :
      (l.queue ++ [p.action] ++ timers.pending.map Timer.action).Perm l.callbacks := by
    rw [List.append_assoc]
    exact ((hperm.map Timer.action).append_left l.queue).symm
  have hnow' : timers.now = max l.now p.due := hnow.trans (Time.later_rat _ _)
  refine ⟨⟨⟨⟨hl.isOpen, hnumbered⟩, hcallbacks, ?_, ?_⟩, ?_⟩, by simp, ?_⟩
  · exact fun q hq => hperm.symm.subset (List.mem_cons_of_mem p hq)
  · show l.now ≤ timers.now
    rw [hnow']
    exact le_max_left ..
  · have hp : p ∈ l.timers.pending := hperm.symm.subset List.mem_cons_self
    show timers.now = l.now ∨ ∃ q ∈ l.timers.pending, timers.now = q.due
    rw [hnow']
    exact (max_choice l.now p.due).imp_right fun he => ⟨p, hp, he⟩
  · rw [hperm.length_eq]
    rfl

theorem fires_fireUpTo (hl : l.Sound) (limit : ℚ) (bound : Nat) :
    Fires l (l.fireUpTo limit bound) := by
  induction bound generalizing l with
  | zero => exact .refl hl
  | succ bound ih =>
    rw [fireUpTo]
    split
    · next l' h =>
      have hone := (fires_fireOne? hl h).1
      exact hone.trans (ih hone.sound)
    · exact .refl hl

/-- As long as the queue is empty timers go off; if it is still empty then, none is due. -/
theorem fires_fireWhileEmpty (hl : l.Sound) (limit : ℚ) {bound : Nat}
    (hbound : l.timers.pending.length ≤ bound) :
    Fires l (l.fireWhileEmpty limit bound) ∧
      ((l.fireWhileEmpty limit bound).queue = [] →
        (l.fireWhileEmpty limit bound).now = l.now ∧
        ∀ p ∈ (l.fireWhileEmpty limit bound).timers.pending, limit < p.due) := by
  induction bound generalizing l with
  | zero =>
    have hnone : l.timers.pending = [] := List.eq_nil_of_length_eq_zero (by omega)
    refine ⟨.refl hl, fun _ => ⟨rfl, ?_⟩⟩
    simp [fireWhileEmpty, hnone]
  | succ bound ih =>
    rw [fireWhileEmpty]
    split
    · next hqueue => exact ⟨.refl hl, fun hempty => absurd hqueue (by simp [hempty])⟩
    · split
      · next l' h =>
        obtain ⟨hone, hqueue, hlength⟩ := fires_fireOne? hl h
        obtain ⟨hrest, -⟩ := ih (l := l') hone.sound (by omega)
        refine ⟨hone.trans hrest, fun hempty => ?_⟩
        -- a callback that waits is not taken by another timer
        have hstop : l'.fireWhileEmpty limit bound = l' := by
          cases bound with
          | zero => rfl
          | succ bound => simp [fireWhileEmpty, hqueue]
        exact absurd (hstop ▸ hempty) hqueue
      · next h =>
        refine ⟨.refl hl, fun _ => ⟨rfl, ?_⟩⟩
        rw [fireOne?, Option.map_eq_none_iff] at h
        exact Timers.due_of_first?_none (Timers.first?_of_pop?_none h)

/-- Callbacks are put on a loop; the timers that are started for them are due at such times. -/
structure Gains (P : ℚ → Prop) (cs : List κ) (l l' : EventLoop ℚ κ) : Prop where
  sound : l'.Sound
  now : l'.now = l.now
  callbacks : l'.callbacks.Perm (l.callbacks ++ cs)
  timers : ∀ p ∈ l'.timers.pending, p ∈ l.timers.pending ∨ P p.due

section Gains

variable {P : ℚ → Prop}

theorem Gains.refl (hl : l.Sound) : Gains P [] l l :=
  ⟨hl, rfl, .of_eq (List.append_nil _).symm, fun _ hp => .inl hp⟩

theorem Gains.trans {cs cs' : List κ} (h : Gains P cs l l') (h' : Gains P cs' l' l'') :
    Gains P (cs ++ cs') l l'' where
  sound := h'.sound
  now := h'.now.trans h.now
  callbacks := by
    rw [← List.append_assoc]
    exact h'.callbacks.trans (h.callbacks.append_right cs')
  timers p hp := (h'.timers p hp).elim (h.timers p) .inr

theorem gains_callSoon (hl : l.Sound) (c : κ) : Gains P [c] l (l.callSoon c) := by
  have he : l.callSoon c = { l with queue := l.queue ++ [c] } := by simp [callSoon, hl.isOpen]
  rw [he]
  refine ⟨{ hl with }, rfl, ?_, fun _ hp => .inl hp⟩
  unfold callbacks
  rw [List.append_assoc, List.append_assoc]
  exact List.perm_append_comm.append_left _

theorem gains_callLater (hl : l.Sound) {delay : ℚ} (c : κ)
    (hdue : P (l.now + max 0 delay)) : Gains P [c] l (l.callLater delay c) := by
  refine ⟨⟨hl.isOpen, hl.numbered.start _ _⟩, rfl, ?_, fun p hp => ?_⟩
  · rw [EventLoop.callbacks, EventLoop.callbacks, List.append_assoc, callLater, Timers.start,
      List.map_append]
    rfl
  · refine (List.mem_append.mp hp).imp_right fun hp => ?_
    rw [List.mem_singleton.mp hp]
    show P (Time.add l.now (Time.later Time.zero delay))
    rwa [Time.add_rat, Time.later_rat, Time.zero_rat]

/-- Where each of some things puts its callback on the loop, all of them do. -/
theorem gains_foldl {ι : Type} {is : List ι} {f : EventLoop ℚ κ → ι → EventLoop ℚ κ} {g : ι → κ}
    (hf : ∀ i ∈ is, ∀ l' : EventLoop ℚ κ, l'.Sound → l'.now = l.now → Gains P [g i] l' (f l' i))
    (hl : l.Sound) : Gains P (is.map g) l (is.foldl f l) := by
  induction is generalizing l with
  | nil => exact .refl hl
  | cons i rest ih =>
    have hfirst := hf i List.mem_cons_self l hl rfl
    refine hfirst.trans (ih (fun j hj l' hl' hnow => ?_) hfirst.sound)
    exact hf j (List.mem_cons_of_mem i hj) l' hl' (hnow.trans hfirst.now)

end Gains

/-- Waiting for a callback hands one over or lets the timeout pass, at whose end nothing is due. -/
structure Hands (timeout : ℚ) (l : EventLoop ℚ κ) (c? : Option κ) (l' : EventLoop ℚ κ) : Prop where
  sound : l'.Sound
  callbacks : (c?.toList ++ l'.callbacks).Perm l.callbacks
  timers : l'.timers.pending ⊆ l.timers.pending
  now_le : l.now ≤ l'.now
  now_at : c? ≠ none → l'.now = l.now ∨ ∃ p ∈ l.timers.pending, l'.now = p.due
  passed : c? = none → 0 < timeout →
    l'.now = l.now + timeout ∧ l'.queue = [] ∧ ∀ p ∈ l'.timers.pending, l'.now < p.due

/-- Where nothing was handed over, only time has passed. -/
theorem Hands.passes {timeout : ℚ} (h : Hands timeout l none l') : Passes l l' :=
  { h with callbacks := h.callbacks }

/-- After timers have gone off, the callback at the front is handed over. -/
theorem Fires.hands_pop? {timeout : ℚ} (h : Fires l l') (hqueue : l'.queue ≠ [] ∨ timeout = 0) :
    Hands timeout l l'.pop?.1 l'.pop?.2 := by
  unfold pop?
  rcases hq : l'.queue with - | ⟨c, rest⟩
  · refine { h with callbacks := ?_, now_at := by simp, passed := ?_ }
    · exact h.callbacks
    · intro _ hpos
      exact absurd (hqueue.resolve_left (by simp [hq])) hpos.ne'
  · have hcallbacks : l'.callbacks = c :: (rest ++ l'.timers.pending.map Timer.action) := by
      rw [EventLoop.callbacks, hq]
      rfl
    refine { h with callbacks := ?_, now_at := fun _ => h.now_at, passed := by simp, sound := ?_ }
    · exact { h.sound with }
    · exact (List.Perm.of_eq hcallbacks.symm).trans h.callbacks

/-- **All that waiting for a callback does.** -/
theorem hands_next? (hl : l.Sound) {timeout : ℚ} (ht : 0 ≤ timeout) :
    Hands timeout l (l.next? timeout).1 (l.next? timeout).2 := by
  have hdue : Fires l (l.fireDue l.now) := fires_fireUpTo hl l.now _
  unfold next?
  split
  · next hzero => exact hdue.hands_pop? (.inr ((Time.isZero_rat timeout).mp hzero))
  · dsimp only
    obtain ⟨hwait, hempty⟩ := fires_fireWhileEmpty hdue.sound (l.timers.after timeout)
      (Nat.le_refl (l.fireDue l.now).timers.pending.length)
    have hall := hdue.trans hwait
    split
    · next hqueue =>
      obtain ⟨hnow, hlate⟩ := hempty (List.isEmpty_iff.mp hqueue)
      have hlimit : l.timers.after timeout = l.now + timeout := rfl
      refine ⟨⟨hall.sound.isOpen, { hall.sound.numbered with }⟩, hall.callbacks, hall.timers, ?_,
        fun hne => absurd rfl hne, fun _ _ => ⟨hlimit, List.isEmpty_iff.mp hqueue, hlate⟩⟩
      show l.now ≤ l.timers.after timeout
      rw [hlimit]
      linarith
    · next hqueue => exact hall.hands_pop? (.inl fun hnil => hqueue (by simp [hnil]))

/-- Moving the clock on lets time pass. -/
theorem passes_advance (hl : l.Sound) {span : ℚ} (hspan : 0 ≤ span) :
    Passes l (l.advance span) := by
  have hfires := fires_fireUpTo hl (l.timers.after span) l.timers.pending.length
  refine ⟨⟨hfires.sound.isOpen, { hfires.sound.numbered with }⟩, hfires.callbacks,
    hfires.timers, ?_⟩
  show l.now ≤ l.now + span
  linarith

end EventLoop

end LiveQuery
