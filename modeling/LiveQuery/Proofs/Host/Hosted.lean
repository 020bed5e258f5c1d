/-
LiveQuery/Proofs/Host/Hosted.lean

A session on a loop is a session whose host is the loop.

What is proved of a session is proved of all that may happen to it, in whatever order its host takes
the alarms, the jobs and the completions.  A loop takes the alarms and the completions of its
session over and answers them from its own timers and its own queue.

Design.  A desk stands for a session on a loop if it is that session with the callbacks of the loop
still in front of its own alarms and completions (`Stands`).  The operations of a session only add
to both lists, so that they do not see what stands in front (`plus`), and a callback that the loop
answers is an alarm that goes off or a completion that is delivered.

Main result: `follows_afterAll`, that whatever is done with a session on a loop leads to a state
that a desk stands for which is led to by happenings.
-/
import LiveQuery.Proofs.Host.Settling

namespace LiveQuery

/-! ### More to come -/

namespace Dispatcher

variable {τ χ : Type}

/-- The state with alarms and completions in front of its own. -/
def plus (alarms : List Int) (posted : List Callback) (d : Dispatcher τ χ) : Dispatcher τ χ :=
  { d with alarms := alarms ++ d.alarms, posted := posted ++ d.posted }

section Plus

variable {h : Hooks χ} {d : Dispatcher τ χ} {alarms : List Int} {posted : List Callback}

theorem queue_plus (alarms : List Int) (posted : List Callback) (d : Dispatcher τ χ) :
    (d.plus alarms posted).queue = d.queue.plus alarms posted := by
  simp only [queue, mint, plus, List.append_assoc]

theorem complete_plus (i : Nat) :
    (d.plus alarms posted).complete h i = (d.complete h i).plus alarms posted := by
  unfold complete plus
  dsimp only
  rcases d.jobs[i]? with - | job
  · rfl
  · dsimp only
    split
    · rfl
    · rcases job.task with ⟨seq, text⟩ | path
      · simp only [List.append_assoc]
      · dsimp only
        rcases h.keysAt with - | f
        · rfl
        · simp only [List.append_assoc]

variable [Time τ]

theorem elapsed_plus (seq : Int) :
    (d.plus alarms posted).elapsed h seq = (d.elapsed h seq).plus alarms posted := by
  unfold elapsed
  show (if seq = d.minted then _ else _) = _
  split <;> rfl

theorem reacted_plus (c : Callback) :
    (d.plus alarms posted).reacted h c = (d.reacted h c).plus alarms posted := by
  cases c with
  | debounce seq => exact elapsed_plus seq
  | result seq o =>
    simp only [reacted, takeResult_eq]
    rfl
  | keys path answer =>
    simp only [reacted, answerKeys_eq]
    rfl

/-- An alarm in front that goes off is answered. -/
theorem fired_plus (posted : List Callback) {i : Nat} {seq : Int} (hi : alarms[i]? = some seq) :
    (d.plus alarms posted).fired h i =
      (d.reacted h (.debounce seq)).plus (alarms.eraseIdx i) posted := by
  obtain ⟨hlt, -⟩ := List.getElem?_eq_some_iff.mp hi
  have halarm : (alarms ++ d.alarms)[i]? = some seq := by rw [List.getElem?_append_left hlt, hi]
  have herase : (alarms ++ d.alarms).eraseIdx i = alarms.eraseIdx i ++ d.alarms :=
    List.eraseIdx_append_of_lt_length hlt _
  have he : (d.plus alarms posted).fired h i =
      (d.plus (alarms.eraseIdx i) posted).elapsed h seq := by
    unfold fired plus
    simp only [halarm, herase]
  rw [he]
  exact elapsed_plus seq

/-- A completion in front that is delivered is answered. -/
theorem delivered_plus (alarms : List Int) {i : Nat} {c : Callback} (hi : posted[i]? = some c) :
    (d.plus alarms posted).delivered h i =
      (d.reacted h c).plus alarms (posted.eraseIdx i) := by
  obtain ⟨hlt, -⟩ := List.getElem?_eq_some_iff.mp hi
  have hposted : (posted ++ d.posted)[i]? = some c := by rw [List.getElem?_append_left hlt, hi]
  have herase : (posted ++ d.posted).eraseIdx i = posted.eraseIdx i ++ d.posted :=
    List.eraseIdx_append_of_lt_length hlt _
  have he : (d.plus alarms posted).delivered h i =
      (d.plus alarms (posted.eraseIdx i)).reacted h c := by
    unfold delivered plus
    simp only [hposted, herase]
  rw [he]
  exact reacted_plus c

end Plus

end Dispatcher

namespace Desk

open Dispatcher

variable {τ : Type} [Glyphs] {d : Desk τ} {alarms : List Int} {posted : List Callback}

theorem fetched_plus : fetched (d.plus alarms posted) = (fetched d).plus alarms posted := by
  unfold fetched
  show (if d.client.keysPath ≠ some d.client.currentPath ∧
    d.awaited ≠ some d.client.currentPath then _ else _) = _
  split <;> rfl

variable [Time τ]

/-- An input does not see what stands in front. -/
theorem Input.next_plus (alarms : List Int) (posted : List Callback) (hd : d.shut = false)
    (i : Input) :
    i.next (d.plus alarms posted) = (i.next d).plus alarms posted := by
  have hplus : (d.plus alarms posted).shut = false := hd
  cases i with
  | start =>
    rw [Input.next, Input.next, start_eq hplus, start_eq hd]
    exact fetched_plus (d := ran d)
  | setFilter text =>
    rw [Input.next, Input.next, setFilter_eq hplus, setFilter_eq hd]
    have hqueue := queue_plus alarms posted (d.onClient (Session.setText text))
    exact (congrArg fetched hqueue).trans fetched_plus
  | tab =>
    rw [Input.next, Input.next, tab_eq hplus, tab_eq hd]
    show (if (tabbed d.client).filter ≠ d.client.filter then _ else _) = _
    have hqueue := queue_plus alarms posted (d.onClient tabbed)
    split
    · exact (congrArg fetched hqueue).trans fetched_plus
    · rfl
  | accept =>
    rw [Input.next, Input.next, accept_eq hplus, accept_eq hd]
    have haccepted : accepted? (d.plus alarms posted).client = accepted? d.client := rfl
    rw [haccepted]
    rcases accepted? d.client with - | text
    · rfl
    · exact fetched_plus (d := ran (d.onClient (settled text)))
  | pickRecent text =>
    rw [Input.next, Input.next, pickRecent_eq hplus, pickRecent_eq hd]
    exact fetched_plus (d := ran (d.onClient fun s =>
      { Session.setText text s with mode := .normal }))
  | runNow text =>
    rw [Input.next, Input.next, runNow_eq hplus, runNow_eq hd]
    rfl
  | select _ | cancel | scroll _ | scrollAcross _ | home | toEnd | resize _ => rfl
  | cycle step =>
    simp only [Input.next, Desk.cycle, session_bind]
    show ((if d.client.suggestions.isEmpty then _ else _ : Command τ _) _).2 = _
    split <;> rfl
  | commit =>
    simp only [Input.next, Desk.commit, session_bind]
    have houtcome : (d.plus alarms posted).client.outcome = d.client.outcome := rfl
    rw [houtcome]
    rcases d.client.outcome with raw | e
    · dsimp only
      split <;> rfl
    · rfl
  | visibleRows width height =>
    rcases width with - | w
    · rfl
    · simp only [Input.next, Desk.visibleRows, session_bind]
      show ((if w ≠ d.client.width then _ else _ : Command τ _) _).2 = _
      split <;> rfl

/-- Happenings keep the numbers of a desk sound. -/
theorem sound_next (hd : d.Sound) (hshut : d.shut = false) (e : Happening τ) : (e.next d).Sound :=
  ((Leads.refl d).next hshut e).keeps (fun _ m h => h.next m) hd

theorem after_append (es es' : List (Happening τ)) (d : Desk τ) :
    after (es ++ es') d = after es' (after es d) :=
  List.foldl_append

theorem afterHost_append (ms ms' : List (HostMove τ)) (d : Desk τ) :
    afterHost (ms ++ ms') d = afterHost ms' (afterHost ms d) :=
  List.foldl_append

theorem after_host (ms : List (HostMove τ)) (d : Desk τ) :
    after (ms.map .host) d = afterHost ms d :=
  List.foldl_map

end Desk

namespace Looped

open Dispatcher

variable [Glyphs]

/-! ### Desks that stand for sessions on a loop -/

/-- The desk is that of the session, with the callbacks of the loop in front of its own alarms and
completions. -/
structure Stands (d : Desk ℚ) (s : Looped ℚ) : Prop where
  sound : d.Sound
  plus : ∃ alarms posted, d = s.desk.plus alarms posted ∧
    (alarms.map Callback.debounce ++ posted).Perm s.loop.callbacks

/-- Happenings lead from a desk to one that stands for a session on a loop. -/
def Follows (d : Desk ℚ) (s : Looped ℚ) : Prop :=
  ∃ es : List (Desk.Happening ℚ), Stands (Desk.after es d) s

/-- What the host does leads from a desk to one that stands for a session on a loop. -/
def Serves (d : Desk ℚ) (s : Looped ℚ) : Prop :=
  ∃ ms : List (Desk.HostMove ℚ), Stands (Desk.afterHost ms d) s

variable {d : Desk ℚ} {s s' : Looped ℚ}

theorem Stands.serves (h : Stands d s) : Serves d s := ⟨[], h⟩

theorem Serves.trans (h : Serves d s) (hstep : ∀ d', Stands d' s → Serves d' s') :
    Serves d s' := by
  obtain ⟨ms, hs⟩ := h
  obtain ⟨ms', hs'⟩ := hstep _ hs
  exact ⟨ms ++ ms', by rwa [Desk.afterHost_append]⟩

theorem Serves.follows (h : Serves d s) : Follows d s := by
  obtain ⟨ms, hs⟩ := h
  exact ⟨ms.map .host, by rwa [Desk.after_host]⟩

theorem Stands.follows (h : Stands d s) : Follows d s := h.serves.follows

theorem Follows.trans (h : Follows d s) (hstep : ∀ d', Stands d' s → Follows d' s') :
    Follows d s' := by
  obtain ⟨es, hs⟩ := h
  obtain ⟨es', hs'⟩ := hstep _ hs
  exact ⟨es ++ es', by rwa [Desk.after_append]⟩

omit [Glyphs] in
theorem stands_fresh (source : Source) (name : Text) (capacity : Int) (recording immediate : Bool)
    (debounce : ℚ) :
    Stands (Desk.ofSession (Session.ofSource source name capacity) recording)
      (fresh (Desk.ofSession (Session.ofSource source name capacity) recording) immediate
        debounce) :=
  ⟨sound_ofClient _ _ _, [], [], rfl, .refl _⟩

namespace Stands

omit [Glyphs] in
theorem tick (h : Stands d s) (now : ℚ) :
    Stands { d with now } { s with desk := { s.desk with now } } := by
  obtain ⟨hsound, alarms, posted, rfl, hperm⟩ := h
  exact ⟨{ hsound with }, alarms, posted, rfl, hperm⟩

theorem input (h : Stands d s) (hshut : s.desk.shut = false) (i : Desk.Input) :
    Stands (i.next d) { s with desk := i.next s.desk } := by
  obtain ⟨hsound, alarms, posted, rfl, hperm⟩ := h
  have hnext := Desk.Input.next_plus (d := s.desk) alarms posted hshut i
  exact ⟨Desk.sound_next hsound hshut (.input i), alarms, posted, hnext, hperm⟩

theorem complete (h : Stands d s) (i : Nat) :
    Stands (d.complete Session.hooks i)
      { s with desk := s.desk.complete Session.hooks i } := by
  obtain ⟨hsound, alarms, posted, rfl, hperm⟩ := h
  exact ⟨hsound.complete i, alarms, posted, complete_plus i, hperm⟩

theorem completeAll (h : Stands d s) : Serves d { s with desk := completeAll s.desk } := by
  refine completeAll_induction (P := fun d' => Serves d { s with desk := d' }) h.serves ?_
  rintro d' i hd'
  exact hd'.trans fun d'' hs => ⟨[.complete i], hs.complete i⟩

/-- What is handed over to the loop stands in front then. -/
theorem handOver (h : Stands d s) (hl : s.loop.Sound) : Serves d (handOver s) := by
  obtain ⟨ended, hended⟩ : ∃ ended, ended = if s.immediate then Looped.completeAll s.desk
    else s.desk := ⟨_, rfl⟩
  have hjobs : Serves d { s with desk := ended } := by
    rw [hended]
    split
    · exact h.completeAll
    · exact h.serves
  refine hjobs.trans fun d' hd' => Stands.serves ?_
  obtain ⟨hsound, alarms, posted, rfl, hperm⟩ := hd'
  have hgains := gains_handed hl s.debounce ended.alarms ended.posted
  refine ⟨hsound, alarms ++ ended.alarms, posted ++ ended.posted, ?_, ?_⟩
  · rw [Looped.handOver, ← hended]
    simp only [Dispatcher.plus, List.append_nil]
  · rw [Looped.handOver, ← hended]
    refine List.Perm.trans ?_ hgains.callbacks.symm
    -- each callback is counted as often in front as on the loop
    classical
    refine List.perm_iff_count.mpr fun c => ?_
    have hcount := hperm.count_eq c
    simp only [List.map_append, List.count_append] at hcount ⊢
    omega

/-- A callback that the loop answers is an alarm that goes off or a completion that is delivered. -/
theorem answered (h : Stands d s) (hshut : s.desk.shut = false) {c : Callback}
    {l : EventLoop ℚ Callback} (hl : (c :: l.callbacks).Perm s.loop.callbacks) :
    Serves d { s with
      loop := l
      desk := { s.desk with now := l.now }.reacted Session.hooks c } := by
  obtain ⟨hsound, alarms, posted, rfl, hperm⟩ := h
  have hnow : Sound ({ s.desk with now := l.now }.plus alarms posted) := { hsound with }
  have htaken := hperm.trans hl.symm
  -- the callback stands in front, among the alarms or among the completions
  rcases List.mem_append.mp (htaken.symm.subset List.mem_cons_self) with hc | hc
  · obtain ⟨seq, hseq, rfl⟩ := List.mem_map.mp hc
    obtain ⟨i, hi⟩ := List.mem_iff_getElem?.mp hseq
    have hfired := fired_plus (h := Session.hooks) (d := { s.desk with now := l.now }) posted hi
    refine ⟨[.tick l.now, .fire i], ?_, alarms.eraseIdx i, posted, ?_, ?_⟩
    · exact Desk.sound_next hnow hshut (.host (.fire i))
    · exact (congrArg Prod.snd (fire_eq (h := Session.hooks)
        (d := { s.desk with now := l.now }.plus alarms posted) hshut i)).trans hfired
    · have herase := ((perm_cons_eraseIdx hi).map Callback.debounce).append_right posted
      exact (herase.symm.trans htaken).cons_inv
  · obtain ⟨i, hi⟩ := List.mem_iff_getElem?.mp hc
    have hdelivered := delivered_plus (h := Session.hooks) (d := { s.desk with now := l.now })
      alarms hi
    refine ⟨[.tick l.now, .deliver i], ?_, alarms, posted.eraseIdx i, ?_, ?_⟩
    · exact Desk.sound_next hnow hshut (.host (.deliver i))
    · exact (congrArg Prod.snd (deliverAt_eq (h := Session.hooks)
        (d := { s.desk with now := l.now }.plus alarms posted) hshut i)).trans hdelivered
    · have herase := ((perm_cons_eraseIdx hi).append_left (alarms.map Callback.debounce)).trans
        List.perm_middle
      exact (herase.symm.trans htaken).cons_inv

omit [Glyphs] in
/-- Time that passes leaves the callbacks of the loop as they are. -/
theorem passes (h : Stands d s) {l : EventLoop ℚ Callback} (hl : EventLoop.Passes s.loop l) :
    Stands d { s with loop := l } := by
  obtain ⟨hsound, alarms, posted, rfl, hperm⟩ := h
  exact ⟨hsound, alarms, posted, rfl, hperm.trans hl.callbacks.symm⟩

theorem runOnce (h : Stands d s) (hl : s.loop.Sound) (hshut : s.desk.shut = false) {timeout : ℚ}
    (ht : 0 ≤ timeout) : Serves d (driven.runOnce timeout s).2 := by
  have hhands := EventLoop.hands_next? hl ht
  rcases hnext : s.loop.next? timeout with ⟨- | c, l⟩
  · rw [hnext] at hhands
    rw [runOnce_of_none hnext]
    exact (h.passes hhands.passes).serves
  · rw [hnext] at hhands
    rw [runOnce_of_some hnext hshut]
    exact (h.answered hshut hhands.callbacks).trans fun d' hd' => hd'.handOver hhands.sound

end Stands

/-! ### What is done with a session on a loop -/

theorem Follows.runBefore (h : Follows d s) (hs : Ready s) (wanted : Looped ℚ → Bool)
    (deadline : ℚ) (bound : Nat) : Follows d (driven.runBefore wanted deadline bound s).2 :=
  hs.runBefore_induction (P := Follows d)
    (fun _ _ hs ht h => h.trans fun _ hd => (hd.runOnce hs.sound hs.shut ht).follows)
    h wanted deadline bound

theorem Follows.waitUntil (h : Follows d s) (hs : Ready s) (wanted : Desk ℚ → Bool) (timeout : ℚ) :
    Follows d (waitUntil wanted timeout s).2 := by
  rw [waitUntil_eq]
  exact h.runBefore hs _ _ _

theorem Follows.input (h : Follows d s) (hs : Ready s) (i : Desk.Input) :
    Follows d ((Doing.input i).next s) := by
  refine h.trans fun d' hd' => ?_
  have hinput : Follows d' { s with desk := i.next { s.desk with now := s.loop.now } } :=
    ⟨[.host (.tick s.loop.now), .input i], (hd'.tick s.loop.now).input hs.shut i⟩
  exact hinput.trans fun d'' hd'' => (hd''.handOver hs.sound).follows

theorem Follows.next (h : Follows d s) (hs : Ready s) (i : Doing) : Follows d (i.next s) := by
  cases i with
  | input i => exact h.input hs i
  | run text timeout =>
    have hinput := hs.input (.runNow text)
    obtain ⟨b, s', hwait, -⟩ := hinput.ready.waitUntil (fun d => !d.running) timeout
    have hs' := (h.input hs (.runNow text)).waitUntil hinput.ready (fun d => !d.running) timeout
    rw [hwait] at hs'
    rw [Doing.next, runWithin_of_wait hs.shut hwait]
    exact hs'
  | pump timeout =>
    exact h.trans fun d' hd' => (hd'.runOnce hs.sound hs.shut timeout.cast_nonneg).follows
  | wait wanted timeout => exact h.waitUntil hs wanted timeout
  | advance span =>
    have hpasses := EventLoop.passes_advance hs.sound span.cast_nonneg
    exact h.trans fun d' hd' => (hd'.passes hpasses).follows

/-- **A session on a loop is a session whose host is the loop**: whatever is done with it, there are
happenings that lead to a desk which stands for it. -/
theorem follows_afterAll (source : Source) (name : Text) (capacity : Int) (recording : Bool)
    {debounce : ℚ} (hdebounce : 0 ≤ debounce) (ds : List Doing) :
    Follows (Desk.ofSession (Session.ofSource source name capacity) recording)
      (afterAll ds (fresh (Desk.ofSession (Session.ofSource source name capacity) recording) true
        debounce)) := by
  have hfollows := (stands_fresh source name capacity recording true debounce).follows
  have hready := ready_fresh source name capacity recording hdebounce
  generalize fresh _ true debounce = s at hfollows hready
  induction ds generalizing s with
  | nil => exact hfollows
  | cons i rest ih => exact ih (i.next s) (hfollows.next hready i) (hready.next i).ready

end Looped

end LiveQuery
