/-
LiveQuery/Proofs/Path/Grammar.lean

The grammar of simple paths.

A simple path is empty, a single dot, or a dot with an element behind it that goes on any number
of times: with a further element behind a dot, or with a bracket.  `Spelling` is how such a text is
put together.  Its parts carry the proofs that they are identifiers and digits.

A bracket may be written with any number of digits, but a number is read from at most `maxDigits`
of them.  So the steps of a spelling (`Spelling.path`) are those of its elements up to the first
bracket that is too long, and there the reader raises an error, whatever the rest of the text is.

Design.  The reader consumes one character at a time.  `Goes` is what a text is that goes on behind
an element, with the outcome of reading it, and `Remains` says for each place of the reader how the
rest of a path looks from there.  One character takes what remains after it to what remained before
(`Remains.cons`).  That a text has one spelling only needs no reader: each part ends where the next
character cannot belong to it (`Element.text_append_inj`).

Main result: `read_spelled`.
-/
import LiveQuery.Proofs.Path.Reading

namespace LiveQuery

namespace Path

open Text

variable {place next : Place} {p t : Text} {ts : Path} {r : Except Nat Path} {c : Char} {n : Nat}

/-! ### Spellings -/

/-- A text that is an identifier. -/
abbrev Identifier := { k : Text // isIdentifier k }

/-- The digits of a bracket, possibly none. -/
abbrev Digits := { ds : Text // ∀ d ∈ ds, isDigit d }

/-- An element as it is written: an identifier, or digits in a bracket. -/
inductive Element
  | name (k : Identifier)
  | bracket (ds : Digits)

/-- How a path goes on behind an element: with an element behind a dot, or with a bracket. -/
inductive Continuation
  | dotted (e : Element)
  | bracket (ds : Digits)

/-- A path as it is written behind its first dot. -/
structure Spelling where
  first : Element
  rest : List Continuation

/-- The text of an element. -/
def Element.text : Element → Text
  | name k => k
  | bracket ds => '[' :: (ds ++ [']'])

/-- The number of digits of an element. -/
def Element.digits : Element → Nat
  | name _ => 0
  | bracket ds => ds.val.length

/-- The step that an element stands for: its key, the item with the number in the bracket, or
every item where the bracket is empty. -/
def Element.step : Element → Except Nat Step
  | name k => .ok (.key k)
  | bracket ds => bracketStep ds

/-- The element with which a path goes on. -/
def Continuation.element : Continuation → Element
  | dotted e => e
  | bracket ds => .bracket ds

/-- The text of a continuation. -/
def Continuation.text : Continuation → Text
  | dotted e => '.' :: e.text
  | bracket ds => (Element.bracket ds).text

/-- The text of what goes on behind an element. -/
def tailText (cs : List Continuation) : Text := cs.flatMap Continuation.text

/-- The steps of elements, in their order as far as they can be read. -/
def stepsOf : List Element → Except Nat Path
  | [] => .ok []
  | e :: es => e.step.bind fun step => (stepsOf es).map (step :: ·)

/-- The text of a spelling. -/
def Spelling.text (w : Spelling) : Text := '.' :: (w.first.text ++ tailText w.rest)

/-- The elements of a spelling. -/
def Spelling.elements (w : Spelling) : List Element := w.first :: w.rest.map Continuation.element

/-- The path of a spelling. -/
def Spelling.path (w : Spelling) : Except Nat Path := stepsOf w.elements

/-- An element has a step exactly if its digits are not too many. -/
theorem Element.exists_step_iff (e : Element) :
    (∃ step, e.step = .ok step) ↔ e.digits ≤ maxDigits := by
  rcases e with k | ds
  · exact iff_of_true ⟨_, rfl⟩ (Nat.zero_le _)
  · show (∃ step, bracketStep ds = .ok step) ↔ ds.val.length ≤ maxDigits
    rw [bracketStep]
    split_ifs with hempty
    · refine iff_of_true ⟨_, rfl⟩ ?_
      rw [List.isEmpty_iff.mp hempty]
      exact Nat.zero_le _
    · by_cases hlong : ds.val.length ≤ maxDigits
      · rw [number_of_le hlong]
        exact iff_of_true ⟨_, rfl⟩ hlong
      · rw [number_of_lt (Nat.lt_of_not_le hlong)]
        refine iff_of_false ?_ hlong
        rintro ⟨step, h⟩
        cases h

/-- Elements have steps exactly if none of them has too many digits. -/
theorem exists_stepsOf_iff (es : List Element) :
    (∃ ts, stepsOf es = .ok ts) ↔ ∀ e ∈ es, e.digits ≤ maxDigits := by
  induction es with
  | nil => exact iff_of_true ⟨_, rfl⟩ nofun
  | cons e es ih =>
    rw [List.forall_mem_cons, ← e.exists_step_iff, ← ih, stepsOf]
    rcases e.step with n | step
    · exact iff_of_false nofun fun h => nomatch h.1
    · rcases stepsOf es with n | ts
      · exact iff_of_false nofun fun h => nomatch h.2
      · exact iff_of_true ⟨_, rfl⟩ ⟨⟨_, rfl⟩, _, rfl⟩

/-- A character that begins a continuation stands in no identifier. -/
theorem head_continuation (d : Continuation) (t : Text) :
    ∃ c more next, d.text ++ t = c :: more ∧ isIdentPart c = false ∧ follow? c = some next := by
  rcases d with e | ds
  · exact ⟨'.', e.text ++ t, .dot, rfl, by decide, rfl⟩
  · exact ⟨'[', ds ++ [']'] ++ t, .bracket [], rfl, by decide, rfl⟩

theorem head_tailText (cs : List Continuation) :
    ∀ c ∈ (tailText cs).head?, isIdentPart c = false := by
  intro c hc
  rcases cs with - | ⟨d, cs⟩
  · cases hc
  · obtain ⟨c', more, next, htext, hpart, -⟩ := head_continuation d (tailText cs)
    rw [tailText, List.flatMap_cons, ← tailText, htext] at hc
    cases hc
    exact hpart

/-! ### What goes on behind an element -/

/-- What goes on behind an element, and the steps that are read of it: nothing, a continuation that
is too long and any text, or a continuation that has a step and what goes on behind it. -/
inductive Goes : Text → Except Nat Path → Prop
  | nil : Goes [] (.ok [])
  | long {d : Continuation} {n : Nat} (t : Text) (h : d.element.step = .error n) :
      Goes (d.text ++ t) (.error n)
  | cons {d : Continuation} {step : Step} {t : Text} {r : Except Nat Path}
      (h : d.element.step = .ok step) (hgoes : Goes t r) :
      Goes (d.text ++ t) (r.map (step :: ·))

/-- What is read of an element whose step is known, and of the text behind it. -/
def Led (t : Text) (r : Except Nat Path) : Except Nat Step → Prop
  | .error n => r = .error n
  | .ok step => ∃ behind, Goes t behind ∧ r = behind.map (step :: ·)

theorem Led.goes {d : Continuation} (h : Led t r d.element.step) : Goes (d.text ++ t) r := by
  rcases hstep : d.element.step with n | step <;> rw [hstep] at h
  · obtain rfl : r = .error n := h
    exact .long t hstep
  · obtain ⟨behind, hgoes, rfl⟩ := h
    exact .cons hstep hgoes

/-- What goes on is continuations, to the end of the text or to one that is too long. -/
theorem Goes.exists_tail (h : Goes t r) :
    ∃ cs rest, tailText cs ++ rest = t ∧ stepsOf (cs.map Continuation.element) = r ∧
      (r.toOption.isSome → rest = []) := by
  induction h with
  | nil => exact ⟨[], [], rfl, rfl, fun _ => rfl⟩
  | @long d n t h =>
    refine ⟨[d], t, ?_, ?_, nofun⟩
    · rw [tailText, List.flatMap_singleton]
    · rw [List.map_singleton, stepsOf, h]
      rfl
  | @cons d step t r h _ ih =>
    obtain ⟨cs, rest, rfl, rfl, hrest⟩ := ih
    refine ⟨d :: cs, rest, ?_, ?_, fun hsome => hrest ?_⟩
    · rw [tailText, List.flatMap_cons, List.append_assoc]
      rfl
    · rw [List.map_cons, stepsOf, h]
      rfl
    · rcases hsteps : stepsOf (cs.map Continuation.element) with n | ts <;> rw [hsteps] at hsome
      · cases hsome
      · rfl

/-- Continuations go on, whatever comes behind one that is too long. -/
theorem goes_tail (cs : List Continuation) (rest : Text)
    (hrest : (stepsOf (cs.map Continuation.element)).toOption.isSome → rest = []) :
    Goes (tailText cs ++ rest) (stepsOf (cs.map Continuation.element)) := by
  induction cs with
  | nil =>
    rw [hrest rfl]
    exact .nil
  | cons d cs ih =>
    rw [List.map_cons, stepsOf] at hrest ⊢
    rw [tailText, List.flatMap_cons, List.append_assoc, ← tailText]
    rcases hstep : d.element.step with n | step
    · exact .long _ hstep
    · refine .cons hstep (ih fun hsome => hrest ?_)
      rcases hsteps : stepsOf (cs.map Continuation.element) with n | ts
      · rw [hsteps] at hsome
        cases hsome
      · rw [hstep]
        rfl

/-! ### What goes on is read -/

/-- Characters of an identifier are kept until another one comes. -/
theorem readFrom_ident_append {k : Text} (hk : k.all isIdentPart) (name t : Text) :
    readFrom (.ident name) (k ++ t) = readFrom (.ident (name ++ k)) t := by
  induction k generalizing name with
  | nil => rw [List.nil_append, List.append_nil]
  | cons c k ih =>
    rw [List.all_cons, Bool.and_eq_true] at hk
    rw [List.cons_append, readFrom, if_pos hk.1, ih hk.2, List.append_assoc]
    rfl

/-- An identifier ends where the text goes on. -/
theorem Goes.readFrom_ident (h : Goes t r) (name : Text) :
    readFrom (.ident name) t = (readFrom .closed t).map (Option.map (.key name :: ·)) := by
  have hfollow (d : Continuation) (t : Text) : readFrom (.ident name) (d.text ++ t) =
      (readFrom .closed (d.text ++ t)).map (Option.map (.key name :: ·)) := by
    obtain ⟨c, more, next, htext, hpart, hnext⟩ := head_continuation d t
    rw [htext, readFrom, readFrom, if_neg (Bool.not_eq_true _ ▸ hpart), hnext]
  cases h with
  | nil => rfl
  | long t _ => exact hfollow _ t
  | cons _ _ => exact hfollow _ _

/-- A bracket is read up to its end. -/
theorem readFrom_bracket_text (ds : Digits) (t : Text) :
    readFrom (.bracket []) (ds ++ [']'] ++ t) =
      (bracketStep ds).bind fun step => (readFrom .closed t).map (Option.map (step :: ·)) := by
  rw [List.append_assoc]
  exact readFrom_digits ds.property [] t

/-- An element that is too long is read no further. -/
theorem readFrom_long {e : Element} (h : e.step = .error n) (t : Text) :
    readFrom .dot (e.text ++ t) = .error n := by
  rcases e with k | ds
  · cases h
  · show readFrom (.bracket []) (ds ++ [']'] ++ t) = _
    rw [readFrom_bracket_text, show bracketStep ds = .error n from h]
    rfl

/-- **An element is read** behind a dot, and what goes on behind it after it. -/
theorem Goes.readFrom_element {e : Element} {step : Step} (h : Goes t r)
    (hstep : e.step = .ok step) :
    readFrom .dot (e.text ++ t) = (readFrom .closed t).map (Option.map (step :: ·)) := by
  rcases e with ⟨_ | ⟨c, k⟩, hk⟩ | ds
  · cases hk
  · cases hstep
    rw [isIdentifier, Bool.and_eq_true] at hk
    show readFrom .dot (c :: (k ++ t)) = _
    rw [readFrom, if_pos hk.1, readFrom_ident_append hk.2, h.readFrom_ident]
    rfl
  · show readFrom (.bracket []) (ds ++ [']'] ++ t) = _
    rw [readFrom_bracket_text, show bracketStep ds = .ok step from hstep]
    rfl

/-- A continuation is read as its element behind a dot is. -/
theorem readFrom_continuation (d : Continuation) (t : Text) :
    readFrom .closed (d.text ++ t) = readFrom .dot (d.element.text ++ t) := by
  rcases d with e | ds <;> rfl

/-- **What goes on is read.** -/
theorem Goes.readFrom_eq (h : Goes t r) : readFrom .closed t = r.map some := by
  induction h with
  | nil => rfl
  | long t h =>
    rw [readFrom_continuation, readFrom_long h]
    rfl
  | @cons d step t r h hgoes ih =>
    rw [readFrom_continuation, hgoes.readFrom_element h, ih]
    rcases r with n | ts <;> rfl

/-! ### What is read goes on -/

/-- What the rest of a text looks like that is read from a place on. -/
def Remains : Place → Text → Except Nat Path → Prop
  | .dot, t, r => ∃ (e : Element) (behind : Text), t = e.text ++ behind ∧ Led behind r e.step
  | .ident name, t, r => ∃ k behind : Text, k.all isIdentPart ∧ t = k ++ behind ∧
      Led behind r (.ok (.key (name ++ k)))
  | .bracket ds, t, r => ∃ (more : Digits) (behind : Text), t = more ++ ']' :: behind ∧
      Led behind r (bracketStep (ds ++ more))
  | .closed, t, r => Goes t r

theorem remains_nil (h : finish place = some ts) : Remains place [] (.ok ts) := by
  rcases place with - | name | ds | -
  · cases h
  · cases h
    exact ⟨[], [], rfl, rfl, .ok [], .nil, by rw [List.append_nil]; rfl⟩
  · cases h
  · cases h
    exact .nil

/-- A character that begins a continuation, and the continuation. -/
theorem Remains.follow (hc : follow? c = some next) (h : Remains next t r) : Goes (c :: t) r := by
  unfold follow? at hc
  split at hc
  · next hdot =>
    cases hc
    obtain ⟨e, behind, rfl, hled⟩ := h
    rw [hdot]
    exact Led.goes (d := .dotted e) hled
  · split at hc
    · next hbracket =>
      cases hc
      obtain ⟨ds, behind, rfl, hled⟩ := h
      rw [hbracket, List.append_cons ds.val]
      exact Led.goes (d := .bracket ds) hled
    · cases hc

/-- An identifier may end where the text goes on. -/
theorem Goes.endName (h : Goes t r) (name : Text) :
    Remains (.ident name) t (r.map (.key name :: ·)) :=
  ⟨[], t, rfl, rfl, r, h, by rw [List.append_nil]⟩

/-- **One character**: what remains after it, and the character, is what remained before. -/
theorem Remains.cons {out : Path} (hstep : advance place c = .ok (some (out, next)))
    (h : Remains next t r) : Remains place (c :: t) (r.map (out ++ ·)) := by
  have hnothing : r.map ([] ++ ·) = r := by rcases r with n | ts <;> rfl
  rcases place with - | name | ds | -
  · rw [advance] at hstep
    split_ifs at hstep with hstart hbracket
    · cases hstep
      obtain ⟨k, behind, hk, rfl, hled⟩ := h
      rw [hnothing]
      refine ⟨.name ⟨c :: k, ?_⟩, behind, rfl, hled⟩
      rw [isIdentifier, hstart, hk]
      rfl
    · cases hstep
      obtain ⟨ds, behind, rfl, hled⟩ := h
      rw [hnothing, hbracket, List.append_cons ds.val]
      exact ⟨.bracket ds, behind, rfl, hled⟩
    · cases hstep
  · rw [advance, Except.ok.injEq] at hstep
    split_ifs at hstep with hpart
    · cases hstep
      obtain ⟨k, behind, hk, rfl, hled⟩ := h
      rw [List.append_assoc] at hled
      rw [hnothing]
      refine ⟨c :: k, behind, ?_, rfl, hled⟩
      rw [List.all_cons, hpart, hk]
      rfl
    · obtain ⟨place, hfollow, heq⟩ := Option.map_eq_some_iff.mp hstep
      cases heq
      exact (h.follow hfollow).endName name
  · rw [advance] at hstep
    split_ifs at hstep with hend hdigit
    · rcases hb : bracketStep ds with n | step <;> rw [hb] at hstep <;> cases hstep
      refine ⟨⟨[], by simp⟩, t, by rw [hend]; rfl, ?_⟩
      rw [List.append_nil, hb]
      exact ⟨r, h, rfl⟩
    · cases hstep
      obtain ⟨more, behind, rfl, hled⟩ := h
      rw [List.append_assoc] at hled
      rw [hnothing]
      refine ⟨⟨c :: more, ?_⟩, behind, rfl, hled⟩
      rintro d (_ | ⟨_, hd⟩)
      · exact hdigit
      · exact more.property d hd
    · cases hstep
  · rw [advance, Except.ok.injEq] at hstep
    obtain ⟨place, hfollow, heq⟩ := Option.map_eq_some_iff.mp hstep
    cases heq
    rw [hnothing]
    exact h.follow hfollow

/-- A bracket is closed that is too long. -/
theorem remains_long (hstep : advance place c = .error n) (t : Text) :
    Remains place (c :: t) (.error n) := by
  rcases place with - | name | ds | -
  · cases hstep
  · cases hstep
  · rw [advance] at hstep
    split_ifs at hstep with hend
    rcases hb : bracketStep ds with m | step <;> rw [hb] at hstep <;> cases hstep
    refine ⟨⟨[], by simp⟩, t, by rw [hend]; rfl, ?_⟩
    rw [List.append_nil, hb]
    rfl
  · cases hstep

/-- **What is read remains**, from whatever place on. -/
theorem remains_of_readFrom (h : readFrom place t = r.map some) : Remains place t r := by
  induction t generalizing place r with
  | nil =>
    rw [readFrom_nil] at h
    rcases r with n | ts
    · cases h
    · exact remains_nil (Except.ok.inj h)
  | cons c t ih =>
    rw [readFrom_cons] at h
    rcases hstep : advance place c with n | - | ⟨out, next⟩ <;> rw [hstep] at h
    · rcases r with m | ts <;> cases h
      exact remains_long hstep t
    · rcases r with m | ts <;> cases h
    · replace h : (readFrom next t).map (Option.map (out ++ ·)) = r.map some := h
      rcases hread : readFrom next t with n | - | behind <;> rw [hread] at h
      · rcases r with m | ts <;> cases h
        exact (ih (r := .error n) hread).cons hstep
      · rcases r with m | ts <;> cases h
      · rcases r with m | ts <;> cases h
        exact (ih (r := .ok behind) hread).cons hstep

/-- **The outcome of reading** a dot and what stands behind it. -/
theorem read_dot_iff : read ('.' :: t) = r.map some ↔ t = [] ∧ r = .ok [] ∨ Goes ('.' :: t) r := by
  rcases t with - | ⟨d, rest⟩
  · have hnone : ¬ Goes ['.'] r := by
      intro h
      have hread := h.readFrom_eq
      rcases r with n | ts <;> cases hread
    rw [or_iff_left hnone, and_iff_right rfl]
    rcases r with n | ts
    · exact iff_of_false nofun nofun
    · exact ⟨fun h => congrArg Except.ok (Option.some.inj (Except.ok.inj h)).symm,
        fun h => by rw [Except.ok.inj h]; rfl⟩
  · have hne : ¬ (d :: rest = [] ∧ r = .ok []) := fun h => List.cons_ne_nil _ _ h.1
    rw [or_iff_right hne]
    have hdot : follow? '.' = some .dot := rfl
    exact ⟨fun h => (remains_of_readFrom h).follow hdot, fun h => h.readFrom_eq⟩

/-- What goes on with a dot is a spelling, to the end of the text or to a bracket that is too
long. -/
theorem goes_dot_iff : Goes ('.' :: t) r ↔ ∃ (w : Spelling) (rest : Text),
    w.text ++ rest = '.' :: t ∧ w.path = r ∧ (r.toOption.isSome → rest = []) := by
  constructor
  · intro h
    obtain ⟨cs, rest, htext, hpath, hrest⟩ := h.exists_tail
    rcases cs with - | ⟨e | ds, cs⟩
    · -- no continuation stands before the dot
      obtain rfl : .ok [] = r := hpath
      rw [hrest rfl] at htext
      cases htext
    · exact ⟨⟨e, cs⟩, rest, htext, hpath, hrest⟩
    · cases htext
  · rintro ⟨w, rest, htext, rfl, hrest⟩
    rw [← htext]
    exact goes_tail (.dotted w.first :: w.rest) rest hrest

/-- **The texts that are paths**, and the paths they are. -/
theorem read_eq_some_iff :
    read p = .ok (some ts) ↔
      (p = [] ∨ p = ['.']) ∧ ts = [] ∨ ∃ w : Spelling, w.text = p ∧ w.path = .ok ts := by
  rcases p with - | ⟨c, t⟩
  · have hno : ¬ ∃ w : Spelling, w.text = [] ∧ w.path = .ok ts := fun ⟨_, h, _⟩ => nomatch h
    rw [or_iff_left hno, and_iff_right (.inl rfl)]
    exact ⟨fun h => (Option.some.inj (Except.ok.inj h)).symm, fun h => by rw [h]; rfl⟩
  · by_cases hc : c = '.'
    · subst hc
      rw [show Except.ok (some ts) = (Except.ok ts : Except Nat Path).map some from rfl,
        read_dot_iff, goes_dot_iff]
      refine or_congr ?_ ?_
      · simp
      · exact ⟨fun ⟨w, rest, htext, hpath, hrest⟩ =>
            ⟨w, by rw [← htext, hrest rfl, List.append_nil], hpath⟩,
          fun ⟨w, htext, hpath⟩ => ⟨w, [], by rw [List.append_nil, htext], hpath, fun _ => rfl⟩⟩
    · refine iff_of_false (fun h => hc (head_of_read (by rw [h]; exact nofun))) ?_
      rintro (⟨hp | hp, -⟩ | ⟨w, hw, -⟩)
      · cases hp
      · exact hc (List.cons_eq_cons.mp hp).1
      · exact hc (List.cons_eq_cons.mp hw).1.symm

/-- **The texts that are not read to their end**, and the number of digits at which that is. -/
theorem read_eq_error_iff :
    read p = .error n ↔ ∃ (w : Spelling) (rest : Text), w.text ++ rest = p ∧ w.path = .error n := by
  rcases p with - | ⟨c, t⟩
  · exact iff_of_false nofun fun ⟨_, _, h, _⟩ => nomatch h
  · by_cases hc : c = '.'
    · subst hc
      rw [show (Except.error n : Except Nat (Option Path)) = (Except.error n : Except Nat Path).map
        some from rfl, read_dot_iff, goes_dot_iff, or_iff_right fun h => nomatch h.2]
      exact ⟨fun ⟨w, rest, htext, hpath, _⟩ => ⟨w, rest, htext, hpath⟩,
        fun ⟨w, rest, htext, hpath⟩ => ⟨w, rest, htext, hpath, nofun⟩⟩
    · refine iff_of_false (fun h => hc (head_of_read (by rw [h]; exact nofun))) ?_
      rintro ⟨w, rest, htext, -⟩
      exact hc (List.cons_eq_cons.mp htext).1.symm

/-! ### One spelling -/

/-- Where the characters of one kind end, a text is cut in one way only. -/
theorem append_inj_of_kind {kind : Char → Bool} {a b s t : Text} (ha : ∀ c ∈ a, kind c)
    (hb : ∀ c ∈ b, kind c) (hs : ∀ c ∈ s.head?, kind c = false)
    (ht : ∀ c ∈ t.head?, kind c = false) (h : a ++ s = b ++ t) : a = b ∧ s = t := by
  have hstop {u : Text} (hu : ∀ c ∈ u.head?, kind c = false) : u.takeWhile kind = [] := by
    rcases u with - | ⟨c, u⟩
    · rfl
    · exact List.takeWhile_cons_of_neg (by rw [hu c rfl]; exact Bool.false_ne_true)
  have htake := congrArg (List.takeWhile kind) h
  rw [List.takeWhile_append_of_pos ha, List.takeWhile_append_of_pos hb, hstop hs, hstop ht,
    List.append_nil, List.append_nil] at htake
  subst htake
  exact ⟨rfl, List.append_cancel_left h⟩

/-- An identifier begins with a letter, and a bracket with none. -/
theorem name_ne_bracket (k : Identifier) (ds : Digits) (s t : Text) :
    (Element.name k).text ++ s ≠ (Element.bracket ds).text ++ t := by
  rcases k with ⟨_ | ⟨c, k⟩, hk⟩
  · cases hk
  · intro h
    obtain ⟨rfl, -⟩ := List.cons_eq_cons.mp (show c :: (k ++ s) = '[' :: (ds ++ [']'] ++ t) from h)
    rw [isIdentifier, Bool.and_eq_true] at hk
    exact absurd hk.1 (by decide)

theorem isIdentPart_of_isIdentifier {k : Text} (h : isIdentifier k) : ∀ c ∈ k, isIdentPart c := by
  rcases k with - | ⟨c, k⟩
  · cases h
  · rw [isIdentifier, Bool.and_eq_true] at h
    rintro d (_ | ⟨_, hd⟩)
    · rw [isIdentPart, h.1]
      rfl
    · exact List.all_eq_true.mp h.2 d hd

/-- **An element ends** at the same character, however the text before its continuations is
read. -/
theorem Element.text_append_inj {e e' : Element} {cs cs' : List Continuation}
    (h : e.text ++ tailText cs = e'.text ++ tailText cs') :
    e = e' ∧ tailText cs = tailText cs' := by
  rcases e with k | ds <;> rcases e' with k' | ds'
  · obtain ⟨hk, htail⟩ := append_inj_of_kind (isIdentPart_of_isIdentifier k.property)
      (isIdentPart_of_isIdentifier k'.property) (head_tailText cs) (head_tailText cs') h
    exact ⟨congrArg Element.name (Subtype.ext hk), htail⟩
  · exact absurd h (name_ne_bracket k ds' _ _)
  · exact absurd h.symm (name_ne_bracket k' ds _ _)
  · -- the digits end at the closing bracket
    have hclose (t : Text) : ∀ c ∈ (']' :: t).head?, isDigit c = false := by
      rintro c ⟨⟩
      decide
    have hinner : ds.val ++ ']' :: tailText cs = ds'.val ++ ']' :: tailText cs' := by
      rw [List.append_cons ds.val, List.append_cons ds'.val]
      exact (List.cons_eq_cons.mp h).2
    obtain ⟨hds, htail⟩ :=
      append_inj_of_kind ds.property ds'.property (hclose _) (hclose _) hinner
    exact ⟨congrArg Element.bracket (Subtype.ext hds), (List.cons_eq_cons.mp htail).2⟩

theorem tailText_inj {cs cs' : List Continuation} (h : tailText cs = tailText cs') : cs = cs' := by
  induction cs generalizing cs' with
  | nil =>
    rcases cs' with - | ⟨e | ds, cs'⟩
    · rfl
    · cases h
    · cases h
  | cons c cs ih =>
    rcases cs' with - | ⟨c', cs'⟩
    · rcases c with e | ds <;> cases h
    · rcases c with e | ds <;> rcases c' with e' | ds'
      · have hbehind : e.text ++ tailText cs = e'.text ++ tailText cs' := (List.cons_eq_cons.mp h).2
        obtain ⟨rfl, htail⟩ := Element.text_append_inj hbehind
        rw [ih htail]
      · exact absurd (List.cons_eq_cons.mp h).1 (by decide)
      · exact absurd (List.cons_eq_cons.mp h).1 (by decide)
      · have helement : Element.bracket ds = .bracket ds' ∧ tailText cs = tailText cs' :=
          Element.text_append_inj h
        obtain ⟨hds, htail⟩ := helement
        cases hds
        rw [ih htail]

/-- **A text has one spelling** only. -/
theorem Spelling.text_inj {w w' : Spelling} (h : w.text = w'.text) : w = w' := by
  obtain ⟨hfirst, htail⟩ := Element.text_append_inj (List.cons_eq_cons.mp h).2
  obtain ⟨first, rest⟩ := w
  obtain ⟨first', rest'⟩ := w'
  rw [show first = first' from hfirst, show rest = rest' from tailText_inj htail]

/-! ### Writing paths -/

/-- A step as an element. -/
def elementText : Step → Text
  | .key k => k
  | .index n => Value.indexHint n
  | .iter => ['[', ']']

/-- A step behind other steps: a key stands behind a dot. -/
def furtherText : Step → Text
  | .key k => '.' :: k
  | s => elementText s

/-- The text of a path: a dot and its first step, then each further step. -/
def write : Path → Text
  | [] => ['.']
  | s :: rest => '.' :: (elementText s ++ rest.flatMap furtherText)

/-- A step that is read back when it is written: a key that is an identifier, an index that is
short enough, or every item. -/
def Legible : Step → Prop
  | .key k => isIdentifier k
  | .index n => (ofNat n).length ≤ maxDigits
  | .iter => True

instance : DecidablePred Legible
  | .key k => inferInstanceAs (Decidable (isIdentifier k = true))
  | .index n => inferInstanceAs (Decidable ((ofNat n).length ≤ maxDigits))
  | .iter => inferInstanceAs (Decidable True)

theorem exists_element {s : Step} (h : Legible s) :
    ∃ e : Element, e.text = elementText s ∧ e.step = .ok s := by
  cases s with
  | key k => exact ⟨.name ⟨k, h⟩, rfl, rfl⟩
  | index n => exact ⟨.bracket ⟨ofNat n, isDigit_ofNat n⟩, rfl, bracketStep_ofNat h⟩
  | iter => exact ⟨.bracket ⟨[], by simp⟩, rfl, rfl⟩

theorem exists_continuation {s : Step} (h : Legible s) :
    ∃ d : Continuation, d.text = furtherText s ∧ d.element.step = .ok s := by
  cases s with
  | key k => exact ⟨.dotted (.name ⟨k, h⟩), rfl, rfl⟩
  | index n => exact ⟨.bracket ⟨ofNat n, isDigit_ofNat n⟩, rfl, bracketStep_ofNat h⟩
  | iter => exact ⟨.bracket ⟨[], by simp⟩, rfl, rfl⟩

theorem exists_tail (h : ∀ s ∈ ts, Legible s) :
    ∃ cs : List Continuation, tailText cs = ts.flatMap furtherText ∧
      stepsOf (cs.map Continuation.element) = .ok ts := by
  induction ts with
  | nil => exact ⟨[], rfl, rfl⟩
  | cons s ts ih =>
    rw [List.forall_mem_cons] at h
    obtain ⟨cs, htext, hsteps⟩ := ih h.2
    obtain ⟨d, hd, hstep⟩ := exists_continuation h.1
    refine ⟨d :: cs, ?_, ?_⟩
    · rw [tailText, List.flatMap_cons, hd, ← tailText, htext, List.flatMap_cons]
    · rw [List.map_cons, stepsOf, hstep, hsteps]
      rfl

/-- **A path that was written is read back**, where its steps are legible. -/
theorem read_write (h : ∀ s ∈ ts, Legible s) : read (write ts) = .ok (some ts) := by
  rcases ts with - | ⟨s, rest⟩
  · rfl
  · rw [List.forall_mem_cons] at h
    obtain ⟨e, he, hstep⟩ := exists_element h.1
    obtain ⟨cs, htext, hsteps⟩ := exists_tail h.2
    refine read_eq_some_iff.mpr (.inr ⟨⟨e, cs⟩, ?_, ?_⟩)
    · rw [Spelling.text, he, htext, write]
    · rw [Spelling.path, Spelling.elements, stepsOf, hstep, hsteps]
      rfl

/-- **The grammar of simple paths.**  An error is raised exactly on a text that begins with a
spelling of which some bracket has too many digits; it tells the length of the first of them.  Any
other text is a path exactly if it is empty, a single dot, or spelled.  The first two are the path
without steps, and a spelled one has the steps of its elements, in the one way in which it is
spelled.  A path of legible steps is read back from the text that is written for it. -/
theorem read_spelled (p : Text) :
    (∀ n, read p = .error n ↔
      ∃ (w : Spelling) (rest : Text), w.text ++ rest = p ∧ w.path = .error n) ∧
    ((∀ n, read p ≠ .error n) →
      ((∃ ts, read p = .ok (some ts)) ↔ p = [] ∨ p = ['.'] ∨ ∃ w : Spelling, w.text = p)) ∧
    (∀ ts, read p = .ok (some ts) ↔
      (p = [] ∨ p = ['.']) ∧ ts = [] ∨ ∃ w : Spelling, w.text = p ∧ w.path = .ok ts) ∧
    (∀ w w' : Spelling, w.text = p → w'.text = p → w = w') ∧
    (∀ w : Spelling, (∃ ts, w.path = .ok ts) ↔ ∀ e ∈ w.elements, e.digits ≤ maxDigits) ∧
    ∀ ts : Path, (∀ s ∈ ts, Legible s) → read (write ts) = .ok (some ts) := by
  refine ⟨fun n => read_eq_error_iff, fun hread => ⟨?_, ?_⟩, fun ts => read_eq_some_iff,
    fun w w' h h' => Spelling.text_inj (h.trans h'.symm), fun w => exists_stepsOf_iff w.elements,
    fun ts => read_write⟩
  · rintro ⟨ts, hts⟩
    rcases read_eq_some_iff.mp hts with ⟨hroot | hroot, -⟩ | ⟨w, hw, -⟩
    · exact .inl hroot
    · exact .inr (.inl hroot)
    · exact .inr (.inr ⟨w, hw⟩)
  · rintro (rfl | rfl | ⟨w, rfl⟩)
    · exact ⟨[], rfl⟩
    · exact ⟨[], rfl⟩
    · rcases hpath : w.path with n | ts
      · exact absurd (read_eq_error_iff.mpr ⟨w, [], List.append_nil _, hpath⟩) (hread n)
      · exact ⟨ts, read_eq_some_iff.mpr (.inr ⟨w, rfl, hpath⟩)⟩

/-- A key, an item, and every item of it; a number may be written in the digits of any script, and
a dot may stand before a bracket. -/
theorem read_spelled_items :
    let ts : Path := [.key ['a'], .index 23, .iter]
    let w : Spelling := ⟨.name ⟨['a'], rfl⟩,
      [.dotted (.bracket ⟨['٢', '3'], List.all_eq_true.mp rfl⟩), .bracket ⟨[], nofun⟩]⟩
    (∀ s ∈ ts, Legible s) ∧ write ts = ".a[23][]".toList ∧
      read (write ts) = .ok (some ts) ∧ w.text = ".a.[٢3][]".toList ∧
      read w.text = .ok (some ts) := by
  intro ts w
  have hlegible : ∀ s ∈ ts, Legible s := by decide
  have hpath : w.path = .ok ts := by rfl
  refine ⟨hlegible, by decide, (read_spelled []).2.2.2.2.2 ts hlegible, by decide, ?_⟩
  exact ((read_spelled w.text).2.2.1 ts).mpr (.inr ⟨w, rfl, hpath⟩)

/-- A dot and a bracket that is too long are read up to the end of the bracket. -/
theorem read_bracket_long (ds : Digits) (h : maxDigits < ds.val.length) :
    read (".[".toList ++ ds ++ "]".toList) = .error ds.val.length := by
  have hstep : (Element.bracket ds).step = .error ds.val.length := by
    have hne : ds.val.isEmpty = false := by
      rw [← Bool.not_eq_true, List.isEmpty_iff_length_eq_zero]
      omega
    show bracketStep ds = _
    rw [bracketStep, hne, number_of_lt h]
    rfl
  have hread := readFrom_long hstep []
  rw [List.append_nil] at hread
  exact hread

/-- A dot and a bracket with one digit too many are spelled as a path, and are not read as one. -/
theorem read_too_long :
    let ds := List.replicate 4301 '1'
    let p := ".[".toList ++ ds ++ "]".toList
    (∃ w : Spelling, w.text = p) ∧ ¬ (∃ ts, read p = .ok (some ts)) ∧ read p = .error 4301 := by
  have hdigits : ∀ d ∈ List.replicate 4301 '1', isDigit d := by
    intro d hd
    rw [List.eq_of_mem_replicate hd]
    rfl
  have hlength : (List.replicate 4301 '1').length = 4301 := List.length_replicate
  generalize List.replicate 4301 '1' = ones at hdigits hlength
  intro ds p
  have hread : read p = .error 4301 := by
    rw [← hlength]
    exact read_bracket_long ⟨ones, hdigits⟩ (by rw [hlength]; decide)
  refine ⟨⟨⟨.bracket ⟨ones, hdigits⟩, []⟩, ?_⟩, ?_, hread⟩
  · show '.' :: (('[' :: (ones ++ [']'])) ++ []) = p
    rw [List.append_nil]
    rfl
  · rintro ⟨ts, hts⟩
    rw [hread] at hts
    cases hts

end Path

end LiveQuery
