/-
LiveQuery/Proofs/Display/Literals.lean

The pieces that are painted behind a colon: numbers, booleans and null.

A number is made of parts: digits with their sign, a fraction, an exponent.  Each one is measured
by a function that looks at the letters of numbers only, stops at the first other character, and
ends with a digit (`NumberPart`).  Parts come out of parts, behind a leading character
(`behindLead`, `withLead`) or one after the other, so that what holds of digits holds of the whole
number.

Main results: `literal_number` and `literal_words`, which say of both kinds of pieces what the
painting relies on (`Literal`).
-/
import LiveQuery.Proofs.Display.Spacing

namespace LiveQuery

namespace Display

open Text

/-- A piece at the head of a text, made of letters and found by them alone, whose first and last
character are edges. -/
structure Literal (letter edge : Char → Bool) (piece : Text → Option Nat) : Prop where
  reads : Reads letter piece
  letters : ∀ {t n}, piece t = some n → ∀ c ∈ t.take n, letter c
  begins : ∀ {t n}, piece t = some n → ∃ c ∈ (t.take n).head?, edge c
  ends : ∀ {t n}, piece t = some n → ∃ c ∈ (t.take n).getLast?, edge c

/-! ### Parts of numbers -/

/-- A character that may stand in a number. -/
def isNumberLetter (c : Char) : Bool :=
  isDigit c || c = '-' || c = '+' || c = '.' || c = 'e' || c = 'E'

/-- A character with which a number may begin or end. -/
def isNumberEdge (c : Char) : Bool := isDigit c || c = '-'

theorem isNumberLetter_of_isDigit {c : Char} (h : isDigit c) : isNumberLetter c := by
  simp [isNumberLetter, h]

/-- The length of a part of a number, which is found by the letters at the head of the text and
ends with a digit. -/
structure NumberPart (f : Text → Nat) : Prop where
  reads : Reads isNumberLetter f
  within : ∀ t, f t ≤ (t.takeWhile isNumberLetter).length
  ends : ∀ t : Text, ∀ c ∈ (t.take (f t)).getLast?, isDigit c

theorem take_length_takeWhile (p : Char → Bool) (t : Text) :
    t.take (t.takeWhile p).length = t.takeWhile p :=
  (List.prefix_iff_eq_take.mp (List.takeWhile_prefix p)).symm

theorem takeWhile_drop {letter : Char → Bool} {t : Text} {n : Nat}
    (h : n ≤ (t.takeWhile letter).length) :
    (t.drop n).takeWhile letter = (t.takeWhile letter).drop n := by
  induction t generalizing n with
  | nil => simp
  | cons c rest ih =>
    cases n with
    | zero => rfl
    | succ n =>
      by_cases hc : letter c
      · rw [List.takeWhile_cons_of_pos hc] at h ⊢
        exact ih (by simpa using h)
      · simp [List.takeWhile_cons_of_neg hc] at h

namespace NumberPart

variable {f g : Text → Nat} {t : Text}

theorem nil (h : NumberPart f) : f [] = 0 := Nat.le_zero.mp (h.within [])

/-- What a part covers is made of letters. -/
theorem letters (h : NumberPart f) {c : Char} (hc : c ∈ t.take (f t)) : isNumberLetter c := by
  have hcover : (t.takeWhile isNumberLetter).take (f t) = t.take (f t) := by
    rw [List.prefix_iff_eq_take.mp (List.takeWhile_prefix isNumberLetter), List.take_take,
      Nat.min_eq_left (h.within t)]
  rw [← hcover] at hc
  exact List.mem_takeWhile_imp (List.mem_of_mem_take hc)

/-- What a part covers is not empty, unless its length is 0. -/
theorem take_ne_nil (h : NumberPart f) (hpos : f t ≠ 0) : t.take (f t) ≠ [] := by
  have hlength := Nat.le_trans (h.within t) (List.takeWhile_sublist isNumberLetter).length_le
  intro hnil
  have := congrArg List.length hnil
  rw [List.length_take, List.length_nil] at this
  omega

theorem digits : NumberPart digitsLength where
  reads t := by
    have h : (t.takeWhile isNumberLetter).takeWhile isDigit = t.takeWhile isDigit := by
      rw [List.takeWhile_takeWhile]
      congr 1
      funext c
      by_cases hc : isDigit c <;> simp [hc, isNumberLetter_of_isDigit]
    simp only [digitsLength, h]
  within t := by
    induction t with
    | nil => exact Nat.le_refl _
    | cons c rest ih =>
      by_cases hc : isDigit c
      · have hletter := isNumberLetter_of_isDigit hc
        simpa [digitsLength, List.takeWhile_cons_of_pos, hc, hletter] using ih
      · simp [digitsLength, hc]
  ends t c hc := by
    rw [digitsLength, take_length_takeWhile] at hc
    exact List.mem_takeWhile_imp (List.mem_of_mem_getLast? hc)

/-- A part that goes on where another one has stopped. -/
theorem append (hf : NumberPart f) (hg : NumberPart g) :
    NumberPart fun t => f t + g (t.drop (f t)) where
  reads t := by
    show f (t.takeWhile isNumberLetter) +
      g ((t.takeWhile isNumberLetter).drop (f (t.takeWhile isNumberLetter))) = _
    rw [hf.reads, ← takeWhile_drop (hf.within t), hg.reads]
  within t := by
    have hrest := hg.within (t.drop (f t))
    rw [takeWhile_drop (hf.within t), List.length_drop] at hrest
    have hfirst := hf.within t
    show f t + g (t.drop (f t)) ≤ _
    omega
  ends t c hc := by
    rw [List.take_add, List.getLast?_append, Option.mem_def, Option.or_eq_some_iff] at hc
    rcases hc with hlast | ⟨-, hfirst⟩
    · exact hg.ends _ c hlast
    · exact hf.ends t c hfirst

end NumberPart

/-! ### Leading characters -/

/-- The length of a leading character and of what comes behind it, 0 where either is missing. -/
def behindLead (lead : Char → Bool) (f : Text → Nat) : Text → Nat
  | c :: rest => if lead c && f rest ≠ 0 then f rest + 1 else 0
  | [] => 0

/-- The length of a part and of the leading character there may be before it. -/
def withLead (lead : Char → Bool) (f : Text → Nat) (t : Text) : Nat :=
  if behindLead lead f t = 0 then f t else behindLead lead f t

namespace NumberPart

variable {lead : Char → Bool} {f : Text → Nat}

theorem behind (hlead : ∀ c, lead c → isNumberLetter c) (h : NumberPart f) :
    NumberPart (behindLead lead f) where
  reads t := by
    cases t with
    | nil => rfl
    | cons c rest =>
      by_cases hc : isNumberLetter c
      · rw [List.takeWhile_cons_of_pos hc, behindLead, behindLead, h.reads]
      · have hnot : ¬ lead c := fun hl => hc (hlead c hl)
        simp [List.takeWhile_cons_of_neg hc, behindLead, hnot]
  within t := by
    cases t with
    | nil => exact Nat.le_refl _
    | cons c rest =>
      rw [behindLead]
      split
      · next hc =>
        simp only [Bool.and_eq_true] at hc
        rw [List.takeWhile_cons_of_pos (hlead c hc.1), List.length_cons]
        exact Nat.succ_le_succ (h.within rest)
      · exact Nat.zero_le _
  ends t d hd := by
    cases t with
    | nil => simp [behindLead] at hd
    | cons c rest =>
      rw [behindLead] at hd
      split at hd
      · next hc =>
        simp only [Bool.and_eq_true, ne_eq, decide_eq_true_eq] at hc
        -- there is more than the leading character, so the last one is that of the rest
        have hne := List.getLast?_eq_some_getLast (h.take_ne_nil hc.2)
        rw [List.take_succ_cons, List.getLast?_cons, hne] at hd
        exact h.ends rest d (by rw [hne]; simpa using hd)
      · simp at hd

theorem optional (hlead : ∀ c, lead c → isNumberLetter c) (h : NumberPart f) :
    NumberPart (withLead lead f) where
  reads t := by
    rw [withLead, withLead, (h.behind hlead).reads, h.reads]
  within t := by
    rw [withLead]
    split
    · exact h.within t
    · exact (h.behind hlead).within t
  ends t := by
    rw [withLead]
    split
    · exact h.ends t
    · exact (h.behind hlead).ends t

end NumberPart

/-! ### Numbers -/

theorem fractionLength_eq : fractionLength = behindLead (· = '.') digitsLength := by
  funext t
  cases t with
  | nil => rfl
  | cons c rest =>
    by_cases hc : c = '.'
    · subst hc
      by_cases hdigits : digitsLength rest = 0 <;> simp [fractionLength, behindLead, hdigits]
    · simp [behindLead, hc, fractionLength]

/-- Digits are counted behind their sign, where they have one. -/
theorem withLead_digits_cons {lead : Char → Bool} {c : Char} (hc : lead c → isDigit c = false)
    (rest : Text) :
    withLead lead digitsLength (c :: rest) =
      if lead c then (if digitsLength rest = 0 then 0 else 1 + digitsLength rest)
      else digitsLength (c :: rest) := by
  by_cases hlead : lead c
  · have hnone : digitsLength (c :: rest) = 0 := by simp [digitsLength, hc hlead]
    by_cases hdigits : digitsLength rest = 0
    · simp [withLead, behindLead, hlead, hdigits, hnone]
    · simp [withLead, behindLead, hlead, hdigits, Nat.add_comm]
  · simp [withLead, behindLead, hlead]

theorem exponentLength_eq :
    exponentLength = behindLead (fun c => c = 'e' || c = 'E')
      (withLead (fun c => c = '+' || c = '-') digitsLength) := by
  funext t
  cases t with
  | nil => rfl
  | cons e rest =>
    cases rest with
    | nil => simp [exponentLength, behindLead, withLead, digitsLength]
    | cons c rest =>
      rw [behindLead, withLead_digits_cons (by simp; rintro (rfl | rfl) <;> decide)]
      by_cases hsign : c = '+' ∨ c = '-'
      · by_cases hdigits : digitsLength rest = 0 <;> rcases hsign with rfl | rfl <;>
          simp [exponentLength, hdigits, Nat.add_comm, ← Nat.add_assoc]
      · rw [not_or] at hsign
        by_cases hdigits : digitsLength (c :: rest) = 0 <;>
          simp [exponentLength, hsign, hdigits, Nat.add_comm]

/-- The length of the digits before the point with their sign. -/
def wholeLength : Text → Nat := withLead (· = '-') digitsLength

/-- The length of a number: the three parts one after the other. -/
def spanLength (t : Text) : Nat :=
  let n := wholeLength t + fractionLength (t.drop (wholeLength t))
  n + exponentLength (t.drop n)

theorem numberLength?_eq (t : Text) :
    numberLength? t = if wholeLength t = 0 then none else some (spanLength t) := by
  cases t with
  | nil => rfl
  | cons c rest =>
    rw [spanLength, wholeLength, withLead_digits_cons (by simp; rintro rfl; decide)]
    by_cases hc : c = '-'
    · subst hc
      by_cases hdigits : digitsLength rest = 0 <;> simp [numberLength?, hdigits]
    · simp [numberLength?, hc]

theorem part_whole : NumberPart wholeLength := NumberPart.digits.optional fun c hc => by
  rw [decide_eq_true_eq] at hc
  subst hc
  decide

theorem part_fraction : NumberPart fractionLength := by
  rw [fractionLength_eq]
  refine NumberPart.digits.behind fun c hc => ?_
  rw [decide_eq_true_eq] at hc
  subst hc
  decide

theorem part_exponent : NumberPart exponentLength := by
  rw [exponentLength_eq]
  refine NumberPart.behind (fun c hc => ?_) (NumberPart.digits.optional fun c hc => ?_)
  · simp only [Bool.or_eq_true, decide_eq_true_eq] at hc
    rcases hc with rfl | rfl <;> decide
  · simp only [Bool.or_eq_true, decide_eq_true_eq] at hc
    rcases hc with rfl | rfl <;> decide

/-- A number begins with a digit or a minus. -/
theorem edge_of_wholeLength {t : Text} (h : wholeLength t ≠ 0) : ∃ c ∈ t.head?, isNumberEdge c := by
  cases t with
  | nil => exact absurd part_whole.nil h
  | cons c rest =>
    refine ⟨c, rfl, ?_⟩
    by_contra hc
    simp only [isNumberEdge, Bool.or_eq_true, decide_eq_true_eq, not_or] at hc
    exact h (by simp [wholeLength, withLead, behindLead, digitsLength, hc])

theorem part_span : NumberPart spanLength := (part_whole.append part_fraction).append part_exponent

theorem spanLength_of_some {t : Text} {n : Nat} (h : numberLength? t = some n) :
    wholeLength t ≠ 0 ∧ n = spanLength t ∧ spanLength t ≠ 0 := by
  rw [numberLength?_eq] at h
  split at h
  · cases h
  · next hne =>
    have hle : wholeLength t ≤ spanLength t :=
      Nat.le_trans (Nat.le_add_right _ _) (Nat.le_add_right _ _)
    exact ⟨hne, (Option.some.inj h).symm, by omega⟩

/-- **Numbers** are made of letters, and begin and end with a digit or a minus. -/
theorem literal_number : Literal isNumberLetter isNumberEdge numberLength? where
  reads t := by
    rw [numberLength?_eq, numberLength?_eq, part_whole.reads, part_span.reads]
  letters h c hc := by
    obtain ⟨-, rfl, -⟩ := spanLength_of_some h
    exact part_span.letters hc
  begins h := by
    obtain ⟨hwhole, rfl, hne⟩ := spanLength_of_some h
    rw [List.head?_take, if_neg hne]
    exact edge_of_wholeLength hwhole
  ends {t n} h := by
    obtain ⟨-, rfl, hne⟩ := spanLength_of_some h
    have hlast := List.getLast?_eq_some_getLast (part_span.take_ne_nil hne)
    have hdigit := part_span.ends t _ hlast
    exact ⟨_, hlast, by simp [isNumberEdge, hdigit]⟩

/-! ### Words -/

variable {letter edge : Char → Bool} {words : List Text}

/-- A word of letters stands at the head of a text where it stands at the head of its letters. -/
theorem startsWith_takeWhile {w : Text} (hw : ∀ c ∈ w, letter c) (t : Text) :
    startsWith (t.takeWhile letter) w = startsWith t w := by
  rw [Bool.eq_iff_iff, startsWith, startsWith, List.isPrefixOf_iff_prefix,
    List.isPrefixOf_iff_prefix]
  constructor
  · exact fun h => h.trans (List.takeWhile_prefix letter)
  · rintro ⟨rest, rfl⟩
    rw [List.takeWhile_append_of_pos hw]
    exact List.prefix_append w _

theorem reads_words (hw : ∀ w ∈ words, ∀ c ∈ w, letter c) : Reads letter (wordLength? words) := by
  intro t
  rw [wordLength?, wordLength?]
  congr 1
  induction words with
  | nil => rfl
  | cons w rest ih =>
    rw [List.find?_cons, List.find?_cons, startsWith_takeWhile (hw w List.mem_cons_self),
      ih fun v hv => hw v (List.mem_cons_of_mem w hv)]

theorem take_of_wordLength? {t : Text} {n : Nat} (h : wordLength? words t = some n) :
    t.take n ∈ words := by
  obtain ⟨w, hfound, rfl⟩ := Option.map_eq_some_iff.mp h
  have hhead : startsWith t w := List.find?_some hfound
  obtain ⟨rest, rfl⟩ := List.isPrefixOf_iff_prefix.mp hhead
  rw [List.take_left]
  exact List.mem_of_find?_eq_some hfound

/-- **Words** of letters that begin and end with edges. -/
theorem literal_words (hletters : words.all fun w => w.all letter)
    (hbegins : words.all fun w => w.head?.any edge)
    (hends : words.all fun w => w.getLast?.any edge) :
    Literal letter edge (wordLength? words) := by
  simp only [List.all_eq_true, Option.any_eq_true] at hletters hbegins hends
  exact ⟨reads_words hletters, fun h => hletters _ (take_of_wordLength? h),
    fun h => hbegins _ (take_of_wordLength? h), fun h => hends _ (take_of_wordLength? h)⟩

end Display

end LiveQuery
