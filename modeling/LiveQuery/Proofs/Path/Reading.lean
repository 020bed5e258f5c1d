/-
LiveQuery/Proofs/Path/Reading.lean

Paths that go on by one more element.

The reader is a machine over the characters, and a dot behind an element is a place at which it
starts again: what has been read before is kept, and the rest is read as if it came behind the
first dot (`readFrom_append_dot`).  So a path goes on by a step exactly if what comes behind the dot
is read as that step alone: for a key, if it is an identifier (`readFrom_key_iff`), and for the
hint of an item, if its index is short enough to be read (`readFrom_indexHint`).

Main result: `ofText?_snoc_iff`.
-/
import Mathlib.Tactic.SplitIfs
import LiveQuery.Path.Keys

namespace LiveQuery

namespace Text

/-! ### Numbers in digits -/

/-- The digits of a number: those of a tenth of it, and the last one. -/
theorem ofNat_eq (n : Nat) :
    ofNat n = if n < 10 then [Nat.digitChar n] else ofNat (n / 10) ++ [Nat.digitChar (n % 10)] :=
  Nat.toDigits_eq_if (by decide)

theorem ofNat_ne_nil (n : Nat) : ofNat n ≠ [] := by
  rw [ofNat_eq]
  split
  · exact List.cons_ne_nil _ _
  · exact List.append_ne_nil_of_right_ne_nil _ (List.cons_ne_nil _ _)

theorem isDigit_ofNat (n : Nat) : ∀ d ∈ ofNat n, isDigit d := by
  have hdigit : ∀ d < 10, isDigit (Nat.digitChar d) := by decide
  induction n using Nat.strongRecOn with
  | ind n ih =>
    intro d hd
    rw [ofNat_eq] at hd
    split at hd
    · rw [List.mem_singleton.mp hd]
      exact hdigit n (by omega)
    · rcases List.mem_append.mp hd with hbefore | hlast
      · exact ih (n / 10) (by omega) d hbefore
      · rw [List.mem_singleton.mp hlast]
        exact hdigit (n % 10) (by omega)

theorem digitsValue_snoc (ds : Text) (d : Char) :
    digitsValue (ds ++ [d]) = 10 * digitsValue ds + (digitValue? d).getD 0 := by
  rw [digitsValue, List.foldl_append]
  rfl

/-- The digits of a number are read as the number. -/
theorem digitsValue_ofNat (n : Nat) : digitsValue (ofNat n) = n := by
  have hdigit : ∀ d < 10, (digitValue? (Nat.digitChar d)).getD 0 = d := by decide
  induction n using Nat.strongRecOn with
  | ind n ih =>
    rw [ofNat_eq]
    split
    · next hsmall => simpa [digitsValue] using hdigit n hsmall
    · rw [digitsValue_snoc, ih (n / 10) (by omega), hdigit (n % 10) (by omega)]
      omega

theorem number_of_le {ds : Text} (h : ds.length ≤ maxDigits) : number ds = .ok (digitsValue ds) :=
  if_pos h

theorem number_of_lt {ds : Text} (h : maxDigits < ds.length) : number ds = .error ds.length :=
  if_neg (Nat.not_le_of_lt h)

end Text

namespace Path

open Text

variable {place next : Place} {p rest : Text} {ts : Path} {c : Char} {n : Nat}

/-! ### One character -/

/-- What one character adds to the path, and the place after it. -/
def advance : Place → Char → Except Nat (Option (Path × Place))
  | .dot, c =>
    .ok (if isIdentStart c then some ([], .ident [c])
      else if c = '[' then some ([], .bracket []) else none)
  | .ident name, c =>
    .ok (if isIdentPart c then some ([], .ident (name ++ [c]))
      else (follow? c).map ([.key name], ·))
  | .bracket digits, c =>
    if c = ']' then (bracketStep digits).map fun step => some ([step], .closed)
    else .ok (if isDigit c then some ([], .bracket (digits ++ [c])) else none)
  | .closed, c => .ok ((follow? c).map ([], ·))

/-- What the end of the text adds to the path. -/
def finish : Place → Option Path
  | .ident name => some [.key name]
  | .closed => some []
  | _ => none

theorem readFrom_nil (place : Place) : readFrom place [] = .ok (finish place) := by
  cases place <;> rfl

theorem map_append_nil (r : Except Nat (Option Path)) : r.map (Option.map ([] ++ ·)) = r := by
  rcases r with n | - | ts <;> rfl

/-- **One step of the reader**: what the character adds comes before all that follows. -/
theorem readFrom_cons (place : Place) (c : Char) (rest : Text) :
    readFrom place (c :: rest) =
      (advance place c).bind fun
        | some (out, next) => (readFrom next rest).map (Option.map (out ++ ·))
        | none => .ok none := by
  rcases place with - | name | digits | -
  · rw [readFrom, advance]
    split_ifs
    · exact (map_append_nil _).symm
    · exact (map_append_nil _).symm
    · rfl
  · rw [readFrom, advance]
    split_ifs
    · exact (map_append_nil _).symm
    · rcases follow? c with - | next <;> rfl
  · rw [readFrom, advance]
    split_ifs
    · rcases bracketStep digits with n | step <;> rfl
    · exact (map_append_nil _).symm
    · rfl
  · rw [readFrom, advance]
    rcases follow? c with - | next
    · rfl
    · exact (map_append_nil _).symm

/-- A text is read as a path, from a place on. -/
abbrev Reads (place : Place) (t : Text) (ts : Path) : Prop := readFrom place t = .ok (some ts)

theorem reads_cons_iff :
    Reads place (c :: rest) ts ↔ ∃ out next behind,
      advance place c = .ok (some (out, next)) ∧ Reads next rest behind ∧ out ++ behind = ts := by
  rw [Reads, readFrom_cons]
  constructor
  · intro h
    rcases hstep : advance place c with n | - | ⟨out, next⟩ <;> rw [hstep] at h
    · cases h
    · cases h
    · replace h : (readFrom next rest).map (Option.map (out ++ ·)) = .ok (some ts) := h
      rcases hread : readFrom next rest with n | - | behind <;> rw [hread] at h
      · cases h
      · cases h
      · exact ⟨out, next, behind, rfl, hread, Option.some.inj (Except.ok.inj h)⟩
  · rintro ⟨out, next, behind, hstep, hread, rfl⟩
    rw [hstep]
    show (readFrom next rest).map _ = _
    rw [hread]
    rfl

/-- A dot ends the element at hand as the end of the text does. -/
theorem advance_dot (h : finish place = some ts) : advance place '.' = .ok (some (ts, .dot)) := by
  rcases place with - | name | digits | -
  · cases h
  · cases h
    rfl
  · cases h
  · cases h
    rfl

/-- **The reader starts again** at a dot behind what it has read. -/
theorem readFrom_append_dot (h : Reads place p ts) (k : Text) :
    readFrom place (p ++ '.' :: k) = (readFrom .dot k).map (Option.map (ts ++ ·)) := by
  induction p generalizing place ts with
  | nil =>
    -- where the text ended, the dot leads to the place from which all of `k` is read
    rw [Reads, readFrom_nil] at h
    rw [List.nil_append, readFrom_cons, advance_dot (Except.ok.inj h)]
    rfl
  | cons c rest ih =>
    obtain ⟨out, next, behind, hstep, hread, rfl⟩ := reads_cons_iff.mp h
    rw [List.cons_append, readFrom_cons, hstep]
    show (readFrom next (rest ++ '.' :: k)).map _ = _
    rw [ih hread]
    rcases readFrom .dot k with n | - | more
    · rfl
    · rfl
    · exact congrArg (Except.ok ∘ some) (List.append_assoc out behind more).symm

/-! ### Elements -/

/-- An identifier: what stands behind a dot to name a member. -/
def isIdentifier : Text → Bool
  | [] => false
  | c :: rest => isIdentStart c && rest.all isIdentPart

/-- An identifier goes on to the end of the text. -/
theorem reads_ident_iff (name : Text) (rest : Text) :
    Reads (.ident name) rest [.key (name ++ rest)] ↔ rest.all isIdentPart := by
  induction rest generalizing name with
  | nil => simp [Reads, readFrom]
  | cons c rest ih =>
    by_cases hc : isIdentPart c
    · rw [Reads, readFrom, if_pos hc, List.all_cons, hc, Bool.true_and, ← ih, List.append_assoc]
      rfl
    · -- the name would end before the character
      rw [List.all_cons, Bool.eq_false_iff.mpr hc, Bool.false_and]
      refine iff_of_false (fun h => ?_) Bool.false_ne_true
      obtain ⟨out, next, behind, hstep, -, hsame⟩ := reads_cons_iff.mp h
      rw [advance, if_neg hc, Except.ok.injEq, Option.map_eq_some_iff] at hstep
      obtain ⟨place, -, hout⟩ := hstep
      obtain rfl : [.key name] = out := congrArg Prod.fst hout
      simp at hsame

theorem bracketStep_ne_key (digits k : Text) : bracketStep digits ≠ .ok (.key k) := by
  rw [bracketStep]
  split
  · exact fun h => Step.noConfusion (Except.ok.inj h)
  · rcases number digits with n | n
    · exact nofun
    · exact fun h => Step.noConfusion (Except.ok.inj h)

/-- A bracket is no key. -/
theorem exists_of_reads_bracket {digits : Text} (h : Reads (.bracket digits) rest ts) :
    ∃ all step more, bracketStep all = .ok step ∧ ts = step :: more := by
  induction rest generalizing digits ts with
  | nil => cases h
  | cons c rest ih =>
    obtain ⟨out, next, behind, hstep, hread, rfl⟩ := reads_cons_iff.mp h
    rw [advance] at hstep
    split_ifs at hstep
    · rcases hb : bracketStep digits with n | step <;> rw [hb] at hstep <;> cases hstep
      exact ⟨digits, step, behind, hb, rfl⟩
    · cases hstep
      exact ih hread
    · cases hstep

/-- **A key** is read back behind a dot exactly if it is an identifier. -/
theorem reads_key_iff (k : Text) : Reads .dot k [.key k] ↔ isIdentifier k := by
  cases k with
  | nil => simp [Reads, readFrom, isIdentifier]
  | cons c rest =>
    rw [Reads, readFrom, isIdentifier]
    by_cases hc : isIdentStart c
    · rw [if_pos hc, hc, Bool.true_and, ← reads_ident_iff [c] rest, List.singleton_append]
    · rw [if_neg hc, Bool.eq_false_iff.mpr hc, Bool.false_and]
      refine iff_of_false (fun h => ?_) Bool.false_ne_true
      split_ifs at h
      · obtain ⟨all, step, more, hstep, hts⟩ := exists_of_reads_bracket h
        obtain ⟨rfl, -⟩ := List.cons_eq_cons.mp hts
        exact bracketStep_ne_key all _ hstep
      · cases h

/-- Digits go on to the end of their bracket. -/
theorem readFrom_digits {ds : Text} (h : ∀ d ∈ ds, isDigit d) (before rest : Text) :
    readFrom (.bracket before) (ds ++ ']' :: rest) =
      (bracketStep (before ++ ds)).bind fun step =>
        (readFrom .closed rest).map (Option.map (step :: ·)) := by
  induction ds generalizing before with
  | nil =>
    rw [List.nil_append, readFrom, if_pos rfl, List.append_nil]
    rcases bracketStep before with n | step <;> rfl
  | cons d ds ih =>
    have hd : isDigit d := h d List.mem_cons_self
    have hne : d ≠ ']' := by
      rintro rfl
      exact absurd hd (by decide)
    have hrest : ∀ e ∈ ds, isDigit e := fun e he => h e (List.mem_cons_of_mem d he)
    rw [List.cons_append, readFrom, if_neg hne, if_pos hd, ih hrest, List.append_assoc]
    rfl

/-- The digits of a number that is short enough are the step to its item. -/
theorem bracketStep_ofNat (h : (ofNat n).length ≤ maxDigits) :
    bracketStep (ofNat n) = .ok (.index n) := by
  rw [bracketStep, if_neg (fun he => ofNat_ne_nil n (List.isEmpty_iff.mp he)), number_of_le h,
    digitsValue_ofNat]
  rfl

/-- **The hint for an item** is read back as its index. -/
theorem reads_indexHint (h : (ofNat n).length ≤ maxDigits) :
    Reads .dot (Value.indexHint n) [.index n] := by
  rw [Reads, Value.indexHint, readFrom, if_neg (by decide), if_pos rfl,
    readFrom_digits (isDigit_ofNat n), List.nil_append, bracketStep_ofNat h]
  rfl

/-- The items for which an index is offered have short ones. -/
theorem length_ofNat_le (h : n < Value.maxIndexHints) : (ofNat n).length ≤ maxDigits := by
  have hthree : (ofNat n).length ≤ 3 :=
    (Nat.length_toDigits_le_iff (by decide) (by decide)).mpr (Nat.lt_trans h (by decide))
  exact Nat.le_trans hthree (by decide)

/-! ### Paths -/

/-- What stands behind a dot is read from there on. -/
theorem read_dot {t : Text} (h : t ≠ []) : read ('.' :: t) = readFrom .dot t := by
  cases t with
  | nil => exact absurd rfl h
  | cons c rest => rfl

theorem head_of_read (h : read (c :: rest) ≠ .ok none) : c = '.' := by
  unfold read at h
  split at h
  · next heq => cases heq
  · next heq => exact (List.cons_eq_cons.mp heq).1
  · next heq => exact (List.cons_eq_cons.mp heq).1
  · exact absurd rfl h

theorem head_of_ofText? (h : ofText? (c :: rest) = some ts) : c = '.' := by
  rw [ofText?_eq_some_iff] at h
  exact head_of_read (by rw [h]; exact nofun)

/-- **A path goes on by one step** behind a dot, exactly if what comes behind the dot is read as
that step.  Nothing comes behind two dots. -/
theorem ofText?_snoc_iff {kept : Text} {step : Step}
    (h : ofText? (if kept.isEmpty then ['.'] else kept) = some ts) (k : Text) :
    ofText? (kept ++ '.' :: k) = some (ts ++ [step]) ↔ kept ≠ ['.'] ∧ Reads .dot k [step] := by
  rw [ofText?_eq_some_iff]
  cases kept with
  | nil =>
    obtain rfl : [] = ts := Option.some.inj h
    rw [List.nil_append, List.nil_append, and_iff_right (List.cons_ne_nil _ _).symm]
    cases k with
    | nil => simp [Reads, read, readFrom]
    | cons d k => rfl
  | cons c rest =>
    obtain rfl := head_of_ofText? h
    cases rest with
    | nil =>
      -- a second dot right behind the first
      refine iff_of_false (fun h => ?_) fun hdots => hdots.1 rfl
      cases h
    | cons d rest =>
      have hread : Reads .dot (d :: rest) ts := ofText?_eq_some_iff.mp h
      show readFrom .dot ((d :: rest) ++ '.' :: k) = .ok (some (ts ++ [step])) ↔ _
      rw [readFrom_append_dot hread, Reads]
      rcases readFrom .dot k with n | - | more <;> simp [Except.map]

end Path

end LiveQuery
