/-
LiveQuery/Proofs/Json/Reading.lean

Printed values are read back.

Design.  A text is one of a value if the reader takes it as that value whatever comes after it, as
long as it is nothing that a number could go on with (`Reads`).  The texts of arrays and objects are
put together from those of their parts: behind the first item stands a tail of further items and the
bracket (`ItemsTail`), and behind the first member a tail of further members and the brace
(`MembersTail`).  The rules say which white space may stand where, so that both printers are
instances of them, each by one recursion over the value.

The bound of the reader is twice the length of the text: an item is read two calls deeper than its
array, and takes a character of the array with it.

Main results: both printers are read back (`reads_layout`, `reads_compact`), also as whole texts
(`Reads.read_whole`).
-/
import Mathlib.Data.List.TakeDrop
import LiveQuery.Proofs.Json.Strings
import LiveQuery.Proofs.Path.Reading

namespace LiveQuery

/-! ### Digits -/

namespace Text

theorem isAsciiDigit_ofNat (n : Nat) : ∀ d ∈ ofNat n, isAsciiDigit d := by
  intro d hd
  have hdigit := Nat.isDigit_of_mem_toDigits (by decide) (by decide) hd
  unfold Char.isDigit at hdigit
  exact hdigit

/-- A number above zero begins with another digit than zero. -/
theorem ofNat_pos {n : Nat} (hn : 0 < n) : ∃ d ds, ofNat n = d :: ds ∧ d ≠ '0' := by
  have hdigit : ∀ d < 10, 0 < d → Nat.digitChar d ≠ '0' := by decide
  induction n using Nat.strongRecOn with
  | ind n ih =>
    rw [ofNat_eq]
    split
    · next hsmall => exact ⟨_, [], rfl, hdigit n hsmall hn⟩
    · obtain ⟨d, ds, he, hd⟩ := ih (n / 10) (by omega) (by omega)
      rw [he]
      exact ⟨d, _, rfl, hd⟩

end Text

namespace Json

open Text

/-! ### Numbers -/

/-- What comes after a value begins with nothing that a number could go on with. -/
def Stops (rest : Text) : Prop :=
  ∀ c, rest.head? = some c → isAsciiDigit c = false ∧ c ≠ '.' ∧ c ≠ 'e' ∧ c ≠ 'E'

theorem stops_nil : Stops [] := by simp [Stops]

theorem stops_cons {c : Char} (hc : isAsciiDigit c = false ∧ c ≠ '.' ∧ c ≠ 'e' ∧ c ≠ 'E')
    (rest : Text) : Stops (c :: rest) := by
  intro d hd
  obtain rfl := Option.some.inj hd
  exact hc

theorem fraction_stops {rest : Text} (h : Stops rest) : fraction rest = ([], rest) := by
  rcases rest with - | ⟨c, rest⟩
  · rfl
  · obtain ⟨-, hpoint, -⟩ := h c rfl
    unfold fraction
    split
    · next he => exact absurd (List.cons.inj he).1 hpoint
    · rfl

theorem exponent_stops {rest : Text} (h : Stops rest) : exponent rest = (none, rest) := by
  rcases rest with - | ⟨c, rest⟩
  · rfl
  · obtain ⟨-, -, hsmall, hcapital⟩ := h c rfl
    simp [exponent, hsmall, hcapital]

theorem span_ofNat (n : Nat) {rest : Text} (h : Stops rest) :
    (ofNat n ++ rest).span isAsciiDigit = (ofNat n, rest) := by
  have hrest : rest.takeWhile isAsciiDigit = [] ∧ rest.dropWhile isAsciiDigit = rest := by
    rcases rest with - | ⟨c, rest⟩
    · exact ⟨rfl, rfl⟩
    · obtain ⟨hdigit, -⟩ := h c rfl
      exact ⟨List.takeWhile_cons_of_neg (by simp [hdigit]),
        List.dropWhile_cons_of_neg (by simp [hdigit])⟩
  rw [List.span_eq_takeWhile_dropWhile, List.takeWhile_append_of_pos (isAsciiDigit_ofNat n),
    List.dropWhile_append_of_pos (isAsciiDigit_ofNat n), hrest.1, hrest.2, List.append_nil]

theorem wholeDigits_ofNat (n : Nat) {rest : Text} (h : Stops rest) :
    wholeDigits (ofNat n ++ rest) = (ofNat n, rest) := by
  rcases Nat.eq_zero_or_pos n with rfl | hn
  · rfl
  · obtain ⟨d, ds, he, hd⟩ := ofNat_pos hn
    have hspan := span_ofNat n h
    rw [he] at hspan ⊢
    unfold wholeDigits
    split
    · next hzero => exact absurd (List.cons.inj hzero).1 hd
    · exact hspan

/-- The digits of a number are read as the number, behind a minus sign as its opposite. -/
theorem readNumber_digits (n : Nat) {rest : Text} (h : Stops rest) :
    readNumber (ofNat n ++ rest) = .ok (.int n, rest) ∧
      readNumber ('-' :: (ofNat n ++ rest)) = .ok (.int (-n), rest) := by
  obtain ⟨d, ds, he⟩ := List.exists_cons_of_ne_nil (ofNat_ne_nil n)
  have hdigit : isAsciiDigit d := isAsciiDigit_ofNat n d (he ▸ List.mem_cons_self)
  have hwhole := wholeDigits_ofNat n h
  have hvalue := digitsValue_ofNat n
  rw [he] at hwhole hvalue ⊢
  rw [List.cons_append] at hwhole
  constructor
  · have hsign : d ≠ '-' := by
      rintro rfl
      cases hdigit
    simp [readNumber, hsign, hwhole, hvalue, fraction_stops h, exponent_stops h]
  · simp [readNumber, hwhole, hvalue, fraction_stops h, exponent_stops h]

/-- A number is read back. -/
theorem readNumber_ofInt (i : Int) {rest : Text} (h : Stops rest) :
    readNumber (ofInt i ++ rest) = .ok (.int i, rest) := by
  cases i with
  | ofNat n => exact (readNumber_digits n h).1
  | negSucc n => exact (readNumber_digits (n + 1) h).2

/-! ### Texts of values -/

/-- White space. -/
def White (w : Text) : Prop := ∀ c ∈ w, isWhite c

/-- A text begins with a visible character, which does not end an array. -/
def Starts (t : Text) : Prop :=
  ∃ c more, t = c :: more ∧ 0x21 ≤ c.toNat ∧ c.toNat ≤ 0x7E ∧ c ≠ ']'

/-- The text is one of the value: the reader takes it as the value, whatever comes after it. -/
structure Reads (v : Value) (t : Text) : Prop where
  starts : Starts t
  read : ∀ bound rest, 2 * t.length ≤ bound → Stops rest →
    readValue bound (t ++ rest) = .ok (v, rest)

/-- White space before a text that begins visibly is passed over. -/
theorem Starts.skipWhite {t w : Text} (ht : Starts t) (hw : White w) (rest : Text) :
    skipWhite (w ++ (t ++ rest)) = t ++ rest := by
  obtain ⟨c, more, rfl, hlow, hhigh, -⟩ := ht
  have hc : isWhite c = false := by
    unfold isWhite
    simp only [Bool.or_eq_false_iff, decide_eq_false_iff_not]
    refine ⟨⟨⟨?_, ?_⟩, ?_⟩, ?_⟩ <;> rintro rfl <;> simp at hlow
  rw [Json.skipWhite, List.dropWhile_append_of_pos hw, List.cons_append]
  exact List.dropWhile_cons_of_neg (by simp [hc])

/-- A scalar is read whatever the bound is. -/
theorem reads_scalar {v : Value} {t : Text} (hstarts : Starts t)
    (hhead : ∀ c, t.head? = some c → c ≠ '"' ∧ c ≠ '[' ∧ c ≠ '{')
    (hread : ∀ rest, Stops rest → readScalar (t ++ rest) = .ok (v, rest)) : Reads v t := by
  refine ⟨hstarts, fun bound rest hbound hrest => ?_⟩
  obtain ⟨c, more, rfl, -⟩ := hstarts
  obtain ⟨hquote, hbracket, hbrace⟩ := hhead c rfl
  obtain ⟨bound, rfl⟩ := Nat.exists_eq_succ_of_ne_zero (n := bound) (by
    rw [List.length_cons] at hbound
    omega)
  rw [← hread rest hrest, List.cons_append]
  simp [readValue, hquote, hbracket, hbrace]

theorem reads_null : Reads .null "null".toList :=
  reads_scalar ⟨'n', _, rfl, by decide⟩ (by simp) fun _ _ => rfl

theorem reads_bool (b : Bool) : Reads (.bool b) (boolText b) := by
  cases b with
  | false => exact reads_scalar ⟨'f', _, rfl, by decide⟩ (by simp [boolText]) fun _ _ => rfl
  | true => exact reads_scalar ⟨'t', _, rfl, by decide⟩ (by simp [boolText]) fun _ _ => rfl

/-- No word begins like a number. -/
theorem words_digit {d : Char} (hd : isAsciiDigit d) (rest : Text) :
    (words.find? fun w => Text.startsWith (d :: rest) w.1) = none ∧
      (words.find? fun w => Text.startsWith ('-' :: d :: rest) w.1) = none := by
  have hne : 'n' ≠ d ∧ 't' ≠ d ∧ 'f' ≠ d ∧ 'N' ≠ d ∧ 'I' ≠ d ∧ '-' ≠ d := by
    refine ⟨?_, ?_, ?_, ?_, ?_, ?_⟩ <;> rintro rfl <;> cases hd
  constructor <;> simp [words, Text.startsWith, List.isPrefixOf, hne]

theorem reads_int (i : Int) : Reads (.int i) (ofInt i) := by
  obtain ⟨n, hi⟩ : ∃ n, ofInt i = ofNat n ∨ ofInt i = '-' :: ofNat n := by
    cases i with
    | ofNat n => exact ⟨n, .inl rfl⟩
    | negSucc n => exact ⟨n + 1, .inr rfl⟩
  obtain ⟨d, ds, he⟩ := List.exists_cons_of_ne_nil (ofNat_ne_nil n)
  have hdigit : isAsciiDigit d := isAsciiDigit_ofNat n d (he ▸ List.mem_cons_self)
  have hrange : 0x30 ≤ d.toNat ∧ d.toNat ≤ 0x39 := by
    simpa [isAsciiDigit, Char.le_def, UInt32.le_iff_toNat_le] using hdigit
  rw [he] at hi
  have hscalar (rest : Text) : readScalar (ofInt i ++ rest) = readNumber (ofInt i ++ rest) := by
    obtain ⟨hplain, hminus⟩ := words_digit hdigit (ds ++ rest)
    unfold readScalar
    rcases hi with hi | hi <;> rw [hi] <;> simp only [List.cons_append]
    · rw [hplain]
    · rw [hminus]
  refine reads_scalar ?_ ?_ fun rest hrest => (hscalar rest).trans (readNumber_ofInt i hrest)
  · rcases hi with hi | hi <;> rw [hi]
    · refine ⟨d, ds, rfl, by omega, by omega, ?_⟩
      rintro rfl
      cases hdigit
    · exact ⟨'-', _, rfl, by decide⟩
  · intro c hc
    rcases hi with hi | hi <;> rw [hi] at hc <;> obtain rfl := Option.some.inj hc
    · refine ⟨?_, ?_, ?_⟩ <;> rintro rfl <;> cases hdigit
    · decide

theorem reads_string {char : Char → Text} (hchar : Spells char) (t : Text) :
    Reads (.string t) (quote char t) := by
  refine ⟨⟨'"', _, rfl, by decide⟩, fun bound rest hbound hrest => ?_⟩
  obtain ⟨bound, rfl⟩ := Nat.exists_eq_succ_of_ne_zero (n := bound) (by
    rw [quote, List.length_cons] at hbound
    omega)
  show (readString (quote char t ++ rest)).map (fun r => (Value.string r.1, r.2)) = _
  rw [readString_quote hchar]
  rfl

/-! ### White space -/

theorem White.stops {w rest : Text} (hw : White w) (hrest : Stops rest) : Stops (w ++ rest) := by
  rcases w with - | ⟨c, w⟩
  · exact hrest
  · have hc := hw c List.mem_cons_self
    refine stops_cons ?_ (w ++ rest)
    simp only [isWhite, Bool.or_eq_true, decide_eq_true_eq] at hc
    rcases hc with ((rfl | rfl) | rfl) | rfl <;> decide

/-- White space before a mark is passed over. -/
theorem White.skip {w : Text} (hw : White w) {c : Char} (hc : isWhite c = false) (rest : Text) :
    skipWhite (w ++ c :: rest) = c :: rest := by
  rw [skipWhite, List.dropWhile_append_of_pos hw]
  exact List.dropWhile_cons_of_neg (by simp [hc])

/-! ### Arrays -/

/-- The text is one of the items behind the first one, with the bracket at the end. -/
structure ItemsTail (vs : List Value) (u : Text) : Prop where
  stops : ∀ rest, Stops (u ++ rest)
  read : ∀ {v t}, Reads v t → ∀ bound rest, 2 * (t ++ u).length ≤ bound →
    readItems bound (t ++ (u ++ rest)) = .ok (v :: vs, rest)

theorem ItemsTail.close {w : Text} (hw : White w) : ItemsTail [] (w ++ [']']) := by
  have hstops (rest : Text) : Stops (w ++ [']'] ++ rest) := by
    rw [List.append_assoc]
    exact hw.stops (stops_cons (by decide) _)
  refine ⟨hstops, fun {v t} hv bound rest hbound => ?_⟩
  obtain ⟨bound, rfl⟩ := Nat.exists_eq_succ_of_ne_zero (n := bound) (by
    simp only [List.length_append, List.length_cons] at hbound
    omega)
  have hread := hv.read bound (w ++ [']'] ++ rest) (by
    simp only [List.length_append, List.length_cons] at hbound
    omega) (hstops rest)
  rw [readItems]
  simp only [hread, bind, Except.bind]
  rw [List.append_assoc, List.singleton_append, hw.skip (by decide)]
  rfl

theorem ItemsTail.cons {w t u : Text} {v : Value} {vs : List Value} (hw : White w)
    (hv : Reads v t) (hu : ItemsTail vs u) : ItemsTail (v :: vs) (',' :: (w ++ (t ++ u))) := by
  refine ⟨fun rest => stops_cons (by decide) _, fun {v₀ t₀} hv₀ bound rest hbound => ?_⟩
  obtain ⟨bound, rfl⟩ := Nat.exists_eq_succ_of_ne_zero (n := bound) (by
    simp only [List.length_append, List.length_cons] at hbound
    omega)
  have hread := hv₀.read bound (',' :: (w ++ (t ++ u)) ++ rest) (by
    simp only [List.length_append, List.length_cons] at hbound
    omega) (stops_cons (by decide) _)
  have hitems := hu.read hv bound rest (by
    simp only [List.length_append, List.length_cons] at hbound ⊢
    omega)
  rw [readItems]
  simp only [hread, bind, Except.bind]
  have hskip : skipWhite (',' :: (w ++ (t ++ u)) ++ rest) = ',' :: (w ++ (t ++ (u ++ rest))) := by
    rw [List.cons_append, List.append_assoc, List.append_assoc]
    rfl
  rw [hskip]
  show (readItems bound (skipWhite (w ++ (t ++ (u ++ rest))))).map _ = _
  rw [hv.starts.skipWhite hw, hitems]
  rfl

theorem reads_array_nil : Reads (.array []) "[]".toList := by
  refine ⟨⟨'[', _, rfl, by decide⟩, fun bound rest hbound hrest => ?_⟩
  obtain ⟨bound, rfl⟩ := Nat.exists_eq_succ_of_ne_zero (n := bound) (by
    have : "[]".toList.length = 2 := rfl
    omega)
  rfl

theorem reads_array {w t u : Text} {v : Value} {vs : List Value} (hw : White w) (hv : Reads v t)
    (hu : ItemsTail vs u) : Reads (.array (v :: vs)) ('[' :: (w ++ (t ++ u))) := by
  refine ⟨⟨'[', _, rfl, by decide⟩, fun bound rest hbound hrest => ?_⟩
  obtain ⟨bound, rfl⟩ := Nat.exists_eq_succ_of_ne_zero (n := bound) (by
    rw [List.length_cons] at hbound
    omega)
  have hitems := hu.read hv bound rest (by
    simp only [List.length_append, List.length_cons] at hbound ⊢
    omega)
  have hskip : skipWhite (w ++ (t ++ (u ++ rest))) = t ++ (u ++ rest) :=
    hv.starts.skipWhite hw (u ++ rest)
  obtain ⟨c, more, rfl, -, -, hc⟩ := hv.starts
  rw [List.cons_append, List.append_assoc, List.append_assoc, readValue, hskip]
  simp only [List.cons_append] at hitems ⊢
  split
  · next he => exact absurd (List.cons.inj he).1 hc
  · rw [hitems]
    rfl

/-! ### Objects -/

/-- The members after others have been read behind them. -/
def added (before members : List (Text × Value)) : List (Text × Value) :=
  members.foldl (fun ms m => Value.setMember m.1 m.2 ms) before

section

variable {char : Char → Text}

/-- The text of a member: its key, a colon and its value. -/
def memberText (char : Char → Text) (key t : Text) : Text := quote char key ++ (": ".toList ++ t)

/-- The text is one of the members behind the first one, with the brace at the end. -/
structure MembersTail (char : Char → Text) (ms : List (Text × Value)) (u : Text) : Prop where
  stops : ∀ rest, Stops (u ++ rest)
  read : ∀ key {v t}, Reads v t → ∀ before bound rest,
    2 * (memberText char key t ++ u).length ≤ bound →
    readMembers bound before (memberText char key t ++ (u ++ rest)) =
      .ok (added before ((key, v) :: ms), rest)

/-- A member is read, and behind it the brace at the end or further members. -/
theorem readMembers_member (hchar : Spells char) {v : Value} {t : Text} (hv : Reads v t)
    {rest : Text} (hrest : Stops rest) (key : Text) (before : List (Text × Value)) {bound : Nat}
    (hbound : 2 * t.length ≤ bound) :
    (∀ left, skipWhite rest = '}' :: left →
      readMembers (bound + 1) before (memberText char key t ++ rest) =
        .ok (Value.setMember key v before, left)) ∧
    (∀ more, skipWhite rest = ',' :: more →
      readMembers (bound + 1) before (memberText char key t ++ rest) =
        readMembers bound (Value.setMember key v before) (skipWhite more)) := by
  have hkey : readKey (memberText char key t ++ rest) = .ok (key, ": ".toList ++ (t ++ rest)) := by
    have hstring := readString_quote hchar key (": ".toList ++ (t ++ rest))
    rw [memberText, List.append_assoc, List.append_assoc]
    exact hstring
  have hcolon : readColon (": ".toList ++ (t ++ rest)) = .ok (t ++ rest) := by
    have hskip := hv.starts.skipWhite (w := [' ']) (by simp [White, isWhite]) rest
    show Except.ok (skipWhite ([' '] ++ (t ++ rest))) = _
    rw [hskip]
  have hvalue := hv.read bound rest hbound hrest
  constructor
  · intro left hskip
    rw [readMembers]
    simp only [hkey, hcolon, hvalue, hskip, bind, Except.bind]
  · intro more hskip
    rw [readMembers]
    simp only [hkey, hcolon, hvalue, hskip, bind, Except.bind]

theorem length_memberText (char : Char → Text) (key t : Text) :
    t.length < (memberText char key t).length := by
  simp only [memberText, List.length_append]
  have hcolon : ": ".toList.length = 2 := rfl
  omega

theorem starts_memberText (char : Char → Text) (key t : Text) :
    Starts (memberText char key t) :=
  ⟨'"', _, rfl, by decide⟩

theorem MembersTail.close (hchar : Spells char) {w : Text} (hw : White w) :
    MembersTail char [] (w ++ ['}']) := by
  have hstops (rest : Text) : Stops (w ++ ['}'] ++ rest) := by
    rw [List.append_assoc]
    exact hw.stops (stops_cons (by decide) _)
  refine ⟨hstops, fun key {v t} hv before bound rest hbound => ?_⟩
  have hlength := length_memberText char key t
  rw [List.length_append] at hbound
  obtain ⟨bound, rfl⟩ := Nat.exists_eq_succ_of_ne_zero (n := bound) (by omega)
  refine (readMembers_member hchar hv (hstops rest) key before (by omega)).1 rest ?_
  rw [List.append_assoc, List.singleton_append, hw.skip (by decide)]

theorem MembersTail.cons (key : Text) (hchar : Spells char) {w t u : Text} {v : Value}
    {ms : List (Text × Value)} (hw : White w) (hv : Reads v t) (hu : MembersTail char ms u) :
    MembersTail char ((key, v) :: ms) (',' :: (w ++ (memberText char key t ++ u))) := by
  refine ⟨fun rest => stops_cons (by decide) _, fun key₀ {v₀ t₀} hv₀ before bound rest hbound => ?_⟩
  have hlength := length_memberText char key₀ t₀
  simp only [List.length_append, List.length_cons] at hbound
  obtain ⟨bound, rfl⟩ := Nat.exists_eq_succ_of_ne_zero (n := bound) (by omega)
  have hmembers := hu.read key hv (Value.setMember key₀ v₀ before) bound rest (by
    rw [List.length_append]
    omega)
  have hskip : skipWhite (',' :: (w ++ (memberText char key t ++ u)) ++ rest) =
      ',' :: (w ++ (memberText char key t ++ (u ++ rest))) := by
    rw [List.cons_append, List.append_assoc, List.append_assoc]
    rfl
  have hstops : Stops (',' :: (w ++ (memberText char key t ++ u)) ++ rest) :=
    stops_cons (by decide) _
  rw [(readMembers_member hchar hv₀ hstops key₀ before (by omega)).2 _ hskip,
    (starts_memberText char key t).skipWhite hw, hmembers]
  rfl

theorem reads_object_nil : Reads (.object []) "\x7b\x7d".toList := by
  refine ⟨⟨'{', _, rfl, by decide⟩, fun bound rest hbound hrest => ?_⟩
  obtain ⟨bound, rfl⟩ := Nat.exists_eq_succ_of_ne_zero (n := bound) (by
    have : "\x7b\x7d".toList.length = 2 := rfl
    omega)
  rfl

theorem reads_object (key : Text) {w t u : Text} {v : Value} {ms : List (Text × Value)}
    (hw : White w) (hv : Reads v t) (hu : MembersTail char ms u) :
    Reads (.object (added [] ((key, v) :: ms))) ('{' :: (w ++ (memberText char key t ++ u))) := by
  refine ⟨⟨'{', _, rfl, by decide⟩, fun bound rest hbound hrest => ?_⟩
  obtain ⟨bound, rfl⟩ := Nat.exists_eq_succ_of_ne_zero (n := bound) (by
    rw [List.length_cons] at hbound
    omega)
  have hmembers := hu.read key hv [] bound rest (by
    simp only [List.length_append, List.length_cons] at hbound ⊢
    omega)
  have hskip : skipWhite (w ++ (memberText char key t ++ (u ++ rest))) =
      memberText char key t ++ (u ++ rest) :=
    (starts_memberText char key t).skipWhite hw (u ++ rest)
  rw [List.cons_append, List.append_assoc, List.append_assoc, readValue, hskip]
  show (readMembers bound [] (memberText char key t ++ (u ++ rest))).map _ = _
  rw [hmembers]
  rfl

end

end Json

namespace Value

open Json

/-! ### Values without doubles -/

mutual

/-- Whether a value has no doubles, and the keys of each object differ. -/
def isPlain : Value → Bool
  | real _ => false
  | array items => arePlain items
  | object members => decide (members.map Prod.fst).Nodup && plainMembers members
  | _ => true

/-- Whether all items are plain. -/
def arePlain : List Value → Bool
  | [] => true
  | v :: rest => isPlain v && arePlain rest

/-- Whether the values of all members are plain. -/
def plainMembers : List (Text × Value) → Bool
  | [] => true
  | (_, v) :: rest => isPlain v && plainMembers rest

end

theorem setMember_of_not_mem {key : Text} {ms : List (Text × Value)} (v : Value)
    (h : key ∉ ms.map Prod.fst) : setMember key v ms = ms ++ [(key, v)] := by
  induction ms with
  | nil => rfl
  | cons m rest ih =>
    obtain ⟨k, w⟩ := m
    rw [List.map_cons, List.mem_cons, not_or] at h
    rw [setMember, if_neg (Ne.symm h.1), ih h.2]
    rfl

/-- Members whose keys differ are added one behind the other. -/
theorem added_of_nodup {before ms : List (Text × Value)}
    (h : ((before ++ ms).map Prod.fst).Nodup) : added before ms = before ++ ms := by
  induction ms generalizing before with
  | nil => exact (List.append_nil before).symm
  | cons m rest ih =>
    obtain ⟨key, v⟩ := m
    have hkey : key ∉ before.map Prod.fst := by
      rw [List.map_append, List.nodup_append] at h
      exact fun hm => h.2.2 key hm key (by simp) rfl
    show added (setMember key v before) rest = _
    rw [setMember_of_not_mem v hkey, ih (by rwa [List.append_assoc]), List.append_assoc]
    rfl

theorem white_breakLine (level : Nat) : White (breakLine level) := by
  intro c hc
  rcases List.mem_cons.mp hc with rfl | hc
  · rfl
  · rw [List.eq_of_mem_replicate hc]
    rfl

theorem white_space : White [' '] := by simp [White, isWhite]

theorem white_nil : White [] := by simp [White]

theorem isPlain_object {key : Text} {v : Value} {rest : List (Text × Value)}
    (h : (object ((key, v) :: rest)).isPlain) :
    (([] ++ (key, v) :: rest).map Prod.fst).Nodup ∧ v.isPlain = true ∧
      plainMembers rest = true := by
  rw [isPlain, plainMembers, Bool.and_eq_true, Bool.and_eq_true, decide_eq_true_eq] at h
  exact h

/-! ### The printers -/

mutual

/-- **What is laid out is read back**, at every level of indentation. -/
theorem reads_layout (level : Nat) : ∀ v : Value, v.isPlain → Reads v (layout level v)
  | null, _ => reads_null
  | bool b, _ => reads_bool b
  | int i, _ => reads_int i
  | real x, h => by cases h
  | string t, _ => reads_string spells_plainChar t
  | array [], _ => reads_array_nil
  | array (v :: rest), h => by
    have hplain : v.isPlain = true ∧ arePlain rest = true := by simpa [isPlain, arePlain] using h
    have htail := itemsTail_layout (level + 1) rest hplain.2 (white_breakLine level)
    have harray := reads_array (white_breakLine (level + 1)) (reads_layout (level + 1) v hplain.1)
      htail
    rw [layout]
    simpa only [List.append_assoc, List.cons_append] using harray
  | object [], _ => reads_object_nil
  | object ((key, v) :: rest), h => by
    obtain ⟨hnodup, hv, hrest⟩ := isPlain_object h
    have hobject := reads_object key (white_breakLine (level + 1))
      (reads_layout (level + 1) v hv)
      (membersTail_layout (level + 1) rest hrest (white_breakLine level))
    rw [added_of_nodup hnodup] at hobject
    rw [layout]
    simpa only [memberText, List.append_assoc, List.cons_append, List.nil_append] using hobject

theorem itemsTail_layout (level : Nat) : ∀ vs : List Value, arePlain vs → ∀ {w : Text}, White w →
    ItemsTail vs (layoutItems level vs ++ (w ++ [']']))
  | [], _, _, hw => .close hw
  | v :: rest, h, w, hw => by
    have hplain : v.isPlain = true ∧ arePlain rest = true := by simpa [arePlain] using h
    have htail := ItemsTail.cons (white_breakLine level) (reads_layout level v hplain.1)
      (itemsTail_layout level rest hplain.2 hw)
    rw [layoutItems]
    simpa only [List.append_assoc, List.cons_append] using htail

theorem membersTail_layout (level : Nat) : ∀ ms : List (Text × Value), plainMembers ms →
    ∀ {w : Text}, White w → MembersTail plainChar ms (layoutMembers level ms ++ (w ++ ['}']))
  | [], _, _, hw => .close spells_plainChar hw
  | (key, v) :: rest, h, w, hw => by
    have hplain : v.isPlain = true ∧ plainMembers rest = true := by simpa [plainMembers] using h
    have htail := MembersTail.cons key spells_plainChar (white_breakLine level)
      (reads_layout level v hplain.1) (membersTail_layout level rest hplain.2 hw)
    rw [layoutMembers]
    simpa only [memberText, List.append_assoc, List.cons_append] using htail

end

mutual

/-- **What is written on one line is read back.** -/
theorem reads_compact : ∀ v : Value, v.isPlain → Reads v (compact v)
  | null, _ => reads_null
  | bool b, _ => reads_bool b
  | int i, _ => reads_int i
  | real x, h => by cases h
  | string t, _ => reads_string spells_asciiChar t
  | array [], _ => reads_array_nil
  | array (v :: rest), h => by
    have hplain : v.isPlain = true ∧ arePlain rest = true := by simpa [isPlain, arePlain] using h
    have harray := reads_array white_nil (reads_compact v hplain.1)
      (itemsTail_compact rest hplain.2)
    rw [compact]
    simpa only [List.append_assoc, List.cons_append, List.nil_append] using harray
  | object [], _ => reads_object_nil
  | object ((key, v) :: rest), h => by
    obtain ⟨hnodup, hv, hrest⟩ := isPlain_object h
    have hobject := reads_object key white_nil (reads_compact v hv)
      (membersTail_compact rest hrest)
    rw [added_of_nodup hnodup] at hobject
    rw [compact]
    simpa only [memberText, List.append_assoc, List.cons_append, List.nil_append] using hobject

theorem itemsTail_compact : ∀ vs : List Value, arePlain vs →
    ItemsTail vs (compactItems vs ++ [']'])
  | [], _ => .close white_nil
  | v :: rest, h => by
    have hplain : v.isPlain = true ∧ arePlain rest = true := by simpa [arePlain] using h
    have htail := ItemsTail.cons white_space (reads_compact v hplain.1)
      (itemsTail_compact rest hplain.2)
    rw [compactItems, List.append_assoc, List.append_assoc]
    exact htail

theorem membersTail_compact : ∀ ms : List (Text × Value), plainMembers ms →
    MembersTail asciiChar ms (compactMembers ms ++ ['}'])
  | [], _ => .close spells_asciiChar white_nil
  | (key, v) :: rest, h => by
    have hplain : v.isPlain = true ∧ plainMembers rest = true := by simpa [plainMembers] using h
    have htail := MembersTail.cons key spells_asciiChar white_space
      (reads_compact v hplain.1) (membersTail_compact rest hplain.2)
    simp only [memberText, List.append_assoc] at htail
    simp only [compactMembers, List.append_assoc]
    exact htail

end

end Value

namespace Json

/-! ### Whole texts -/

/-- A text of a value, read as a whole. -/
theorem Reads.read_whole {v : Value} {t : Text} (h : Reads v t) : Json.read t = .ok v := by
  have hmark : Text.startsWith t ['\uFEFF'] = false := by
    obtain ⟨c, more, rfl, -, hhigh, -⟩ := h.starts
    have hne : '\uFEFF' ≠ c := by
      rintro rfl
      exact absurd hhigh (by decide)
    simp [Text.startsWith, List.isPrefixOf, hne]
  have hskip : skipWhite t = t := by
    simpa using h.starts.skipWhite Value.white_nil []
  have hvalue : readValue (2 * t.length + 2) t = .ok (v, []) := by
    simpa using h.read (2 * t.length + 2) [] (by omega) stops_nil
  unfold Json.read
  rw [hmark, hskip]
  simp only [hvalue, bind, Except.bind]
  rfl

end Json

end LiveQuery
