/-
LiveQuery/Proofs/Json/Strings.lean

Strings that are printed are read back.

Design.  A string is printed character by character, and the reader passes over an escape character
by character too.  So each printer needs one fact about a single character (`Spells`): the reader
takes what is printed for the character as that character, whatever follows it, as long as something
does.  What follows is the rest of the string or the quotation mark at its end.

Main results: both printers spell (`spells_plainChar`, `spells_asciiChar`), and a string that is
spelled is read back (`readString_quote`).
-/
import Mathlib.Tactic.SplitIfs
import LiveQuery.Json.Printer
import LiveQuery.Json.Reader

namespace LiveQuery

/-! ### Units in hexadecimal -/

namespace Text

/-- One more digit is that of the remainder by sixteen. -/
theorem hex_succ {width : Nat} (hwidth : 0 < width) (n : Nat) :
    hex (width + 1) n = hex width (n / 16) ++ [Nat.digitChar (n % 16)] := by
  unfold hex
  dsimp only
  rw [Nat.toDigits_eq_if (n := n) (by decide)]
  split
  · next hsmall =>
    obtain ⟨width, rfl⟩ := Nat.exists_eq_succ_of_ne_zero (Nat.pos_iff_ne_zero.mp hwidth)
    rw [Nat.div_eq_of_lt hsmall, Nat.mod_eq_of_lt hsmall]
    show List.replicate (width + 1) '0' ++ [Nat.digitChar n] =
      (List.replicate width '0' ++ ['0']) ++ [Nat.digitChar n]
    rw [List.replicate_succ']
  · rw [List.length_append, List.length_singleton, Nat.add_sub_add_right, List.append_assoc]

/-- A unit is written in four digits. -/
theorem hex_four {n : Nat} (h : n < 0x10000) :
    hex 4 n = [Nat.digitChar (n / 0x1000), Nat.digitChar (n / 0x100 % 16),
      Nat.digitChar (n / 0x10 % 16), Nat.digitChar (n % 16)] := by
  have hone : hex 1 (n / 0x1000) = [Nat.digitChar (n / 0x1000)] := by
    unfold hex
    rw [Nat.toDigits_eq_if (by decide), if_pos (by omega)]
    rfl
  have hquotient : n / 16 / 16 = n / 0x100 := Nat.div_div_eq_div_mul n 16 16
  have hquotient' : n / 0x100 / 16 = n / 0x1000 := Nat.div_div_eq_div_mul n 0x100 16
  rw [hex_succ (by decide), hex_succ (by decide), hex_succ (by decide), hquotient, hquotient', hone]
  rfl

end Text

namespace Json

open Text

theorem hexValue?_digitChar : ∀ d < 16, hexValue? (Nat.digitChar d) = some d := by decide

/-- The digits of a unit are read as the unit. -/
theorem unit?_hex {n : Nat} (h : n < 0x10000) :
    ∃ a b c d, hex 4 n = [a, b, c, d] ∧ unit? a b c d = some n := by
  refine ⟨_, _, _, _, hex_four h, ?_⟩
  unfold unit?
  rw [hexValue?_digitChar _ (by omega), hexValue?_digitChar _ (by omega),
    hexValue?_digitChar _ (by omega), hexValue?_digitChar _ (by omega)]
  refine congrArg some ?_
  omega

/-! ### One character -/

/-- The reader takes what is printed for a character as that character, whatever comes after it, if
something does. -/
def Spells (char : Char → Text) : Prop :=
  ∀ (c : Char) (opening after : Text), after ≠ [] →
    readChars opening 0 (char c ++ after) =
      (readChars opening 0 after).map fun (ds, left) => (c :: ds, left)

/-- The characters of an escape are passed over. -/
theorem readChars_skip (opening t after : Text) :
    readChars opening t.length (t ++ after) = readChars opening 0 after := by
  induction t with
  | nil => rfl
  | cons c rest ih => exact ih

/-- An escape is read as its character, and what follows it is read on. -/
theorem readChars_escape {opening after : Text} (taken : Text) {c : Char}
    (h : escape? opening (taken ++ after) = .ok (c, taken.length)) :
    readChars opening 0 ('\\' :: (taken ++ after)) =
      (readChars opening 0 after).map fun (ds, left) => (c :: ds, left) := by
  rw [readChars, if_neg (by decide), if_pos rfl, h]
  dsimp only
  rw [readChars_skip]

/-- A short escape is read as its character. -/
theorem readChars_short {c e : Char} (h : shortEscape? c = some e) (opening after : Text) :
    readChars opening 0 ('\\' :: e :: after) =
      (readChars opening 0 after).map fun (ds, left) => (c :: ds, left) := by
  have hletter : escape? opening (e :: after) = .ok (c, 1) := by
    unfold shortEscape? at h
    split_ifs at h with hc hc hc hc hc hc hc
    all_goals
      obtain rfl := Option.some.inj h
      rw [hc]
      rfl
  exact readChars_escape [e] hletter

/-- A character that needs no escape is read as it stands. -/
theorem readChars_bare {c : Char} (h : shortEscape? c = none) (hc : 0x20 ≤ c.toNat)
    (opening after : Text) :
    readChars opening 0 (c :: after) =
      (readChars opening 0 after).map fun (ds, left) => (c :: ds, left) := by
  have hquote : c ≠ '"' := by
    rintro rfl
    cases h
  have hslash : c ≠ '\\' := by
    rintro rfl
    cases h
  rw [readChars, if_neg hquote, if_neg hslash, if_neg (by omega)]

/-- Four digits after the letter `u` are those of a unit. -/
theorem escape?_unit {a b c d : Char} {n : Nat} (h : unit? a b c d = some n) (opening : Text)
    (e : Char) (more : Text) :
    escape? opening ('u' :: a :: b :: c :: d :: e :: more) = unitEscape? n (e :: more) := by
  simp only [escape?, h]

/-- The escape of a unit that is no half of a pair is read as its character. -/
theorem readChars_unit {n : Nat} (hn : n < 0xD800 ∨ 0xE000 ≤ n ∧ n < 0x10000)
    {after : Text} (hafter : after ≠ []) (opening : Text) :
    readChars opening 0 (unitEscape n ++ after) =
      (readChars opening 0 after).map fun (ds, left) => (Char.ofNat n :: ds, left) := by
  obtain ⟨a, b, c, d, hdigits, hunit⟩ := unit?_hex (n := n) (by omega)
  obtain ⟨e, more, rfl⟩ := List.exists_cons_of_ne_nil hafter
  have hhigh : isHighHalf n = false := by simp [isHighHalf]; omega
  have hlow : isLowHalf n = false := by simp [isLowHalf]; omega
  have hchar : unitChar n = Char.ofNat n := by simp [unitChar, hhigh, hlow]
  have hsingle : unitEscape? n (e :: more) = .ok (Char.ofNat n, 5) := by
    unfold unitEscape?
    rw [hhigh, hchar]
    split <;> rfl
  have hescape : escape? opening (['u', a, b, c, d] ++ e :: more) = .ok (Char.ofNat n, 5) :=
    (escape?_unit hunit opening e more).trans hsingle
  rw [unitEscape, hdigits]
  exact readChars_escape ['u', a, b, c, d] hescape

/-- The escapes of a pair of units are read as the character of the pair. -/
theorem readChars_pair {high low : Nat} (hhigh : 0xD800 ≤ high ∧ high < 0xDC00)
    (hlow : 0xDC00 ≤ low ∧ low < 0xE000) {after : Text} (hafter : after ≠ []) (opening : Text) :
    readChars opening 0 (unitEscape high ++ unitEscape low ++ after) =
      (readChars opening 0 after).map fun (ds, left) => (pairChar high low :: ds, left) := by
  obtain ⟨a, b, c, d, hdigits, hunit⟩ := unit?_hex (n := high) (by omega)
  obtain ⟨a', b', c', d', hdigits', hunit'⟩ := unit?_hex (n := low) (by omega)
  obtain ⟨e, more, rfl⟩ := List.exists_cons_of_ne_nil hafter
  have hpair : unitEscape? high ('\\' :: 'u' :: a' :: b' :: c' :: d' :: e :: more) =
      .ok (pairChar high low, 11) := by
    unfold unitEscape?
    simp [isHighHalf, isLowHalf, hhigh, hlow, hunit']
  have hescape : escape? opening (['u', a, b, c, d, '\\', 'u', a', b', c', d'] ++ e :: more) =
      .ok (pairChar high low, 11) :=
    (escape?_unit hunit opening '\\' _).trans hpair
  rw [unitEscape, unitEscape, hdigits, hdigits']
  exact readChars_escape ['u', a, b, c, d, '\\', 'u', a', b', c', d'] hescape

/-! ### The printers -/

/-- **A string for reading spells.** -/
theorem spells_plainChar : Spells plainChar := by
  intro c opening after hafter
  unfold plainChar
  rcases hshort : shortEscape? c with - | e
  · dsimp only
    split
    · next hcontrol =>
      rw [readChars_unit (by omega) hafter, Char.ofNat_toNat]
    · exact readChars_bare hshort (by omega) opening after
  · exact readChars_short hshort opening after

/-- The units of a character beyond the first plane are those of a pair, which is the character. -/
theorem pairChar_units {n : Nat} (hn : 0x10000 ≤ n) :
    pairChar (0xD800 + (n - 0x10000) / 0x400) (0xDC00 + (n - 0x10000) % 0x400) = Char.ofNat n := by
  have hsum : 0x10000 + (0xD800 + (n - 0x10000) / 0x400 - 0xD800) * 0x400 +
      (0xDC00 + (n - 0x10000) % 0x400 - 0xDC00) = n := by omega
  rw [pairChar, hsum]

/-- **A string for sending spells.** -/
theorem spells_asciiChar : Spells asciiChar := by
  intro c opening after hafter
  have hvalid : c.toNat < 0xD800 ∨ 0xDFFF < c.toNat ∧ c.toNat < 0x110000 := c.valid
  unfold asciiChar
  rcases hshort : shortEscape? c with - | e
  · dsimp only
    split
    · next hprintable =>
      simp only [Bool.and_eq_true, decide_eq_true_eq] at hprintable
      exact readChars_bare hshort hprintable.1 opening after
    · split
      · rw [readChars_unit (by omega) hafter, Char.ofNat_toNat]
      · rw [readChars_pair (by omega) (by omega) hafter, pairChar_units (by omega),
          Char.ofNat_toNat]
  · exact readChars_short hshort opening after

/-! ### Strings -/

/-- **A string that is spelled is read back**, and what follows it is left. -/
theorem readString_quote {char : Char → Text} (hchar : Spells char) (t rest : Text) :
    readString (quote char t ++ rest) = .ok (t, rest) := by
  have hchars (opening : Text) :
      readChars opening 0 (t.flatMap char ++ '"' :: rest) = .ok (t, rest) := by
    induction t with
    | nil =>
      rw [List.flatMap_nil, List.nil_append, readChars, if_pos rfl]
    | cons c t ih =>
      rw [List.flatMap_cons, List.append_assoc, hchar c opening _ (by simp), ih]
      rfl
  unfold readString quote
  rw [List.cons_append, List.append_assoc]
  exact hchars _

end Json

end LiveQuery
