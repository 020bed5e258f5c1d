/-
LiveQuery/Proofs/Json/Printed.lean

Printed values hold no control characters but line feeds.

Strings are escaped when they are printed, so that whatever a document says, a printed line of it
can neither move the cursor of a terminal nor begin a sequence of its own.

Main result: `Value.visible_of_mem_lines`.
-/
import Mathlib.Tactic.SplitIfs
import LiveQuery.Json.Printer

namespace LiveQuery

namespace Text

/-! ### Lines -/

theorem mem_pieces {c : Char} {t piece : Text} (h : piece ∈ pieces c t) :
    ∀ d ∈ piece, d ∈ t ∧ d ≠ c := by
  induction t generalizing piece with
  | nil =>
    obtain rfl : piece = [] := by simpa [pieces] using h
    simp
  | cons e rest ih =>
    rw [pieces] at h
    split at h
    · rcases List.mem_cons.mp h with rfl | hrest
      · simp
      · exact fun d hd => ⟨List.mem_cons_of_mem e (ih hrest d hd).1, (ih hrest d hd).2⟩
    · next hne =>
      split at h
      · obtain rfl : piece = [e] := by simpa using h
        simp [hne]
      · next first more heq =>
        rw [heq] at ih
        rcases List.mem_cons.mp h with rfl | hrest
        · intro d hd
          rcases List.mem_cons.mp hd with rfl | hd
          · exact ⟨List.mem_cons_self, hne⟩
          · have hfirst := ih List.mem_cons_self d hd
            exact ⟨List.mem_cons_of_mem e hfirst.1, hfirst.2⟩
        · intro d hd
          have hmore := ih (List.mem_cons_of_mem first hrest) d hd
          exact ⟨List.mem_cons_of_mem e hmore.1, hmore.2⟩

/-! ### Visible texts -/

/-- No character is a control character, line feeds apart. -/
def Visible (t : Text) : Prop := ∀ c ∈ t, c = newline ∨ 0x20 ≤ c.toNat

variable {s t : Text}

@[simp] theorem visible_nil : Visible [] := by simp [Visible]

@[simp] theorem visible_cons {c : Char} :
    Visible (c :: t) ↔ (c = newline ∨ 0x20 ≤ c.toNat) ∧ Visible t := by simp [Visible]

@[simp] theorem visible_append : Visible (s ++ t) ↔ Visible s ∧ Visible t := by
  simp only [Visible, List.forall_mem_append]

theorem visible_replicate {c : Char} (hc : 0x20 ≤ c.toNat) (n : Nat) :
    Visible (List.replicate n c) :=
  fun _ hd => .inr (List.eq_of_mem_replicate hd ▸ hc)

theorem Visible.sublist (h : Visible t) (hs : s.Sublist t) : Visible s :=
  fun c hc => h c (hs.subset hc)

theorem visible_ite {p : Prop} [Decidable p] (hs : Visible s) (ht : Visible t) :
    Visible (if p then s else t) := by
  split
  · exact hs
  · exact ht

theorem visible_toDigits {base : Nat} (hlow : 1 < base) (hhigh : base ≤ 16) (n : Nat) :
    Visible (Nat.toDigits base n) := by
  have hdigit : ∀ d < 16, 0x20 ≤ (Nat.digitChar d).toNat := by decide
  induction n using Nat.strongRecOn with
  | ind n ih =>
    rw [Nat.toDigits_eq_if hlow]
    split
    · simp [hdigit n (by omega)]
    · have hmod := Nat.mod_lt n (show 0 < base by omega)
      simp [ih (n / base) (Nat.div_lt_self (by omega) hlow), hdigit (n % base) (by omega)]

theorem visible_ofNat (n : Nat) : Visible (ofNat n) := visible_toDigits (by decide) (by decide) n

theorem visible_ofInt (i : Int) : Visible (ofInt i) := by
  cases i with
  | ofNat n => exact visible_ofNat n
  | negSucc n => simp [ofInt, visible_ofNat]

theorem visible_hex (width n : Nat) : Visible (hex width n) :=
  visible_append.mpr ⟨visible_replicate (by decide) _, visible_toDigits (by decide) (by decide) n⟩

end Text

open Text

/-! ### Doubles -/

namespace Binary64

theorem visible_significant (n : Nat) : Visible (significant n) := by
  unfold significant
  split
  · simp
  · refine (visible_ofNat n).sublist ?_
    have h := (List.dropWhile_sublist (l := (ofNat n).reverse) (· = '0')).reverse
    rwa [List.reverse_reverse] at h

theorem visible_positional {ds : Text} (h : Visible ds) (leading : Int) :
    Visible (positional ds leading) := by
  have hfraction (n : Nat) : Visible (if (ds.drop n).isEmpty then ['0'] else ds.drop n) :=
    visible_ite (by simp) (h.sublist (List.drop_sublist n ds))
  refine visible_ite (by simp [visible_replicate, h]) (visible_append.mpr ⟨?_, hfraction _⟩)
  simp [visible_replicate, h.sublist (List.take_sublist _ ds)]

theorem visible_scientific {ds : Text} (h : Visible ds) (exponentDigits : Nat) (leading : Int) :
    Visible (scientific exponentDigits ds leading) := by
  have hfraction : Visible (if ds.length ≤ 1 then [] else '.' :: ds.drop 1) := by
    refine visible_ite visible_nil (visible_cons.mpr ⟨.inr (by decide), ?_⟩)
    exact h.sublist (List.drop_sublist 1 ds)
  have hsign : Visible ['e', if leading < 0 then '-' else '+'] := by split <;> simp
  simp only [scientific, visible_append]
  exact ⟨⟨⟨⟨h.sublist (List.take_sublist 1 ds), hfraction⟩, hsign⟩,
    visible_replicate (by decide) _⟩, visible_ofNat _⟩

theorem visible_magnitude (l : Layout) (d : Digits) : Visible (l.magnitude d) :=
  visible_ite (visible_positional (visible_significant _) _)
    (visible_scientific (visible_significant _) _ _)

theorem visible_toText {spelling : Spelling} (hnan : Visible spelling.nan)
    (hinfinity : Visible spelling.infinity) (x : Binary64) : Visible (x.toText spelling) := by
  have hsign (negative : Bool) : Visible (signText negative) := visible_ite (by simp) visible_nil
  unfold toText
  split
  · exact hnan
  · exact visible_append.mpr ⟨hsign _, hinfinity⟩
  · exact visible_append.mpr ⟨hsign _, visible_magnitude _ _⟩

end Binary64

/-! ### Values -/

namespace Json

theorem visible_plainChar (c : Char) : Visible (plainChar c) := by
  unfold plainChar
  split
  · next e he =>
    have hletter : 0x20 ≤ e.toNat := by
      unfold shortEscape? at he
      split_ifs at he
      all_goals
        obtain rfl := Option.some.inj he
        decide
    simp [hletter]
  · split
    · simp [unitEscape, visible_hex]
    · simp
      omega

theorem visible_quote (t : Text) : Visible (quote plainChar t) := by
  have hchars : Visible (t.flatMap plainChar) := by
    intro c hc
    obtain ⟨d, -, hd⟩ := List.mem_flatMap.mp hc
    exact visible_plainChar d c hd
  simp [quote, hchars]

theorem visible_breakLine (level : Nat) : Visible (breakLine level) := by
  simp [breakLine, newline, visible_replicate]

end Json

namespace Value

open Json

mutual

theorem visible_layout (level : Nat) : ∀ v : Value, Visible (layout level v)
  | null => by simp [layout]
  | bool b => by cases b <;> simp [layout, boolText]
  | int i => visible_ofInt i
  | real x => Binary64.visible_toText (by simp [spelling]) (by simp [spelling]) x
  | string t => visible_quote t
  | array [] => by simp [layout]
  | array (v :: rest) => by
    simp [layout, visible_breakLine, visible_layout, visible_layoutItems]
  | object [] => by simp [layout]
  | object ((k, v) :: rest) => by
    simp [layout, visible_breakLine, visible_quote, visible_layout, visible_layoutMembers]

theorem visible_layoutItems (level : Nat) : ∀ items : List Value, Visible (layoutItems level items)
  | [] => by simp [layoutItems]
  | v :: rest => by
    simp [layoutItems, visible_breakLine, visible_layout, visible_layoutItems]

theorem visible_layoutMembers (level : Nat) :
    ∀ members : List (Text × Value), Visible (layoutMembers level members)
  | [] => by simp [layoutMembers]
  | (k, v) :: rest => by
    simp [layoutMembers, visible_breakLine, visible_quote, visible_layout, visible_layoutMembers]

end

/-- **The lines of a printed value** hold no control characters. -/
theorem visible_of_mem_lines {v : Value} {line : Text} (h : line ∈ lines v.pretty) :
    ∀ c ∈ line, 0x20 ≤ c.toNat := by
  intro c hc
  obtain ⟨hmem, hne⟩ := mem_pieces h c hc
  exact (visible_layout 0 v.sorted c hmem).resolve_left hne

end Value

end LiveQuery
