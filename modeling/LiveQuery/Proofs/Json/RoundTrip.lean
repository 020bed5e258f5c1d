/-
LiveQuery/Proofs/Json/RoundTrip.lean

The round trip of JSON texts, and the canonical form.

Design.  Two values are the same up to the order of members if objects have as many members, and
each member of the one has its value under the same key of the other (`sameAs`).  Where the keys of
an object differ, its sorted members depend on the set of its members only
(`mergeSort_eq_iff`), so that being the same is to have one sorted value (`sameAs_iff`).  The sorted
value is what the shown text is read back as, and the value itself what the sent text is.

Main result: `read_printed`.
-/
import Mathlib.Data.List.Nodup
import Mathlib.Data.List.Perm.Subperm
import LiveQuery.Document
import LiveQuery.Proofs.Json.Reading

namespace LiveQuery

namespace Value

open Json

/-! ### The order of members -/

theorem memberLe_trans (a b c : Text × Value) (hab : memberLe a b) (hbc : memberLe b c) :
    memberLe a c := by
  simp only [memberLe, Text.le, Bool.not_eq_true', decide_eq_false_iff_not] at hab hbc ⊢
  exact @List.le_trans Char _ _ _ _ a.1 b.1 c.1 hab hbc

theorem memberLe_total (a b : Text × Value) : (memberLe a b || memberLe b a) = true := by
  simp only [memberLe, Text.le, Bool.or_eq_true, Bool.not_eq_true', decide_eq_false_iff_not]
  exact List.le_total a.1 b.1

theorem key_eq_of_memberLe {a b : Text × Value} (hab : memberLe a b) (hba : memberLe b a) :
    a.1 = b.1 := by
  simp only [memberLe, Text.le, Bool.not_eq_true', decide_eq_false_iff_not] at hab hba
  exact List.le_antisymm hab hba

/-- Members that only differ in their order are sorted to one list. -/
theorem mergeSort_eq_iff {ms ns : List (Text × Value)} (h : (ms.map Prod.fst).Nodup) :
    ms.mergeSort memberLe = ns.mergeSort memberLe ↔ ms.Perm ns := by
  have hms := List.mergeSort_perm ms memberLe
  have hns := List.mergeSort_perm ns memberLe
  constructor
  · intro he
    exact hms.symm.trans (he ▸ hns)
  · intro hperm
    have hsorted := (hms.trans hperm).trans hns.symm
    refine hsorted.eq_of_pairwise (fun a b ha hb hab hba => ?_)
      (List.pairwise_mergeSort memberLe_trans memberLe_total ms)
      (List.pairwise_mergeSort memberLe_trans memberLe_total ns)
    -- members of one key are one member, since the keys differ
    exact List.inj_on_of_nodup_map h (hms.mem_iff.mp ha) (hperm.mem_iff.mpr (hns.mem_iff.mp hb))
      (key_eq_of_memberLe hab hba)

/-! ### Sorted values -/

theorem sortedMembers_eq_map (ms : List (Text × Value)) :
    sortedMembers ms = ms.map fun m => (m.1, m.2.sorted) := by
  induction ms with
  | nil => rfl
  | cons m rest ih =>
    obtain ⟨k, v⟩ := m
    rw [sortedMembers, ih, List.map_cons]

theorem keys_sortedMembers (ms : List (Text × Value)) :
    (sortedMembers ms).map Prod.fst = ms.map Prod.fst := by
  rw [sortedMembers_eq_map, List.map_map]
  rfl

theorem plainMembers_iff (ms : List (Text × Value)) : plainMembers ms ↔ ∀ m ∈ ms, m.2.isPlain := by
  induction ms with
  | nil => simp [plainMembers]
  | cons m rest ih => simp [plainMembers, ih]

mutual

/-- A plain value stays plain when it is sorted. -/
theorem isPlain_sorted : ∀ v : Value, v.isPlain → v.sorted.isPlain
  | null, _ => rfl
  | bool _, _ => rfl
  | int _, _ => rfl
  | real _, h => h
  | string _, _ => rfl
  | array vs, h => arePlain_sorted vs h
  | object ms, h => by
    rw [isPlain, Bool.and_eq_true, decide_eq_true_eq] at h
    have hperm := List.mergeSort_perm (sortedMembers ms) memberLe
    have hplain := (plainMembers_iff _).mp (plainMembers_sorted ms h.2)
    rw [sorted, isPlain, Bool.and_eq_true, decide_eq_true_eq, plainMembers_iff,
      (hperm.map Prod.fst).nodup_iff, keys_sortedMembers]
    exact ⟨h.1, fun m hm => hplain m (hperm.mem_iff.mp hm)⟩

theorem arePlain_sorted : ∀ vs : List Value, arePlain vs → arePlain (sortedItems vs)
  | [], _ => rfl
  | v :: rest, h => by
    rw [arePlain, Bool.and_eq_true] at h
    rw [sortedItems, arePlain, isPlain_sorted v h.1, arePlain_sorted rest h.2]
    rfl

theorem plainMembers_sorted : ∀ ms : List (Text × Value), plainMembers ms →
    plainMembers (sortedMembers ms)
  | [], _ => rfl
  | (k, v) :: rest, h => by
    rw [plainMembers, Bool.and_eq_true] at h
    rw [sortedMembers, plainMembers, isPlain_sorted v h.1, plainMembers_sorted rest h.2]
    rfl

end

mutual

/-- Sorting again changes nothing. -/
theorem sorted_sorted : ∀ v : Value, v.sorted.sorted = v.sorted
  | null => rfl
  | bool _ => rfl
  | int _ => rfl
  | real _ => rfl
  | string _ => rfl
  | array vs => by rw [sorted, sorted, sortedItems_sorted vs]
  | object ms => by
    have hperm := List.mergeSort_perm (sortedMembers ms) memberLe
    have hmap : sortedMembers ((sortedMembers ms).mergeSort memberLe) =
        (sortedMembers ms).mergeSort memberLe := by
      rw [sortedMembers_eq_map]
      refine (List.map_congr_left fun m hm => ?_).trans (List.map_id _)
      exact Prod.ext rfl (sortedMembers_sorted ms m (hperm.mem_iff.mp hm))
    rw [sorted, sorted, hmap, List.mergeSort_of_pairwise
      (List.pairwise_mergeSort memberLe_trans memberLe_total _)]

theorem sortedItems_sorted : ∀ vs : List Value, sortedItems (sortedItems vs) = sortedItems vs
  | [] => rfl
  | v :: rest => by
    rw [sortedItems, sortedItems, sorted_sorted v, sortedItems_sorted rest]

theorem sortedMembers_sorted : ∀ ms : List (Text × Value), ∀ m ∈ sortedMembers ms,
    m.2.sorted = m.2
  | [], m, hm => by cases hm
  | (k, v) :: rest, m, hm => by
    rcases List.mem_cons.mp hm with rfl | hm
    · exact sorted_sorted v
    · exact sortedMembers_sorted rest m hm

end

/-! ### Values up to the order of members -/

mutual

/-- Whether two values are the same up to the order of the members of their objects. -/
def sameAs : Value → Value → Bool
  | null, null => true
  | bool a, bool b => a == b
  | int i, int j => i == j
  | real x, real y => decide (x = y)
  | string s, string t => s == t
  | array vs, array ws => sameItems vs ws
  | object ms, object ns => ms.length == ns.length && sameMembers ms ns
  | _, _ => false

/-- Whether two arrays hold the same items, up to the order of members. -/
def sameItems : List Value → List Value → Bool
  | [], [] => true
  | v :: vs, w :: ws => sameAs v w && sameItems vs ws
  | _, _ => false

/-- Whether each member has its value among other members, up to the order of members. -/
def sameMembers : List (Text × Value) → List (Text × Value) → Bool
  | [], _ => true
  | (k, v) :: ms, ns =>
    (match member? k ns with
      | some w => sameAs v w
      | none => false) && sameMembers ms ns

end

theorem member?_eq_some {ms : List (Text × Value)} (h : (ms.map Prod.fst).Nodup) (key : Text)
    (v : Value) : member? key ms = some v ↔ (key, v) ∈ ms := by
  induction ms with
  | nil => simp [member?]
  | cons m rest ih =>
    obtain ⟨k, w⟩ := m
    rw [List.map_cons, List.nodup_cons] at h
    rw [member?, List.mem_cons]
    split
    · next he =>
      subst he
      constructor
      · intro hv
        exact .inl (by rw [Option.some.inj hv])
      · rintro (hv | hv)
        · rw [(Prod.mk.inj hv).2]
        · exact absurd (List.mem_map_of_mem hv) h.1
    · next hne =>
      rw [ih h.2]
      constructor
      · exact .inr
      · rintro (hv | hv)
        · exact absurd (Prod.mk.inj hv).1.symm hne
        · exact hv

/-- The sorted members of an object are those of another if it has as many, and each of the one is
among the others. -/
theorem sortedMembers_perm_iff {ms ns : List (Text × Value)} (hms : (ms.map Prod.fst).Nodup) :
    (sortedMembers ms).Perm (sortedMembers ns) ↔
      ms.length = ns.length ∧ ∀ m ∈ ms, ∃ w, (m.1, w) ∈ ns ∧ m.2.sorted = w.sorted := by
  rw [sortedMembers_eq_map, sortedMembers_eq_map]
  constructor
  · intro hperm
    refine ⟨by simpa using hperm.length_eq, fun m hm => ?_⟩
    obtain ⟨n, hn, he⟩ := List.mem_map.mp (hperm.mem_iff.mp (List.mem_map_of_mem hm))
    obtain ⟨hkey, hvalue⟩ := Prod.mk.inj he
    exact ⟨n.2, hkey ▸ hn, hvalue.symm⟩
  · rintro ⟨hlength, hmem⟩
    have hnodup : (ms.map fun m => (m.1, m.2.sorted)).Nodup := by
      rw [← keys_sortedMembers, sortedMembers_eq_map] at hms
      exact List.Nodup.of_map _ hms
    -- as many members as there are, each among them, are all of them
    refine (List.subperm_of_subset hnodup fun m hm => ?_).perm_of_length_le (by simp [hlength])
    obtain ⟨n, hn, rfl⟩ := List.mem_map.mp hm
    obtain ⟨w, hw, he⟩ := hmem n hn
    exact List.mem_map.mpr ⟨(n.1, w), hw, Prod.ext rfl he.symm⟩

mutual

/-- **Values are the same up to the order of members** where they are sorted to the same value. -/
theorem sameAs_iff : ∀ v w : Value, v.isPlain → w.isPlain →
    (v.sameAs w ↔ v.sorted = w.sorted)
  | null, w, _, _ => by cases w <;> simp [sameAs, sorted]
  | bool a, w, _, _ => by cases w <;> simp [sameAs, sorted]
  | int i, w, _, _ => by cases w <;> simp [sameAs, sorted]
  | real x, w, h, _ => by cases h
  | string s, w, _, _ => by cases w <;> simp [sameAs, sorted]
  | array vs, w, hv, hw => by
    cases w with
    | array ws => simpa [sameAs, sorted] using sameItems_iff vs ws hv hw
    | _ => simp [sameAs, sorted]
  | object ms, w, hv, hw => by
    cases w with
    | object ns =>
      rw [isPlain, Bool.and_eq_true, decide_eq_true_eq] at hv hw
      have hmembers := sameMembers_iff ms ns hv.2 hw.2 hw.1
      rw [sameAs, Bool.and_eq_true, beq_iff_eq, hmembers, ← sortedMembers_perm_iff hv.1,
        ← mergeSort_eq_iff (by rw [keys_sortedMembers]; exact hv.1), sorted, sorted, object.injEq]
    | _ => simp [sameAs, sorted]

theorem sameItems_iff : ∀ vs ws : List Value, arePlain vs → arePlain ws →
    (sameItems vs ws ↔ sortedItems vs = sortedItems ws)
  | [], [], _, _ => by simp [sameItems]
  | [], _ :: _, _, _ => by simp [sameItems, sortedItems]
  | _ :: _, [], _, _ => by simp [sameItems, sortedItems]
  | v :: vs, w :: ws, hv, hw => by
    rw [arePlain, Bool.and_eq_true] at hv hw
    rw [sameItems, Bool.and_eq_true, sameAs_iff v w hv.1 hw.1, sameItems_iff vs ws hv.2 hw.2,
      sortedItems, sortedItems, List.cons.injEq]

theorem sameMembers_iff : ∀ ms ns : List (Text × Value), plainMembers ms → plainMembers ns →
    (ns.map Prod.fst).Nodup →
    (sameMembers ms ns ↔ ∀ m ∈ ms, ∃ w, (m.1, w) ∈ ns ∧ m.2.sorted = w.sorted)
  | [], _, _, _, _ => by simp [sameMembers]
  | (k, v) :: ms, ns, hv, hw, hnodup => by
    rw [plainMembers, Bool.and_eq_true] at hv
    rw [sameMembers, Bool.and_eq_true, sameMembers_iff ms ns hv.2 hw hnodup,
      List.forall_mem_cons]
    refine and_congr_left fun _ => ?_
    cases hmember : member? k ns with
    | none =>
      refine iff_of_false (by simp) ?_
      rintro ⟨w, hmem, -⟩
      rw [(member?_eq_some hnodup k w).mpr hmem] at hmember
      cases hmember
    | some w =>
      have hmem := (member?_eq_some hnodup k w).mp hmember
      have hplain := (plainMembers_iff ns).mp hw _ hmem
      show v.sameAs w ↔ _
      rw [sameAs_iff v w hv.1 hplain]
      constructor
      · exact fun he => ⟨w, hmem, he⟩
      · rintro ⟨u, hu, he⟩
        obtain rfl : w = u := (Prod.mk.inj (List.inj_on_of_nodup_map hnodup hmem hu rfl)).2
        exact he

end

end Value

/-! ### ASCII -/

namespace Text

/-- Every character is printable ASCII. -/
def Ascii (t : Text) : Prop := ∀ c ∈ t, 0x20 ≤ c.toNat ∧ c.toNat ≤ 0x7E

variable {s t : Text}

@[simp] theorem ascii_nil : Ascii [] := by simp [Ascii]

@[simp] theorem ascii_cons {c : Char} :
    Ascii (c :: t) ↔ (0x20 ≤ c.toNat ∧ c.toNat ≤ 0x7E) ∧ Ascii t := by simp [Ascii]

@[simp] theorem ascii_append : Ascii (s ++ t) ↔ Ascii s ∧ Ascii t := by
  simp only [Ascii, List.forall_mem_append]

theorem ascii_ofInt (i : Int) : Ascii (ofInt i) := by
  have hdigits (n : Nat) : Ascii (ofNat n) := by
    intro d hd
    have hdigit := isAsciiDigit_ofNat n d hd
    simp only [isAsciiDigit, Bool.and_eq_true, decide_eq_true_eq, Char.le_def,
      UInt32.le_iff_toNat_le] at hdigit
    exact ⟨Nat.le_trans (by decide) hdigit.1, Nat.le_trans hdigit.2 (by decide)⟩
  cases i with
  | ofNat n => exact hdigits n
  | negSucc n => exact ascii_cons.mpr ⟨by decide, hdigits (n + 1)⟩

end Text

namespace Json

open Text

theorem ascii_unitEscape {n : Nat} (h : n < 0x10000) : Ascii (unitEscape n) := by
  have hdigit : ∀ d < 16, 0x20 ≤ (Nat.digitChar d).toNat ∧ (Nat.digitChar d).toNat ≤ 0x7E := by
    decide
  have hfirst := hdigit (n / 0x1000) (by omega)
  have hsecond := hdigit (n / 0x100 % 16) (by omega)
  have hthird := hdigit (n / 0x10 % 16) (by omega)
  have hfourth := hdigit (n % 16) (by omega)
  rw [unitEscape, hex_four h]
  simp [hfirst, hsecond, hthird, hfourth]

theorem ascii_asciiChar (c : Char) : Ascii (asciiChar c) := by
  have hrange : c.toNat < 0x110000 := by
    rcases c.valid with h | h
    · exact Nat.lt_trans h (by decide)
    · exact h.2
  unfold asciiChar
  split
  · next e he =>
    unfold shortEscape? at he
    split_ifs at he
    all_goals
      obtain rfl := Option.some.inj he
      simp
  · dsimp only
    split
    · next hplain => simpa using hplain
    · split
      · next hsmall => exact ascii_unitEscape hsmall
      · exact ascii_append.mpr ⟨ascii_unitEscape (by omega), ascii_unitEscape (by omega)⟩

theorem ascii_quote (t : Text) : Ascii (quote asciiChar t) := by
  have hchars : Ascii (t.flatMap asciiChar) := by
    intro c hc
    obtain ⟨d, -, hd⟩ := List.mem_flatMap.mp hc
    exact ascii_asciiChar d c hd
  simp [quote, hchars]

end Json

namespace Value

open Json Text

mutual

/-- What is written on one line is ASCII. -/
theorem ascii_compact : ∀ v : Value, v.isPlain → Ascii v.compact
  | null, _ => by simp [compact]
  | bool b, _ => by cases b <;> simp [compact, boolText]
  | int i, _ => ascii_ofInt i
  | real x, h => by cases h
  | string t, _ => ascii_quote t
  | array [], _ => by simp [compact]
  | array (v :: rest), h => by
    have hplain : v.isPlain = true ∧ arePlain rest = true := by simpa [isPlain, arePlain] using h
    simp [compact, ascii_compact v hplain.1, ascii_compactItems rest hplain.2]
  | object [], _ => by simp [compact]
  | object ((k, v) :: rest), h => by
    obtain ⟨-, hv, hrest⟩ := isPlain_object h
    simp [compact, ascii_quote, ascii_compact v hv, ascii_compactMembers rest hrest]

theorem ascii_compactItems : ∀ vs : List Value, arePlain vs → Ascii (compactItems vs)
  | [], _ => by simp [compactItems]
  | v :: rest, h => by
    have hplain : v.isPlain = true ∧ arePlain rest = true := by simpa [arePlain] using h
    simp [compactItems, ascii_compact v hplain.1, ascii_compactItems rest hplain.2]

theorem ascii_compactMembers : ∀ ms : List (Text × Value), plainMembers ms →
    Ascii (compactMembers ms)
  | [], _ => by simp [compactMembers]
  | (k, v) :: rest, h => by
    have hplain : v.isPlain = true ∧ plainMembers rest = true := by simpa [plainMembers] using h
    simp [compactMembers, ascii_quote, ascii_compact v hplain.1,
      ascii_compactMembers rest hplain.2]

end

/-! ### The round trip -/

/-- A shown value is read back with its members sorted. -/
theorem ofText_pretty {v : Value} (h : v.isPlain) : Document.ofText v.pretty = .ok v.sorted := by
  have hreads := reads_layout 0 v.sorted (isPlain_sorted v h)
  have hvisible : (layout 0 v.sorted).all isBlank = false := by
    obtain ⟨c, more, he, hlow, hhigh, -⟩ := hreads.starts
    have hc : isBlank c = false := by
      simp [isBlank, isSpace, Ranges.has, spaceRanges]
      omega
    rw [he, List.all_cons, hc, Bool.false_and]
  rw [pretty, Document.ofText, hvisible, hreads.read_whole]
  rfl

/-- **The round trip of JSON texts.**  For values without doubles in which the keys of each object
differ, what is shown is read back as a value that is the same up to the order of members, two
values are shown alike exactly if they are the same up to that order, and what is sent is ASCII and
read back as the value with its members in their order. -/
theorem read_printed (v w : Value) (hv : v.isPlain) (hw : w.isPlain) :
    (∃ u, Document.ofText v.pretty = .ok u ∧ u.sameAs v) ∧
      (v.pretty = w.pretty ↔ v.sameAs w) ∧
      Ascii v.compact ∧ Json.read v.compact = .ok v := by
  refine ⟨⟨v.sorted, ofText_pretty hv, ?_⟩, ?_, ascii_compact v hv,
    (reads_compact v hv).read_whole⟩
  · exact (sameAs_iff v.sorted v (isPlain_sorted v hv) hv).mpr (sorted_sorted v)
  · rw [sameAs_iff v w hv hw]
    constructor
    · intro he
      -- one text is read back as one value
      have hread := ofText_pretty hv
      rw [he, ofText_pretty hw] at hread
      exact (Except.ok.inj hread).symm
    · intro he
      rw [pretty, pretty, he]

/-- An array of an integer, a string that is escaped and an empty object, in members that are given
in two orders. -/
theorem read_printed_of_nested :
    let items := array [int (-20), string "é\n\"".toList, object []]
    let v := object [("b".toList, items), ("a".toList, null)]
    let w := object [("a".toList, null), ("b".toList, items)]
    v.isPlain ∧ w.isPlain ∧ (∃ u, Document.ofText v.pretty = .ok u ∧ u.sameAs v) ∧
      v.pretty = w.pretty ∧ Ascii v.compact ∧ Json.read v.compact = .ok v := by
  intro items v w
  have hv : v.isPlain = true := by decide
  have hw : w.isPlain = true := by decide
  have hsame : v.sameAs w = true := by decide
  obtain ⟨hread, hpretty, hascii, hcompact⟩ := read_printed v w hv hw
  exact ⟨hv, hw, hread, hpretty.mpr hsame, hascii, hcompact⟩

end Value

end LiveQuery
