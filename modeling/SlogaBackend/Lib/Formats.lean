import Mathlib.Data.List.Sort
import Mathlib.Data.List.Destutter
import Mathlib.Data.String.Basic

/-!
# Canonical formats

A format is canonical when a content has one spelling. Three ways to earn it
meet in signed documents, and each is a fact about lists that names no document:

* **separated fields**: joining pieces with a separator and splitting again
  gives the pieces back, provided no piece holds the separator. Without the
  proviso it gives the pieces' own splittings one after another
  (`splitOn_intercalate_eq_flatMap`), so a count of the pieces is enough to rule
  a separator out (`notMem_of_length_splitOn_intercalate`);
* **canonical decimals**: a nonempty digit string without a leading zero is the
  one `Nat.toDigits` prints for its value;
* **length-prefixed frames**: a sequence of frames is uniquely decodable when the
  lengths are coded with a fixed width and without collision (`LengthCode`).

Sorted and duplicate-free lists are the fourth: a strictly ascending list is what
sorting and removing repetitions returns, on itself.
-/

namespace SlogaBackend.Formats

/-! ## Separated fields -/

section Separated

variable {α : Type*} [BEq α] [LawfulBEq α]

theorem length_splitOn_eq_one {x : α} {l : List α} : (l.splitOn x).length = 1 ↔ x ∉ l := by
  constructor
  · intro hlen hmem
    obtain ⟨before, after, rfl⟩ := List.append_of_mem hmem
    rw [List.splitOn_append_cons_self, List.length_append] at hlen
    have hbef := List.length_pos_iff.mpr (List.splitOn_ne_nil x before)
    have haft := List.length_pos_iff.mpr (List.splitOn_ne_nil x after)
    omega
  · intro hmem
    rw [List.splitOn_eq_singleton hmem, List.length_singleton]

/-- **Splitting a joined list splits each piece in turn.** -/
theorem splitOn_intercalate_eq_flatMap (x : α) : ∀ {ls : List (List α)}, ls ≠ [] →
      ([x].intercalate ls).splitOn x = ls.flatMap fun l => l.splitOn x
  | [], h => absurd rfl h
  | [l], _ => by simp
  | l :: l' :: ls, _ => by
    have ih := splitOn_intercalate_eq_flatMap x (List.cons_ne_nil l' ls)
    rw [List.intercalate_cons_cons, List.append_assoc, List.singleton_append,
      List.splitOn_append_cons_self, ih, List.flatMap_cons (x := l)]

omit [LawfulBEq α] in
theorem length_le_length_flatMap_splitOn (x : α) (ls : List (List α)) :
    ls.length ≤ (ls.flatMap fun l => l.splitOn x).length := by
  induction ls with
  | nil => simp
  | cons l ls ih =>
    have hpos := List.length_pos_iff.mpr (List.splitOn_ne_nil x l)
    rw [List.flatMap_cons, List.length_append, List.length_cons]
    omega

theorem notMem_of_length_flatMap_splitOn (x : α) :
    ∀ (ls : List (List α)), (ls.flatMap fun l => l.splitOn x).length = ls.length → ∀ l ∈ ls, x ∉ l
  | [], _ => by simp
  | l :: ls, hlen => by
    rw [List.flatMap_cons, List.length_append, List.length_cons] at hlen
    have hpos := List.length_pos_iff.mpr (List.splitOn_ne_nil x l)
    have hrs := length_le_length_flatMap_splitOn x ls
    have hone : (l.splitOn x).length = 1 := by omega
    have htl := notMem_of_length_flatMap_splitOn x ls (by omega)
    intro m hm
    rcases List.mem_cons.mp hm with rfl | hm
    · exact length_splitOn_eq_one.mp hone
    · exact htl m hm

theorem notMem_of_length_splitOn_intercalate {x : α} {ls : List (List α)} (hls : ls ≠ [])
    (hlen : (([x].intercalate ls).splitOn x).length = ls.length) : ∀ l ∈ ls, x ∉ l := by
  rw [splitOn_intercalate_eq_flatMap x hls] at hlen
  exact notMem_of_length_flatMap_splitOn x ls hlen

end Separated

/-! ## Canonical decimals -/

/-- Digits, at least one, no leading zero unless alone. -/
def CanonicalDigits (cs : List Char) : Prop :=
  cs ≠ [] ∧ (∀ c ∈ cs, c.isDigit = true) ∧ (1 < cs.length → cs.head? ≠ some '0')

theorem exists_digitChar {c : Char} (h : c.isDigit = true) :
    ∃ d, d < 10 ∧ c = Nat.digitChar d ∧ c.toNat - '0'.toNat = d := by
  have hboun : 48 ≤ c.toNat ∧ c.toNat ≤ 57 := by
    rw [Char.isDigit, Bool.and_eq_true, decide_eq_true_eq, decide_eq_true_eq] at h
    exact h
  have hd : c.toNat - 48 < 10 := by omega
  refine ⟨c.toNat - 48, hd, ?_, rfl⟩
  have htoNat : (Nat.digitChar (c.toNat - 48)).toNat = c.toNat := by
    rw [Nat.toNat_digitChar_of_lt_ten hd]
    omega
  exact Char.ext (UInt32.toNat_inj.mp htoNat.symm)

theorem ofDigitChars_pos {c : Char} (cs : List Char) (hc : c.isDigit = true) (h0 : c ≠ '0') :
    0 < Nat.ofDigitChars 10 (c :: cs) 0 := by
  obtain ⟨d, -, hcd, hval⟩ := exists_digitChar hc
  have hd : d ≠ 0 := by
    rintro rfl
    exact h0 hcd
  rw [Nat.ofDigitChars_cons, Nat.ofDigitChars_eq_ofDigitChars_zero, hval]
  have hpow : 0 < 10 ^ cs.length * (10 * 0 + d) := by
    refine Nat.mul_pos (Nat.pow_pos (by decide)) ?_
    omega
  omega

/-- **A canonical digit string is the one printed for its value.** -/
theorem toDigits_ofDigitChars {cs : List Char} (h : CanonicalDigits cs) :
    Nat.toDigits 10 (Nat.ofDigitChars 10 cs 0) = cs := by
  -- from the right: the last digit is the remainder, the rest the quotient
  induction cs using List.reverseRecOn with
  | nil => exact absurd rfl h.1
  | append_singleton ds c ih =>
    obtain ⟨-, hdig, hhd⟩ := h
    obtain ⟨d, hd, hcd, hval⟩ := exists_digitChar (hdig c (by simp))
    rw [Nat.ofDigitChars_append, Nat.ofDigitChars_cons, Nat.ofDigitChars_nil, hval]
    cases ds with
    | nil =>
      rw [Nat.ofDigitChars_nil, Nat.mul_zero, Nat.zero_add, Nat.toDigits_of_lt_base hd, ← hcd]
      rfl
    | cons e es =>
      have he : e ≠ '0' := by
        rintro rfl
        exact hhd (by simp) (by simp)
      have hes : CanonicalDigits (e :: es) := by
        refine ⟨by simp, fun x hx => hdig x (List.mem_append_left _ hx), fun _ => ?_⟩
        simpa using he
      have hpos := ofDigitChars_pos es (hdig e (by simp)) he
      rw [← Nat.toDigits_append_toDigits (by decide) hpos hd, ih hes,
        Nat.toDigits_of_lt_base hd, ← hcd]

/-! ## Sorted lists without repetition -/

/-- `sort` followed by the removal of consecutive repetitions. -/
def sortDedup {α : Type*} [LinearOrder α] (l : List α) : List α :=
  (l.insertionSort (· ≤ ·)).destutter (· ≠ ·)

theorem mem_destutter'_ne {α : Type*} [DecidableEq α] {a : α} :
    ∀ {l : List α} {b : α}, a ∈ b :: l → a ∈ l.destutter' (· ≠ ·) b
  | [], b, h => by simpa using h
  | c :: l, b, h => by
    by_cases hbc : b = c
    · subst hbc
      rw [List.destutter'_cons_neg l (by simp)]
      exact mem_destutter'_ne (by simpa using h)
    · rw [List.destutter'_cons_pos l hbc]
      rcases List.mem_cons.mp h with rfl | h
      · exact List.mem_cons_self
      · exact List.mem_cons_of_mem _ (mem_destutter'_ne h)

section

variable {α : Type*} [LinearOrder α] {l : List α}

theorem mem_sortDedup {a : α} : a ∈ sortDedup l ↔ a ∈ l := by
  unfold sortDedup
  constructor
  · intro h
    exact (List.mem_insertionSort _).mp ((List.destutter_sublist _ _).subset h)
  · intro h
    have hsor := (List.mem_insertionSort (· ≤ ·)).mpr h
    generalize l.insertionSort (· ≤ ·) = sorted at hsor
    cases sorted with
    | nil => cases hsor
    | cons b rest => exact mem_destutter'_ne hsor

/-- **A strictly ascending list is its own sorted, duplicate-free form.** -/
theorem sortDedup_of_isChain (h : l.IsChain (· < ·)) : sortDedup l = l := by
  have hpair : l.Pairwise (· < ·) := List.isChain_iff_pairwise.mp h
  have hsor : l.insertionSort (· ≤ ·) = l :=
    List.Pairwise.insertionSort_eq (hpair.imp fun hlt => le_of_lt hlt)
  unfold sortDedup
  rw [hsor]
  exact List.destutter_of_isChain _ l (h.imp fun _ _ hlt => ne_of_lt hlt)

end

/-! ## Length-prefixed frames -/

/-- A code for lengths up to a bound: fixed width, no two lengths alike. -/
structure LengthCode (α : Type*) where
  code : Nat → List α
  width : Nat
  bound : Nat
  length_code : ∀ n, (code n).length = width
  code_inj : ∀ {m n}, m ≤ bound → n ≤ bound → code m = code n → m = n

namespace LengthCode

variable {α : Type*} (c : LengthCode α)

/-- One field: its length, then its bytes. -/
def frame (bytes : List α) : List α := c.code bytes.length ++ bytes

/-- Fields one after another. -/
def frames (fields : List (List α)) : List α := fields.flatMap c.frame

variable {c}

theorem code_append_inj {m n : Nat} {r s : List α} (hm : m ≤ c.bound) (hn : n ≤ c.bound)
    (h : c.code m ++ r = c.code n ++ s) : m = n ∧ r = s := by
  obtain ⟨hco, hrs⟩ := List.append_inj h (by rw [c.length_code, c.length_code])
  exact ⟨c.code_inj hm hn hco, hrs⟩

theorem frame_append_inj {a b r s : List α} (ha : a.length ≤ c.bound) (hb : b.length ≤ c.bound)
    (h : c.frame a ++ r = c.frame b ++ s) : a = b ∧ r = s := by
  unfold frame at h
  rw [List.append_assoc, List.append_assoc] at h
  obtain ⟨hlen, hrs⟩ := code_append_inj ha hb h
  exact List.append_inj hrs hlen

/-- **Sequences of as many frames are uniquely decodable.** -/
theorem frames_inj : ∀ {as bs : List (List α)}, as.length = bs.length →
    (∀ a ∈ as, a.length ≤ c.bound) → (∀ b ∈ bs, b.length ≤ c.bound) →
    c.frames as = c.frames bs → as = bs
  | [], [], _, _, _, _ => rfl
  | [], _ :: _, hlen, _, _, _ => nomatch hlen
  | _ :: _, [], hlen, _, _, _ => nomatch hlen
  | a :: as, b :: bs, hlen, ha, hb, h => by
    obtain ⟨hhd, htl⟩ := frame_append_inj (ha a List.mem_cons_self) (hb b List.mem_cons_self)
      (show c.frame a ++ c.frames as = c.frame b ++ c.frames bs from h)
    have ih := frames_inj (by simpa using hlen) (fun x hx => ha x (List.mem_cons_of_mem _ hx))
      (fun x hx => hb x (List.mem_cons_of_mem _ hx)) htl
    rw [hhd, ih]

end LengthCode

end SlogaBackend.Formats
