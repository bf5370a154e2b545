import Mathlib.Data.List.Infix
import Mathlib.Data.Nat.Find
import Mathlib.Tactic.Common

/-!
# Cutting a word out of a text

`excise w` takes the occurrences of a word out of a text, reading from the left. A word no end of
which begins it again (`Unbordered`) has occurrences that do not overlap, so the cut falls apart
at any of them (`excise_append`). What a pattern finds in the rest is then found clear of the
occurrences, or is joined from the two sides of one (`match_excise_iff`).
-/

namespace SlogaBackend.Excision

variable {α : Type*} [DecidableEq α] {w p q text : List α}

/-- The text without the occurrences of `w`, the next `skip` letters being of one already read. -/
def exciseFrom (w : List α) : Nat → List α → List α
  | _, [] => []
  | skip + 1, _ :: text => exciseFrom w skip text
  | 0, c :: text =>
    if w <+: c :: text then exciseFrom w (w.length - 1) text else c :: exciseFrom w 0 text

def excise (w text : List α) : List α := exciseFrom w 0 text

/-- No end of the word, itself apart, begins it. -/
def Unbordered (w : List α) : Prop := ∀ n < w.length, 0 < n → ¬ w.drop n <+: w

instance (w : List α) : Decidable (Unbordered w) := inferInstanceAs (Decidable (∀ n < w.length, _))

theorem exciseFrom_append (u text : List α) : exciseFrom w u.length (u ++ text) = excise w text := by
  induction u with
  | nil => rfl
  | cons _ _ ih => exact ih

theorem excise_append_self (hw : w ≠ []) : excise w (w ++ text) = excise w text := by
  cases w with
  | nil => exact absurd rfl hw
  | cons c w =>
    rw [excise, List.cons_append, exciseFrom, if_pos ⟨text, rfl⟩]
    exact exciseFrom_append w text

theorem excise_cons {c : α} (h : ¬ w <+: c :: text) :
    excise w (c :: text) = c :: excise w text := by
  rw [excise, exciseFrom, if_neg h]
  rfl

theorem excise_of_absent (h : ¬ w <:+: text) : excise w text = text := by
  induction text with
  | nil => rfl
  | cons c text ih =>
    rw [List.infix_cons_iff, not_or] at h
    rw [excise_cons h.1, ih h.2]

omit [DecidableEq α] in
/-- A prefix of two texts together that starts in the first lies in it or ends in the second. -/
theorem prefix_append_cases (h : w <+: p ++ q) :
    w <+: p ∨ p.length < w.length ∧ w.drop p.length <+: q := by
  rcases le_or_gt w.length p.length with hle | hlt
  · exact .inl (List.prefix_of_prefix_length_le h (List.prefix_append p q) hle)
  · obtain ⟨v, rfl⟩ := List.prefix_of_prefix_length_le (List.prefix_append p q) h hlt.le
    refine .inr ⟨hlt, ?_⟩
    rw [List.drop_append_length]
    exact (List.prefix_append_right_inj p).mp h

section Unbordered

variable (hb : Unbordered w)
include hb

theorem excise_append (hw : w ≠ []) : excise w (p ++ (w ++ q)) = excise w p ++ excise w q := by
  induction hn : p.length using Nat.strong_induction_on generalizing p with
  | _ n ih =>
    subst hn
    cases p with
    | nil => exact excise_append_self hw
    | cons c p =>
      by_cases h : w <+: c :: p ++ (w ++ q)
      · rcases prefix_append_cases h with ⟨p', hp'⟩ | ⟨hlt, hov⟩
        · -- the occurrence lies before the one that the text is cut at
          have hlen : p'.length < (c :: p).length := by
            rw [← hp', List.length_append]
            exact Nat.lt_add_of_pos_left (List.length_pos_iff.mpr hw)
          rw [← hp', List.append_assoc, excise_append_self hw, excise_append_self hw]
          exact ih _ hlen rfl
        · refine absurd (List.prefix_of_prefix_length_le hov (List.prefix_append w q) ?_)
            (hb _ hlt Nat.succ_pos')
          rw [List.length_drop]
          exact Nat.sub_le _ _
      · have hp : ¬ w <+: c :: p := fun hp => h (hp.trans (List.prefix_append _ _))
        rw [excise_cons hp, List.cons_append, List.cons_append, ← ih _ (Nat.lt_succ_self _) rfl]
        exact excise_cons h

omit [DecidableEq α] in
/-- Past a cut, a word without borders is found at it or in what follows. -/
theorem occurs_cases {k : Nat} (hk : p.length ≤ k) (h : w <+: (p ++ (w ++ q)).drop k) :
    k = p.length ∨ p.length + w.length ≤ k ∧ w <+: q.drop (k - p.length - w.length) := by
  rw [List.drop_append, List.drop_eq_nil_of_le hk, List.nil_append, List.drop_append] at h
  rcases Nat.lt_or_ge (k - p.length) w.length with hlt | hge
  · refine .inl (by_contra fun hne => hb _ hlt (by omega) ?_)
    refine List.prefix_of_prefix_length_le (List.prefix_append _ _) h ?_
    rw [List.length_drop]
    exact Nat.sub_le _ _
  · rw [List.drop_eq_nil_of_le hge, List.nil_append] at h
    exact .inr ⟨by omega, h⟩

end Unbordered

/-! ## What a pattern finds -/

/-- The pattern has a match that meets no occurrence of the word. -/
def Clear (M : List α → Prop) (w text : List α) : Prop :=
  ∃ n m, M m ∧ m <+: text.drop n ∧ ∀ k, w <+: text.drop k → n + m.length ≤ k ∨ k + w.length ≤ n

/-- The pattern has a match joined from the two sides of an occurrence. -/
def Joined (M : List α → Prop) (w text : List α) : Prop :=
  ∃ p q x y, text = p ++ (w ++ q) ∧ x ≠ [] ∧ y ≠ [] ∧ M (x ++ y) ∧
    x <:+ excise w p ∧ y <+: excise w q

variable {m : List α}

omit [DecidableEq α] in
theorem infix_of_prefix_drop {n : Nat} (h : m <+: text.drop n) : m <:+: text :=
  List.infix_iff_prefix_suffix.mpr ⟨_, h, List.drop_suffix n text⟩

omit [DecidableEq α] in
theorem exists_prefix_drop (h : m <:+: text) : ∃ n, m <+: text.drop n ∧
    n + m.length ≤ text.length := by
  obtain ⟨p, q, rfl⟩ := h
  refine ⟨p.length, ?_, by rw [List.length_append, List.length_append]; omega⟩
  rw [List.append_assoc, List.drop_append_length]
  exact List.prefix_append m q

omit [DecidableEq α] in
/-- The text up to the first occurrence has none. -/
theorem exists_first (hw : w ≠ []) (h : w <:+: text) :
    ∃ p q, text = p ++ (w ++ q) ∧ ¬ w <:+: p ∧ q.length < text.length ∧
      ∀ k, w <+: text.drop k → p.length ≤ k := by
  classical
  have hpos := List.length_pos_iff.mpr hw
  have hex : ∃ k, w <+: text.drop k := (exists_prefix_drop h).imp fun _ hk => hk.1
  obtain ⟨q, hq⟩ := Nat.find_spec hex
  have htx : text = text.take (Nat.find hex) ++ (w ++ q) := by rw [hq, List.take_append_drop]
  have hfst : ∀ k, w <+: text.drop k → (text.take (Nat.find hex)).length ≤ k := fun k hk => by
    rw [List.length_take]
    exact (Nat.min_le_left _ _).trans (Nat.find_min' hex hk)
  refine ⟨_, q, htx, fun hp => ?_, ?_, hfst⟩
  · obtain ⟨k, hk, hle⟩ := exists_prefix_drop hp
    have hat : w <+: text.drop k := by
      rw [htx, List.drop_append_of_le_length (by omega)]
      exact hk.trans (List.prefix_append _ _)
    have := hfst k hat
    omega
  · have := congrArg List.length htx
    rw [List.length_append, List.length_append] at this
    omega

section Matches

variable {M : List α → Prop} (hb : Unbordered w) (hw : w ≠ [])
include hb

omit [DecidableEq α] in
/-- At the first occurrence the clear matches are those before it and the clear ones after it. -/
theorem clear_iff_of_first (hfst : ∀ k, w <+: (p ++ (w ++ q)).drop k → p.length ≤ k) :
    Clear M w (p ++ (w ++ q)) ↔ (∃ m, M m ∧ m <:+: p) ∨ Clear M w q := by
  have hat : w <+: (p ++ (w ++ q)).drop p.length := by
    rw [List.drop_append_length]
    exact List.prefix_append w q
  have hps : ∀ n, p.length + w.length ≤ n →
      (p ++ (w ++ q)).drop n = q.drop (n - (p.length + w.length)) := by
    intro n hn
    rw [← List.append_assoc, List.drop_append, List.drop_eq_nil_of_le, List.nil_append,
      List.length_append]
    rwa [List.length_append]
  constructor
  · rintro ⟨n, m, hm, hin, hcle⟩
    rcases hcle _ hat with hbef | haft
    · refine .inl ⟨m, hm, infix_of_prefix_drop (?_ : m <+: p.drop n)⟩
      rw [List.drop_append_of_le_length (by omega)] at hin
      refine List.prefix_of_prefix_length_le hin (List.prefix_append _ _) ?_
      rw [List.length_drop]
      omega
    · rw [hps n haft] at hin
      refine .inr ⟨_, m, hm, hin, fun k hk => ?_⟩
      have := hcle (p.length + w.length + k) (by
        rw [hps _ (Nat.le_add_right _ _), Nat.add_sub_cancel_left]
        exact hk)
      omega
  · rintro (⟨m, hm, hin⟩ | ⟨n, m, hm, hin, hcle⟩)
    · obtain ⟨n, hat, hle⟩ := exists_prefix_drop hin
      refine ⟨n, m, hm, ?_, fun k hk => .inl (hle.trans (hfst k hk))⟩
      rw [List.drop_append_of_le_length (by omega)]
      exact hat.trans (List.prefix_append _ _)
    · refine ⟨p.length + w.length + n, m, hm, ?_, fun k hk => ?_⟩
      · rw [hps _ (Nat.le_add_right _ _), Nat.add_sub_cancel_left]
        exact hin
      · rcases occurs_cases hb (hfst k hk) hk with heq | ⟨hle, hk⟩
        · exact .inr (by omega)
        · have := hcle _ hk
          omega

include hw

/-- What the pattern finds once the word is cut out. -/
theorem match_excise_iff :
    (∃ m, M m ∧ m <:+: excise w text) ↔ Clear M w text ∨ Joined M w text := by
  induction hn : text.length using Nat.strong_induction_on generalizing text with
  | _ n ih =>
    subst hn
    constructor
    · rintro ⟨m, hm, hin⟩
      by_cases h : w <:+: text
      · obtain ⟨p, q, rfl, hp, hlt, hfst⟩ := exists_first hw h
        rw [excise_append hb hw, excise_of_absent hp, List.infix_append_iff_ne_nil] at hin
        rcases hin with hin | hin | ⟨x, y, hx, hy, rfl, hxp, hyq⟩
        · exact .inl ((clear_iff_of_first hb hfst).mpr (.inl ⟨m, hm, hin⟩))
        · rcases (ih _ hlt rfl).mp ⟨m, hm, hin⟩ with hq | ⟨p', q', x, y, rfl, hx, hy, hxy, hxp, hyq⟩
          · exact .inl ((clear_iff_of_first hb hfst).mpr (.inr hq))
          · refine .inr ⟨p ++ (w ++ p'), q', x, y, by simp, hx, hy, hxy, ?_, hyq⟩
            rw [excise_append hb hw]
            exact hxp.trans (List.suffix_append _ _)
        · refine .inr ⟨p, q, x, y, rfl, hx, hy, hm, ?_, hyq⟩
          rwa [excise_of_absent hp]
      · rw [excise_of_absent h] at hin
        obtain ⟨n, hat, -⟩ := exists_prefix_drop hin
        exact .inl ⟨n, m, hm, hat, fun k hk => absurd (infix_of_prefix_drop hk) h⟩
    · rintro (hcle | ⟨p, q, x, y, rfl, -, -, hxy, hxp, hyq⟩)
      · by_cases h : w <:+: text
        · obtain ⟨p, q, rfl, hp, hlt, hfst⟩ := exists_first hw h
          rw [excise_append hb hw, excise_of_absent hp]
          rcases (clear_iff_of_first hb hfst).mp hcle with ⟨m, hm, hin⟩ | hq
          · exact ⟨m, hm, List.infix_append_of_infix_left hin⟩
          · obtain ⟨m, hm, hin⟩ := (ih _ hlt rfl).mpr (.inl hq)
            exact ⟨m, hm, List.infix_append_of_infix_right hin⟩
        · rw [excise_of_absent h]
          obtain ⟨n, m, hm, hin, -⟩ := hcle
          exact ⟨m, hm, infix_of_prefix_drop hin⟩
      · rw [excise_append hb hw]
        exact ⟨x ++ y, hxy, List.infix_append_iff.mpr (.inr (.inr ⟨x, y, rfl, hxp, hyq⟩))⟩

end Matches

end SlogaBackend.Excision
