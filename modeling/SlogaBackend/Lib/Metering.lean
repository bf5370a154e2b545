import Mathlib.Algebra.Order.Field.Rat
import Mathlib.Algebra.Order.Ring.Int
import Mathlib.Data.Rat.Cast.Order
import Mathlib.Tactic.Linarith
import Mathlib.Tactic.Ring
import SlogaBackend.Lib.Runs

/-!
# Counting steps in a window of time

The steps of a run carry instants that do not go back. `within` counts the steps of one kind that
fall into a window. Two rules bound it, whatever the machine and wherever the window lies.

* `Credit.within_le`: there is a credit that is never negative and never above a cap, grows no
  faster than a rate, and each counted step costs one. Then no window of length `T` holds more
  than the cap and `T` times the rate.
* `Breaker.within_le`: each counted step takes one away from a load, and shuts the machine for a
  while, in which nothing is loaded. Then no window of twice that while holds more than twice the
  greatest load, whatever is loaded in between.

Both are proved for a run that starts with the window, and carried to any window by
`exists_suffix`.
-/

namespace SlogaBackend

variable {σ ι ρ : Type*}

namespace Run

variable {exec : σ → ι → σ × ρ} {admits : σ → ι → Prop}

theorem strengthen {P : σ → ι → Prop} {s t : σ} {h : List (σ × ι)} (hrun : Run exec admits s h t)
    (hP : ∀ e ∈ h, P e.1 e.2) : Run exec (fun s i => admits s i ∧ P s i) s h t := by
  induction hrun with
  | nil s => exact nil s
  | cons hadm _ ih =>
    exact cons ⟨hadm, hP _ List.mem_cons_self⟩ (ih fun e he => hP e (List.mem_cons_of_mem _ he))

end Run

namespace Metering

variable (time : ι → ℤ) (counted : σ → ι → Prop) [hdec : ∀ s i, Decidable (counted s i)]

/-- The instants do not go back. -/
def Forward (h : List (σ × ι)) : Prop := h.Pairwise fun e e' => time e.2 ≤ time e'.2

instance (h : List (σ × ι)) : Decidable (Forward time h) :=
  inferInstanceAs (Decidable (h.Pairwise _))

/-- The counted steps from the instant `a` to the instant `b`. -/
def within (a b : ℤ) (h : List (σ × ι)) : ℕ :=
  h.countP fun e => a ≤ time e.2 ∧ time e.2 ≤ b ∧ counted e.1 e.2

/-- The counted steps to the instant `b`. -/
def upTo (b : ℤ) (h : List (σ × ι)) : ℕ := h.countP fun e => time e.2 ≤ b ∧ counted e.1 e.2

variable {time counted}

theorem upTo_cons (b : ℤ) (e : σ × ι) (h : List (σ × ι)) : upTo time counted b (e :: h) =
      upTo time counted b h + if time e.2 ≤ b ∧ counted e.1 e.2 then 1 else 0 := by
  unfold upTo
  rw [List.countP_cons]
  simp

variable {h : List (σ × ι)}

theorem upTo_eq_zero {b : ℤ} (haft : ∀ e ∈ h, b < time e.2) : upTo time counted b h = 0 := by
  refine List.countP_eq_zero.mpr fun e he hcnt => ?_
  have hle := (of_decide_eq_true hcnt).1
  exact absurd (haft e he) (not_lt.mpr hle)

theorem within_eq_upTo {a b : ℤ} (hsin : ∀ e ∈ h, a ≤ time e.2) :
    within time counted a b h = upTo time counted b h := by
  refine List.countP_congr fun e he => ?_
  simp only [decide_eq_true_eq]
  exact ⟨fun hin => hin.2, fun hin => ⟨hsin e he, hin⟩⟩

variable {exec : σ → ι → σ × ρ} {admits : σ → ι → Prop}

variable (counted) in
/-- **What a window counts, a run that starts with the window counts.** -/
theorem exists_suffix {Good : σ → Prop} (hgd : ∀ s i, admits s i → Good s → Good (exec s i).1)
    (a b : ℤ) {s t : σ} (hrun : Run exec admits s h t) (hs : Good s) (hfor : Forward time h) :
    ∃ s' h', Run exec admits s' h' t ∧ Good s' ∧ Forward time h' ∧ (∀ e ∈ h', a ≤ time e.2) ∧
      within time counted a b h = upTo time counted b h' := by
  induction hrun with
  | nil s => exact ⟨s, [], Run.nil s, hs, List.Pairwise.nil, by simp, rfl⟩
  | @cons s t i h hadm hrs ih =>
    obtain ⟨hlat, hsor⟩ := List.pairwise_cons.mp hfor
    by_cases hbef : a ≤ time i
    · have hsin : ∀ e ∈ (s, i) :: h, a ≤ time e.2 := by
        intro e he
        rcases List.mem_cons.mp he with rfl | he
        · exact hbef
        · exact hbef.trans (hlat e he)
      exact ⟨s, (s, i) :: h, Run.cons hadm hrs, hs, hfor, hsin, within_eq_upTo hsin⟩
    · obtain ⟨s', h', hrun', hs', hfor', hsin, hcou⟩ := ih (hgd s i hadm hs) hsor
      refine ⟨s', h', hrun', hs', hfor', hsin, ?_⟩
      rw [← hcou]
      unfold within
      rw [List.countP_cons, if_neg (by simp [hbef]), Nat.add_zero]

/-! ## Credit -/

/-- A credit that pays for the counted steps. -/
structure Credit (exec : σ → ι → σ × ρ) (admits : σ → ι → Prop) (time : ι → ℤ)
    (counted : σ → ι → Prop) [∀ s i, Decidable (counted s i)] (cap rate : ℚ) where
  /-- What is known of the states. -/
  Good : σ → Prop
  /-- The credit at an instant. -/
  credit : σ → ℤ → ℚ
  keeps : ∀ s i, admits s i → Good s → Good (exec s i).1
  nonneg : ∀ s t, Good s → 0 ≤ credit s t
  capped : ∀ s t, Good s → credit s t ≤ cap
  grows : ∀ s t t', Good s → t ≤ t' → credit s t' ≤ credit s t + ((t' - t : ℤ) : ℚ) * rate
  pays : ∀ s i, admits s i → Good s →
    credit (exec s i).1 (time i) + (if counted s i then 1 else 0) ≤ credit s (time i)

namespace Credit

variable {cap rate : ℚ} (c : Credit exec admits time counted cap rate)

theorem upTo_le {b : ℤ} {s t : σ} {h : List (σ × ι)} (hrun : Run exec admits s h t) :
    ∀ {a : ℤ}, c.Good s → Forward time h → (∀ e ∈ h, a ≤ time e.2) → a ≤ b →
      (upTo time counted b h : ℚ) ≤ c.credit s a + ((b - a : ℤ) : ℚ) * rate := by
  induction hrun with
  | nil s =>
    intro a hs _ _ hab
    have hgrow := c.grows s a b hs hab
    have hnon := c.nonneg s b hs
    show ((0 : ℕ) : ℚ) ≤ _
    rw [Nat.cast_zero]
    linarith
  | @cons s t i h hadm _ ih =>
    intro a hs hfor hsin hab
    obtain ⟨hlat, hsor⟩ := List.pairwise_cons.mp hfor
    have hfst : a ≤ time i := hsin (s, i) List.mem_cons_self
    by_cases hin : time i ≤ b
    · have hrs := ih (c.keeps s i hadm hs) hsor hlat hin
      have hpy := c.pays s i hadm hs
      have hgrow := c.grows s a (time i) hs hfst
      have hlen : ((b - a : ℤ) : ℚ) * rate =
          ((b - time i : ℤ) : ℚ) * rate + ((time i - a : ℤ) : ℚ) * rate := by
        push_cast
        ring
      rw [upTo_cons, Nat.cast_add, hlen]
      have hone : ((if time i ≤ b ∧ counted s i then 1 else 0 : ℕ) : ℚ) =
          if counted s i then 1 else 0 := by
        by_cases hcnt : counted s i
        · rw [if_pos ⟨hin, hcnt⟩, if_pos hcnt, Nat.cast_one]
        · rw [if_neg (fun hbt => hcnt hbt.2), if_neg hcnt, Nat.cast_zero]
      linarith
    · have haft : ∀ e ∈ (s, i) :: h, b < time e.2 := by
        intro e he
        rcases List.mem_cons.mp he with rfl | he
        · exact not_le.mp hin
        · exact (not_le.mp hin).trans_le (hlat e he)
      have hgrow := c.grows s a b hs hab
      have hnon := c.nonneg s b hs
      rw [upTo_eq_zero haft, Nat.cast_zero]
      linarith

/-- **The credit rule.** No window counts more than the cap and what its length earns. -/
theorem within_le {s t : σ} {h : List (σ × ι)} (hrun : Run exec admits s h t) (hs : c.Good s)
    (hfor : Forward time h) (a : ℤ) (length : ℕ) :
    (within time counted a (a + length) h : ℚ) ≤ cap + (length : ℚ) * rate := by
  obtain ⟨s', h', hrun', hs', hfor', hsin, hcou⟩ :=
    exists_suffix counted c.keeps a (a + length) hrun hs hfor
  have hpd := c.upTo_le hrun' hs' hfor' hsin (b := a + length) (by omega)
  have hcap := c.capped s' a hs'
  have hlen : ((a + length - a : ℤ) : ℚ) = length := by
    push_cast
    ring
  rw [hlen] at hpd
  rw [hcou]
  linarith

end Credit

/-! ## Breakers -/

/-- A load that the counted steps take from, and that is not added to while they keep the machine
shut. -/
structure Breaker (exec : σ → ι → σ × ρ) (admits : σ → ι → Prop) (time : ι → ℤ)
    (counted : σ → ι → Prop) (most : ℕ) (pause : ℤ) where
  /-- What is known of the states. -/
  Good : σ → Prop
  load : σ → ℕ
  /-- Nothing is loaded up to and at the instant. -/
  Shut : σ → ℤ → Prop
  keeps : ∀ s i, admits s i → Good s → Good (exec s i).1
  capped : ∀ s, Good s → load s ≤ most
  trips : ∀ s i, admits s i → Good s → counted s i →
    load (exec s i).1 + 1 ≤ load s ∧ Shut (exec s i).1 (time i + pause)
  holds : ∀ s i x, admits s i → Good s → Shut s x → time i ≤ x →
    load (exec s i).1 ≤ load s ∧ Shut (exec s i).1 x

namespace Breaker

variable {most : ℕ} {pause : ℤ} (k : Breaker exec admits time counted most pause) {b x a : ℤ}
  {s t : σ} {h : List (σ × ι)}

theorem upTo_le_load (hx : b ≤ x) (hrun : Run exec admits s h t) (hs : k.Good s)
    (hfor : Forward time h) (hsh : k.Shut s x) : upTo time counted b h ≤ k.load s := by
  induction hrun with
  | nil s => exact Nat.zero_le _
  | @cons s t i h hadm _ ih =>
    obtain ⟨hlat, hsor⟩ := List.pairwise_cons.mp hfor
    rw [upTo_cons]
    by_cases hin : time i ≤ b
    · obtain ⟨hld, hstl⟩ := k.holds s i x hadm hs hsh (hin.trans hx)
      have hrs := ih (k.keeps s i hadm hs) hsor hstl
      by_cases hcnt : counted s i
      · have htrip := (k.trips s i hadm hs hcnt).1
        rw [if_pos ⟨hin, hcnt⟩]
        omega
      · rw [if_neg fun hbt => hcnt hbt.2]
        omega
    · have hno : upTo time counted b h = 0 :=
        upTo_eq_zero fun e he => (not_le.mp hin).trans_le (hlat e he)
      rw [hno, if_neg fun hbt => hin hbt.1]
      exact Nat.zero_le _

/-- Up to its first counted step a run counts nothing, and that step shuts the machine. -/
theorem upTo_le_add {c : ℕ} (hrun : Run exec admits s h t) (hs : k.Good s)
    (hfor : Forward time h) (hsin : ∀ e ∈ h, a ≤ time e.2)
    (hshut : ∀ s' h' x, a + pause ≤ x → Run exec admits s' h' t → k.Good s' → Forward time h' →
      k.Shut s' x → upTo time counted b h' ≤ k.load s' + c) : upTo time counted b h ≤ most + c := by
  induction hrun with
  | nil s => exact Nat.zero_le _
  | @cons s t i h hadm hrs ih =>
    obtain ⟨hlat, hsor⟩ := List.pairwise_cons.mp hfor
    have hgd := k.keeps s i hadm hs
    rw [upTo_cons]
    by_cases hcnt : time i ≤ b ∧ counted s i
    · obtain ⟨htrip, hsh⟩ := k.trips s i hadm hs hcnt.2
      have hfst := hsin (s, i) List.mem_cons_self
      have hlf := hshut _ h _ (Int.add_le_add_right hfst pause) hrs hgd hsor hsh
      have hcap := k.capped s hs
      rw [if_pos hcnt]
      omega
    · rw [if_neg hcnt]
      exact ih hgd hsor (fun e he => hsin e (List.mem_cons_of_mem _ he)) hshut

/-- A run that is shut at its start, and ends within a pause of its opening, counts what is loaded
and one load more. -/
theorem upTo_le_load_add (hx : b ≤ x + pause) (hrun : Run exec admits s h t) (hs : k.Good s)
    (hfor : Forward time h) (hsh : k.Shut s x) : upTo time counted b h ≤ k.load s + most := by
  induction hrun with
  | nil s => exact Nat.zero_le _
  | @cons s t i h hadm hrs ih =>
    obtain ⟨hlat, hsor⟩ := List.pairwise_cons.mp hfor
    by_cases hop : time i ≤ x
    · obtain ⟨hld, hstl⟩ := k.holds s i x hadm hs hsh hop
      have hlf := ih (k.keeps s i hadm hs) hsor hstl
      rw [upTo_cons]
      by_cases hcnt : time i ≤ b ∧ counted s i
      · have htrip := (k.trips s i hadm hs hcnt.2).1
        rw [if_pos hcnt]
        omega
      · rw [if_neg hcnt]
        omega
    · have hsin : ∀ e ∈ (s, i) :: h, x ≤ time e.2 := by
        intro e he
        rcases List.mem_cons.mp he with rfl | he
        · exact (not_le.mp hop).le
        · exact (not_le.mp hop).le.trans (hlat e he)
      have hms := k.upTo_le_add (c := 0) (Run.cons hadm hrs) hs hfor hsin
        fun _ _ _ hle hrun' hs' hfor' => k.upTo_le_load (hx.trans hle) hrun' hs' hfor'
      omega

section

variable (hab : b ≤ a + 2 * pause) (hrun : Run exec admits s h t) (hs : k.Good s)
  (hfor : Forward time h)
include hab hrun hs hfor

theorem upTo_le (hsin : ∀ e ∈ h, a ≤ time e.2) : upTo time counted b h ≤ 2 * most := by
  rw [two_mul]
  exact k.upTo_le_add hrun hs hfor hsin fun _ _ x hle hrun' hs' hfor' =>
    k.upTo_le_load_add (by omega) hrun' hs' hfor'

/-- **The breaker rule.** No window of two pauses counts more than two loads. -/
theorem within_le : within time counted a b h ≤ 2 * most := by
  obtain ⟨s', h', hrun', hs', hfor', hsin, hcou⟩ := exists_suffix counted k.keeps a b hrun hs hfor
  rw [hcou]
  exact k.upTo_le hab hrun' hs' hfor' hsin

end

end Breaker
end Metering
end SlogaBackend
