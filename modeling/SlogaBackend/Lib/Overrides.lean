import Mathlib.Data.List.Sort
import Mathlib.Data.List.Pairwise
import Mathlib.Order.BooleanAlgebra.Basic

/-!
# Overrides in order of rank

An override allows something and then denies something. Several of them, each with a rank,
are applied one after another, from the largest rank to the smallest, so that the smallest
has the last word.

## Order

Which order the overrides are found in is no business of the result. Where the ranks are
distinct it is not: `byRank_perm` says that every order of the same overrides is sorted to
the same list. `byRank_filter` and `byRank_map` say what sorting makes of a part of the
overrides, or of overrides that were changed.

## Gains

`Override.apply` is monotone, in the value and in the override. `apply_gain` compares two
overrides inside a set `p`: where the second allows no more and denies no less there, it
grants no more there, and `foldl_gain` carries that along a list. What a change of one
override grants anybody, inside `p`, is then decided by the change alone.
-/

namespace SlogaBackend

/-- Allow, then deny. -/
structure Override (α : Type*) where
  allow : α
  deny : α

/-! ## Rank order -/

section Rank

variable {β γ : Type*}

/-- From the largest rank to the smallest. -/
def RankBefore (a b : ℤ × β) : Prop := b.1 ≤ a.1

instance : DecidableRel (RankBefore (β := β)) := fun _ _ => inferInstanceAs (Decidable (_ ≤ _))

instance : Std.Total (RankBefore (β := β)) := ⟨fun a b => le_total b.1 a.1⟩

instance : IsTrans (ℤ × β) RankBefore := ⟨fun _ _ _ h h' => le_trans h' h⟩

def byRank (l : List (ℤ × β)) : List β := (l.insertionSort RankBefore).map Prod.snd

/-- No two have the same rank. -/
def DistinctRanks (l : List (ℤ × β)) : Prop := l.Pairwise fun a b => a.1 ≠ b.1

variable {l l' : List (ℤ × β)}

theorem DistinctRanks.perm (h : DistinctRanks l) (hpr : l.Perm l') : DistinctRanks l' :=
  hpr.pairwise h fun hne heq => hne heq.symm

theorem DistinctRanks.filter (h : DistinctRanks l) (p : ℤ × β → Bool) :
    DistinctRanks (l.filter p) := List.Pairwise.filter p h

theorem DistinctRanks.eq_of_rank (h : DistinctRanks l) {a b : ℤ × β} (ha : a ∈ l) (hb : b ∈ l)
    (hrn : a.1 = b.1) : a = b := by
  have : Std.Symm fun a b : ℤ × β => a.1 ≠ b.1 := ⟨fun _ _ hne heq => hne heq.symm⟩
  by_contra hne
  exact List.Pairwise.forall h ha hb hne hrn

theorem eq_of_sorted (hdist : DistinctRanks l) (hpr : l.Perm l')
    (hsor : l.Pairwise RankBefore) (hsor' : l'.Pairwise RankBefore) : l = l' :=
  List.Perm.eq_of_pairwise (fun _ _ ha hb hab hba =>
    hdist.eq_of_rank ha (hpr.mem_iff.mpr hb) (le_antisymm hba hab)) hsor hsor' hpr

/-- **Every order of distinct ranks is sorted to the same list.** -/
theorem byRank_perm (hdist : DistinctRanks l) (hpr : l.Perm l') : byRank l = byRank l' := by
  have hsor : (l.insertionSort RankBefore).Perm (l'.insertionSort RankBefore) :=
    (List.perm_insertionSort _ l).trans (hpr.trans (List.perm_insertionSort _ l').symm)
  unfold byRank
  rw [eq_of_sorted (hdist.perm (List.perm_insertionSort _ l).symm) hsor
    (List.pairwise_insertionSort _ l) (List.pairwise_insertionSort _ l')]

theorem insertionSort_filter (hdist : DistinctRanks l) (p : ℤ × β → Bool) :
    (l.filter p).insertionSort RankBefore = (l.insertionSort RankBefore).filter p := by
  refine eq_of_sorted ?_ ?_ (List.pairwise_insertionSort _ _)
    (List.Pairwise.filter p (List.pairwise_insertionSort _ l))
  · exact (hdist.filter p).perm (List.perm_insertionSort _ _).symm
  · exact (List.perm_insertionSort _ _).trans ((List.perm_insertionSort _ l).filter p).symm

theorem byRank_map (f : ℤ × β → ℤ × γ) (hrn : ∀ a, (f a).1 = a.1) (l : List (ℤ × β)) :
    byRank (l.map f) = (l.insertionSort RankBefore).map fun a => (f a).2 := by
  unfold byRank
  have hsm : ∀ a ∈ l, ∀ b ∈ l, RankBefore a b ↔ RankBefore (f a) (f b) := by
    intro a _ b _
    unfold RankBefore
    rw [hrn, hrn]
  rw [← List.map_insertionSort RankBefore RankBefore f l hsm, List.map_map]
  rfl

end Rank

/-! ## Gains -/

namespace Override

variable {α : Type*} [BooleanAlgebra α]

def apply (x : α) (o : Override α) : α := (x ⊔ o.allow) \ o.deny

/-- Inside `p`, the second allows no more than the first and denies no less. -/
structure Within (p : α) (o o' : Override α) : Prop where
  allow : o'.allow ⊓ p ≤ o.allow
  deny : o.deny ⊓ p ≤ o'.deny

theorem Within.refl (p : α) (o : Override α) : Within p o o := ⟨inf_le_left, inf_le_left⟩

variable {p x x' : α}

/-- **What is granted more is granted outside of `p`.** -/
theorem apply_gain {o o' : Override α} (hx : x' ⊓ p ≤ x) (ho : Within p o o') :
    apply x' o' ⊓ p ≤ apply x o := by
  refine le_sdiff.mpr ⟨?_, ?_⟩
  · calc (x' ⊔ o'.allow) \ o'.deny ⊓ p ≤ (x' ⊔ o'.allow) ⊓ p := inf_le_inf_right p sdiff_le
      _ = x' ⊓ p ⊔ o'.allow ⊓ p := inf_sup_right _ _ _
      _ ≤ x ⊔ o.allow := sup_le_sup hx ho.allow
  · -- what the first denies inside `p`, the second denies too
    rw [disjoint_iff_inf_le]
    calc (x' ⊔ o'.allow) \ o'.deny ⊓ p ⊓ o.deny ≤ (x' ⊔ o'.allow) \ o'.deny ⊓ o'.deny :=
          le_inf (inf_le_left.trans inf_le_left)
            ((le_inf inf_le_right (inf_le_left.trans inf_le_right)).trans ho.deny)
      _ = ⊥ := inf_sdiff_self_left

theorem foldl_gain {l l' : List (Override α)} (hl : List.Forall₂ (Within p) l l') :
    ∀ {x x' : α}, x' ⊓ p ≤ x → l'.foldl apply x' ⊓ p ≤ l.foldl apply x := by
  induction hl with
  | nil => exact fun hx => hx
  | cons ho _ ih => exact fun hx => ih (apply_gain hx ho)

theorem foldl_filter_gain {β : Type*} (f : β → Override α) (keep : β → Bool) {l : List β}
    (hdn : ∀ b ∈ l, keep b = false → (f b).deny ⊓ p = ⊥) (hx : x' ⊓ p ≤ x) :
    ((l.filter keep).map f).foldl apply x' ⊓ p ≤ (l.map f).foldl apply x := by
  induction l generalizing x x' with
  | nil => exact hx
  | cons b l ih =>
    have htl : ∀ b' ∈ l, keep b' = false → (f b').deny ⊓ p = ⊥ :=
      fun b' hb' => hdn b' (List.mem_cons_of_mem _ hb')
    cases hkp : keep b with
    | true =>
      rw [List.filter_cons_of_pos hkp]
      exact ih htl (apply_gain hx (Within.refl p (f b)))
    | false =>
      rw [List.filter_cons_of_neg (by simp [hkp])]
      refine ih htl (le_sdiff.mpr ⟨hx.trans le_sup_left, ?_⟩)
      have hno := hdn b List.mem_cons_self hkp
      rw [disjoint_iff_inf_le, ← hno]
      exact le_inf inf_le_right (inf_le_left.trans inf_le_right)

end Override
end SlogaBackend
