import Mathlib.Algebra.Ring.Int.Defs
import Mathlib.Algebra.BigOperators.Group.List.Basic
import SlogaBackend.Lib.Table

/-!
# Sums over tables, and tables of counters

`total f t` adds up a measure over the rows of a table; putting a row in its place changes the sum
by the difference of the two rows (`total_insert`, `total_erase`).

A table of integers is a table of counters, where a key that is absent counts zero. `bump` adds to
a counter, `settle` adds and drops a counter that has come to zero.

* `value_bumpAll`: what a list of keys adds to each counter.
* `value_settleAll`: settling a table of differences adds them.
* `Tidy`: no counter is kept at zero, so that a table is known by its values
  (`Tidy.get_eq`).
-/

namespace SlogaBackend
namespace Table

variable {κ V : Type*} [DecidableEq κ]

/-! ## Sums -/

/-- The sum of a measure over the rows. -/
def total (f : V → Int) (t : Table κ V) : Int := (t.values.map f).sum

/-- The measure of what is found under a key. -/
def at_ (f : V → Int) (t : Table κ V) (k : κ) : Int := ((t.get k).map f).getD 0

section

variable (f : V → Int) (t : Table κ V) (k : κ)

theorem total_erase : total f (t.erase k) = total f t - at_ f t k := by
  by_cases hk : k ∈ t
  · obtain ⟨v, before, after, -, hents, hera⟩ := List.exists_of_kerase hk
    have hg : t.get k = some v := by
      refine get_eq_some_iff.mpr ?_
      rw [hents]
      exact mem_append_right _ mem_cons_self
    have hnew : (t.erase k).entries = before ++ after := hera
    unfold total values at_
    rw [hg, hents, hnew]
    simp
    omega
  · have hsm : t.erase k = t := AList.ext (List.kerase_of_notMem_keys hk)
    have hno : t.get k = none := AList.lookup_eq_none.mpr hk
    unfold at_
    rw [hsm, hno]
    exact (Int.sub_zero _).symm

theorem total_insert (v : V) : total f (t.insert k v) = total f t - at_ f t k + f v := by
  rw [← total_erase]
  show ((v :: (t.erase k).values).map f).sum = _
  rw [map_cons, sum_cons, Int.add_comm]
  rfl

end

theorem total_eq_zero {f : V → Int} {t : Table κ V} (hzr : ∀ k v, t.get k = some v → f v = 0) :
    total f t = 0 := by
  refine List.sum_eq_zero fun x hx => ?_
  obtain ⟨v, hv, rfl⟩ := mem_map.mp hx
  obtain ⟨k, hk⟩ := mem_values.mp hv
  exact hzr k v hk

/-- A sum does not depend on what the measure leaves out of a row. -/
theorem total_congr {f : V → Int} {g : V → V} {t t' : Table κ V} (hfg : ∀ v, f (g v) = f v)
    (hsame : ∀ k, (t.get k).map g = (t'.get k).map g) : total f t = total f t' := by
  have hmapped : ∀ t : Table κ V, total f (t.mapValues g) = total f t := fun t => by
    unfold total values mapValues
    simp [Function.comp_def, hfg]
  have hperm := (perm_of_get fun k => by
    rw [get_mapValues, get_mapValues, hsame] : (t.mapValues g).entries.Perm (t'.mapValues g).entries)
  rw [← hmapped t, ← hmapped t']
  exact ((hperm.map Sigma.snd).map f).sum_eq

end Table

/-! ## Counters -/

/-- Counters, by their keys. -/
abbrev Counters (κ : Type*) := Table κ Int

namespace Counters

variable {κ : Type*} [DecidableEq κ]

/-- What a counter stands at; an absent one at zero. -/
def value (t : Counters κ) (k : κ) : Int := (t.get k).getD 0

/-- `*entry(k).or_insert(0) += d`. -/
def bump (d : Int) (t : Counters κ) (k : κ) : Counters κ := t.insert k (t.value k + d)

def bumpAll (d : Int) (t : Counters κ) (ks : List κ) : Counters κ := ks.foldl (bump d) t

/-- Add to a counter, and drop it at zero. -/
def settle (t : Counters κ) (k : κ) (d : Int) : Counters κ :=
  if t.value k + d = 0 then t.erase k else t.insert k (t.value k + d)

def settleAll (t deltas : Counters κ) : Counters κ :=
  deltas.entries.foldl (fun t entry => settle t entry.1 entry.2) t

/-- No counter is kept at zero. -/
def Tidy (t : Counters κ) : Prop := ∀ k, t.get k ≠ some 0

/-- Every counter there is stands above zero. -/
def Positive (t : Counters κ) : Prop := ∀ k v, t.get k = some v → 0 < v

@[simp] theorem value_empty (k : κ) : value (∅ : Counters κ) k = 0 := rfl

theorem value_insert (t : Counters κ) (k k' : κ) (v : Int) :
    value (t.insert k v) k' = if k' = k then v else t.value k' := by
  unfold value
  rw [get_insert]
  split <;> rfl

theorem value_bump (d : Int) (t : Counters κ) (k k' : κ) :
    (t.bump d k).value k' = t.value k' + if k' = k then d else 0 := by
  unfold bump
  rw [value_insert]
  by_cases hk : k' = k
  · rw [if_pos hk, if_pos hk, hk]
  · rw [if_neg hk, if_neg hk, Int.add_zero]

/-- **What a list of keys adds** to each counter. -/
theorem value_bumpAll (d : Int) (t : Counters κ) (ks : List κ) (k : κ) :
    (t.bumpAll d ks).value k = t.value k + d * ks.count k := by
  unfold bumpAll
  induction ks generalizing t with
  | nil => simp
  | cons k' ks ih =>
    rw [foldl_cons, ih, value_bump, List.count_cons]
    by_cases hk : k = k'
    · rw [if_pos hk, hk, beq_self_eq_true, if_pos rfl, Int.natCast_add, Int.natCast_one,
        Int.mul_add, Int.mul_one]
      omega
    · rw [if_neg hk, if_neg (by simpa using Ne.symm hk), Int.add_zero, Nat.add_zero]

theorem value_settle (t : Counters κ) (k k' : κ) (d : Int) :
    (t.settle k d).value k' = t.value k' + if k' = k then d else 0 := by
  unfold settle
  split
  · rename_i hzr
    unfold value at hzr ⊢
    rw [get_erase]
    by_cases hk : k' = k
    · rw [if_pos hk, if_pos hk, hk]
      exact hzr.symm
    · rw [if_neg hk, if_neg hk, Int.add_zero]
  · exact value_bump d t k k'

/-- **Settling a table of differences** adds them. -/
theorem value_settleAll (t deltas : Counters κ) (k : κ) :
    (t.settleAll deltas).value k = t.value k + deltas.value k := by
  obtain ⟨entries, hnod⟩ := deltas
  show value (entries.foldl (fun t entry => settle t entry.1 entry.2) t) k =
    t.value k + (entries.dlookup k).getD 0
  induction entries generalizing t with
  | nil => exact (Int.add_zero _).symm
  | cons entry entries ih =>
    obtain ⟨hnew, hrs⟩ := List.nodupKeys_cons.mp hnod
    rw [foldl_cons, ih _ hrs, value_settle]
    by_cases hk : k = entry.1
    · subst hk
      rw [if_pos rfl, List.dlookup_eq_none.mpr hnew, List.dlookup_cons_eq]
      exact Int.add_zero _
    · rw [if_neg hk, Int.add_zero, List.dlookup_cons_ne _ _ hk]

theorem value_retain_ne_zero (t : Counters κ) (k : κ) :
    value (t.retain fun _ d => d ≠ 0) k = t.value k := by
  unfold value
  rw [get_retain]
  cases t.get k with
  | none => rfl
  | some d =>
    by_cases hd : d = 0
    · subst hd
      rfl
    · rw [Option.filter_some_pos (by simpa using hd)]

variable {t : Counters κ}

theorem Positive.tidy (hpos : t.Positive) : t.Tidy :=
  fun k hk => absurd (hpos k 0 hk) (Int.lt_irrefl 0)

theorem positive_empty : Positive (∅ : Counters κ) := nofun

theorem Positive.bumpAll (hpos : t.Positive) (ks : List κ) : (t.bumpAll 1 ks).Positive := by
  refine List.foldlRecOn ks _ hpos fun t ht k _ => ?_
  have hval : 0 ≤ t.value k := by
    unfold value
    cases hg : t.get k with
    | none => exact Int.le_refl 0
    | some v => exact Int.le_of_lt (ht k v hg)
  exact forall_insert (P := fun _ v => 0 < v) ht (by omega)

theorem Tidy.settle (htd : t.Tidy) (k : κ) (d : Int) : (t.settle k d).Tidy := by
  intro k'
  unfold Counters.settle
  split
  · rw [get_erase]
    split
    · exact nofun
    · exact htd k'
  · rename_i hne
    rw [get_insert]
    split
    · exact fun h => hne (some.inj h)
    · exact htd k'

theorem Tidy.settleAll (htd : t.Tidy) (deltas : Counters κ) : (t.settleAll deltas).Tidy :=
  List.foldlRecOn _ _ htd fun _ ht entry _ => ht.settle entry.1 entry.2

/-- **Tidy counters are known by their values.** -/
theorem Tidy.get_eq {t' : Counters κ} (htd : t.Tidy) (htd' : t'.Tidy)
    (hval : ∀ k, t.value k = t'.value k) (k : κ) : t.get k = t'.get k := by
  have hk := hval k
  unfold value at hk
  cases hg : t.get k with
  | none =>
    cases hg' : t'.get k with
    | none => rfl
    | some v =>
      rw [hg, hg'] at hk
      have hzr : (0 : Int) = v := hk
      exact absurd (hzr ▸ hg') (htd' k)
  | some v =>
    cases hg' : t'.get k with
    | none =>
      rw [hg, hg'] at hk
      have hzr : v = 0 := hk
      exact absurd (hzr ▸ hg) (htd k)
    | some v' =>
      rw [hg, hg'] at hk
      exact congrArg some hk

end Counters
end SlogaBackend
