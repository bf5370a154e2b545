import SlogaBackend.Lib.Table

/-!
# Making room in a table

A bounded table drops rows to make room: as long as it is full, a victim is chosen and removed.
Nothing is assumed of how the victim is chosen but what a statement says.

* `evict_not_full`: there is room afterwards, when a full table always has a victim.
* `exists_victim`: a row that is gone was chosen, in a table that was full.
* `get_of_countKeys_le`: a part of a table with as many keys of a kind has all of them.
-/

namespace SlogaBackend.Table

variable {κ V : Type*} [DecidableEq κ]

/-! ## Parts of a table -/

/-- Every row of the one is a row of the other. -/
def Part (t t' : Table κ V) : Prop := ∀ k v, t.get k = some v → t'.get k = some v

theorem Part.refl (t : Table κ V) : t.Part t := fun _ _ h => h

variable {t t' : Table κ V} {p : κ → Bool} {k : κ}

theorem Part.trans {t'' : Table κ V} (h : t.Part t') (h' : t'.Part t'') : t.Part t'' :=
  fun k v hk => h' k v (h k v hk)

theorem part_erase (t : Table κ V) (k : κ) : (t.erase k).Part t := by
  intro k' v hk'
  rw [get_erase] at hk'
  split at hk'
  · cases hk'
  · exact hk'

theorem part_retain (t : Table κ V) (p : κ → V → Bool) : (t.retain p).Part t :=
  fun _ _ hk => (get_retain_eq_some.mp hk).1

/-- Rewrite every row in place, by its key. -/
def mapRows (t : Table κ V) (f : κ → V → V) : Table κ V :=
  ⟨t.entries.map fun e => ⟨e.1, f e.1 e.2⟩, by
    have hkeys : (t.entries.map fun e => (⟨e.1, f e.1 e.2⟩ : Sigma fun _ : κ => V)).keys =
        t.entries.keys := by
      simp [List.keys, Function.comp_def]
    unfold List.NodupKeys
    rw [hkeys]
    exact t.keys_nodup⟩

theorem get_mapRows (t : Table κ V) (f : κ → V → V) (k : κ) :
    (t.mapRows f).get k = (t.get k).map (f k) := by
  ext v
  rw [get_eq_some_iff, map_eq_some_iff]
  unfold mapRows
  rw [mem_map]
  constructor
  · rintro ⟨⟨k', w⟩, hmem, heq⟩
    cases heq
    exact ⟨w, get_eq_some_iff.mpr hmem, rfl⟩
  · rintro ⟨w, hw, rfl⟩
    exact ⟨⟨k, w⟩, get_eq_some_iff.mp hw, rfl⟩

/-! ## Counting keys -/

def countKeys (p : κ → Bool) (t : Table κ V) : ℕ := t.keys.countP p

/-- The keys of a kind, as a set. -/
def keySet (p : κ → Bool) (t : Table κ V) : Finset κ := (t.keys.filter p).toFinset

theorem mem_keySet : k ∈ t.keySet p ↔ (∃ v, t.get k = some v) ∧ p k = true := by
  unfold keySet
  rw [List.mem_toFinset, mem_filter]
  refine and_congr_left fun _ => ?_
  have hisSome : (t.get k).isSome = true ↔ k ∈ t := AList.lookup_isSome
  exact hisSome.symm.trans isSome_iff_exists

theorem card_keySet (p : κ → Bool) (t : Table κ V) : (t.keySet p).card = t.countKeys p := by
  have hnod : (t.keys.filter p).Nodup := t.keys_nodup.filter _
  unfold keySet countKeys
  rw [List.toFinset_card_of_nodup hnod, List.countP_eq_length_filter]

theorem keySet_subset (h : t.Part t') : t.keySet p ⊆ t'.keySet p := by
  intro k hk
  obtain ⟨⟨v, hv⟩, hp⟩ := mem_keySet.mp hk
  exact mem_keySet.mpr ⟨⟨v, h k v hv⟩, hp⟩

theorem countKeys_le (h : t.Part t') : t.countKeys p ≤ t'.countKeys p := by
  rw [← card_keySet, ← card_keySet]
  exact Finset.card_le_card (keySet_subset h)

variable {v : V}

/-- **A part with as many keys of a kind has all of them.** -/
theorem get_of_countKeys_le (h : t.Part t') (hcnt : t'.countKeys p ≤ t.countKeys p)
    (hk : t'.get k = some v) (hp : p k = true) : t.get k = some v := by
  rw [← card_keySet, ← card_keySet] at hcnt
  have hsm := Finset.eq_of_subset_of_card_le (keySet_subset h) hcnt
  have hmem : k ∈ t.keySet p := hsm ▸ mem_keySet.mpr ⟨⟨v, hk⟩, hp⟩
  obtain ⟨⟨w, hw⟩, -⟩ := mem_keySet.mp hmem
  rw [hw, ← h k w hw, hk]

omit [DecidableEq κ] in
theorem countKeys_mapRows (p : κ → Bool) (t : Table κ V) (f : κ → V → V) :
    (t.mapRows f).countKeys p = t.countKeys p := by
  have hky : (t.mapRows f).keys = t.keys := by
    unfold mapRows AList.keys
    simp [List.keys, Function.comp_def]
  unfold countKeys
  rw [hky]

theorem countKeys_insert_of_get (w : V) (hk : t.get k = some v) :
    (t.insert k w).countKeys p = t.countKeys p := by
  rw [← card_keySet, ← card_keySet]
  congr 1
  ext k'
  rw [mem_keySet, mem_keySet, get_insert]
  by_cases heq : k' = k
  · rw [if_pos heq, heq, hk]
    simp
  · rw [if_neg heq]

theorem countKeys_insert_le (p : κ → Bool) (t : Table κ V) (k : κ) (v : V) :
    (t.insert k v).countKeys p ≤ t.countKeys p + if p k then 1 else 0 := by
  have hsub : (t.insert k v).keySet p ⊆ t.keySet p ∪ if p k then {k} else ∅ := by
    intro k' hk'
    obtain ⟨hg, hp⟩ := mem_keySet.mp hk'
    rw [get_insert] at hg
    by_cases heq : k' = k
    · rw [heq] at hp
      rw [if_pos hp, heq]
      exact Finset.mem_union_right _ (Finset.mem_singleton_self k)
    · rw [if_neg heq] at hg
      exact Finset.mem_union_left _ (mem_keySet.mpr ⟨hg, hp⟩)
  have hcr := (Finset.card_le_card hsub).trans (Finset.card_union_le _ _)
  rw [card_keySet, card_keySet] at hcr
  refine hcr.trans (Nat.add_le_add_left ?_ _)
  split
  · exact (Finset.card_singleton k).le
  · exact Finset.card_empty.le

theorem exists_get_of_countKeys_pos (h : 0 < t.countKeys p) :
    ∃ k v, t.get k = some v ∧ p k = true := by
  rw [← card_keySet] at h
  obtain ⟨k, hk⟩ := Finset.card_pos.mp h
  obtain ⟨⟨v, hv⟩, hp⟩ := mem_keySet.mp hk
  exact ⟨k, v, hv, hp⟩

omit [DecidableEq κ] in
theorem length_keys (t : Table κ V) : t.keys.length = t.countKeys fun _ => true :=
  (congrFun List.countP_true t.keys).symm

theorem length_keys_insert_le (t : Table κ V) (k : κ) (v : V) :
    (t.insert k v).keys.length ≤ t.keys.length + 1 := by
  rw [length_keys, length_keys]
  exact countKeys_insert_le _ t k v

theorem length_keys_insert_of_get (w : V) (hk : t.get k = some v) :
    (t.insert k w).keys.length = t.keys.length := by
  rw [length_keys, length_keys]
  exact countKeys_insert_of_get w hk

theorem length_keys_erase_le (t : Table κ V) (k : κ) : (t.erase k).keys.length ≤ t.keys.length := by
  rw [length_keys, length_keys]
  exact countKeys_le (part_erase t k)

/-! ## Victims -/

/-- Remove victims while the table is full, at most as many as is said. -/
def evictAtMost (full : Table κ V → Bool) (victim : Table κ V → Option κ) :
    ℕ → Table κ V → Table κ V
  | 0, t => t
  | n + 1, t =>
    if full t then
      match victim t with
      | some k => evictAtMost full victim n (t.erase k)
      | none => t
    else t

/-- Remove victims while the table is full and has one. -/
def evict (full : Table κ V → Bool) (victim : Table κ V → Option κ) (t : Table κ V) : Table κ V :=
  evictAtMost full victim t.keys.length t

variable {full : Table κ V → Bool} {victim : Table κ V → Option κ}

theorem part_evictAtMost (n : ℕ) (t : Table κ V) : (evictAtMost full victim n t).Part t := by
  induction n generalizing t with
  | zero => exact Part.refl t
  | succ n ih =>
    unfold evictAtMost
    split
    · split
      · exact (ih _).trans (part_erase _ _)
      · exact Part.refl t
    · exact Part.refl t

theorem part_evict (t : Table κ V) : (evict full victim t).Part t := part_evictAtMost _ t

theorem evictAtMost_not_full {n : ℕ} (hvic : ∀ t' : Table κ V, t'.Part t → full t' = true →
      ∃ k v, victim t' = some k ∧ t'.get k = some v) (hn : t.keys.length ≤ n) :
    full (evictAtMost full victim n t) = false := by
  induction n generalizing t with
  | zero =>
    by_contra hfl
    obtain ⟨k, v, -, hk⟩ := hvic t (Part.refl t) (Bool.not_eq_false _ ▸ hfl)
    exact ne_nil_of_mem (mem_keys_of_get hk) (List.length_eq_zero_iff.mp (Nat.le_zero.mp hn))
  | succ n ih =>
    unfold evictAtMost
    by_cases hfl : full t = true
    · obtain ⟨k, v, hchos, hk⟩ := hvic t (Part.refl t) hfl
      rw [if_pos hfl, hchos]
      refine ih (fun t' hpr => hvic t' (hpr.trans (part_erase t k))) ?_
      have hmem : k ∈ t.keys := mem_keys_of_get hk
      have hlen : (t.erase k).keys.length = t.keys.length - 1 := by
        show (AList.erase k t).keys.length = _
        rw [AList.keys_erase, List.length_erase_of_mem hmem]
      omega
    · rw [if_neg hfl]
      exact Bool.not_eq_true _ ▸ hfl

variable (full victim) in
/-- **There is room.** -/
theorem evict_not_full (hvic : ∀ t' : Table κ V, t'.Part t → full t' = true →
      ∃ k v, victim t' = some k ∧ t'.get k = some v) : full (evict full victim t) = false :=
  evictAtMost_not_full hvic le_rfl

theorem exists_victim_atMost {n : ℕ} (hk : t.get k = some v)
    (hgn : (evictAtMost full victim n t).get k = none) :
    ∃ t' : Table κ V, t'.Part t ∧ full t' = true ∧ victim t' = some k ∧ t'.get k = some v := by
  induction n generalizing t with
  | zero => cases hk.symm.trans hgn
  | succ n ih =>
    unfold evictAtMost at hgn
    by_cases hfl : full t = true
    · rw [if_pos hfl] at hgn
      cases hchos : victim t with
      | none =>
        rw [hchos] at hgn
        cases hk.symm.trans hgn
      | some k' =>
        rw [hchos] at hgn
        by_cases heq : k = k'
        · exact ⟨t, Part.refl t, hfl, heq ▸ hchos, hk⟩
        · have hstl : (t.erase k').get k = some v := by
            rw [get_erase, if_neg heq]
            exact hk
          obtain ⟨t', hpr, hrs⟩ := ih hstl hgn
          exact ⟨t', hpr.trans (part_erase t k'), hrs⟩
    · rw [if_neg hfl] at hgn
      cases hk.symm.trans hgn

/-- **A row that is gone was chosen while the table was full.** -/
theorem exists_victim (hk : t.get k = some v) (hgn : (evict full victim t).get k = none) :
    ∃ t' : Table κ V, t'.Part t ∧ full t' = true ∧ victim t' = some k ∧ t'.get k = some v :=
  exists_victim_atMost hk hgn

end SlogaBackend.Table
