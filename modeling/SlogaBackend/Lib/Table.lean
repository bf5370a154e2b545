import Mathlib.Data.List.AList
import Mathlib.Data.Finset.Card

/-!
# Tables

A keyed collection of rows: Mathlib's association lists with duplicate-free
keys, with the bulk operations a store driver performs on them. `retain` keeps
the rows a predicate accepts, `mapValues` rewrites every row in place, and
`insertAll` inserts a list of rows under a key read off each row.

A table has an order only because it is a list. What a search over the rows
returns is therefore pinned by `find?_values_eq_some_iff`: when at most one row
matches, the search returns that row whatever the order.

`support` is the set of keys whose row satisfies a predicate. Its cardinality
is the number of such rows (`card_support`), which turns a counting argument
about rows into one about finite sets of keys.
-/

namespace SlogaBackend

/-- A finite map from keys to rows. -/
abbrev Table (κ V : Type*) := AList fun _ : κ => V

namespace Table

variable {κ V : Type*}

instance [DecidableEq κ] [DecidableEq V] : DecidableEq (Table κ V) := fun s t =>
  decidable_of_iff (s.entries = t.entries) AList.ext_iff.symm

/-! ## Rows -/

/-- The rows, in storage order. -/
def values (t : Table κ V) : List V := t.entries.map Sigma.snd

/-- The row at a key. -/
def get [DecidableEq κ] (t : Table κ V) (k : κ) : Option V := AList.lookup k t

variable {t : Table κ V} {p : V → Bool} {v : V} {k : κ} {entries : List (κ × V)}

/-- **A search with at most one match returns it.** The result of a search over
the rows does not depend on their order once the match is unique. -/
theorem find?_values_eq_some_iff
    (hun : ∀ v ∈ t.values, ∀ w ∈ t.values, p v = true → p w = true → v = w) :
    t.values.find? p = some v ↔ v ∈ t.values ∧ p v = true := by
  constructor
  · intro h
    exact ⟨List.mem_of_find?_eq_some h, List.find?_some h⟩
  · rintro ⟨hv, hp⟩
    cases hf : t.values.find? p with
    | none => exact absurd hp (List.find?_eq_none.mp hf v hv)
    | some w => rw [hun w (List.mem_of_find?_eq_some hf) v hv (List.find?_some hf) hp]

variable [DecidableEq κ]

@[simp] theorem get_empty (k : κ) : (∅ : Table κ V).get k = none := rfl

theorem get_eq_some_iff : t.get k = some v ↔ (⟨k, v⟩ : Sigma fun _ : κ => V) ∈ t.entries :=
  AList.mem_lookup_iff

theorem perm_of_get {t' : Table κ V} (h : ∀ k, t.get k = t'.get k) : t.entries.Perm t'.entries := by
  refine List.lookup_ext t.nodupKeys t'.nodupKeys fun k v => ?_
  exact iff_of_eq (congrArg (fun found : Option V => v ∈ found) (h k))

theorem mem_values : v ∈ t.values ↔ ∃ k, t.get k = some v := by
  unfold values
  rw [List.mem_map]
  constructor
  · rintro ⟨⟨k, w⟩, hmem, rfl⟩
    exact ⟨k, get_eq_some_iff.mpr hmem⟩
  · rintro ⟨k, hk⟩
    exact ⟨⟨k, v⟩, get_eq_some_iff.mp hk, rfl⟩

theorem mem_keys_of_get (h : t.get k = some v) : k ∈ t.keys :=
  AList.mem_keys.mp (AList.lookup_isSome.mp (by rw [get] at h; simp [h]))

theorem mem_values_of_get (h : t.get k = some v) : v ∈ t.values := mem_values.mpr ⟨k, h⟩

/-! ## Single rows -/

/-- Store a row under a key, replacing the row there. -/
def insert (t : Table κ V) (k : κ) (v : V) : Table κ V := AList.insert k v t

/-- Remove the row at a key. -/
def erase (t : Table κ V) (k : κ) : Table κ V := AList.erase k t

/-- Rewrite the row at a key, if there is one. -/
def modify (t : Table κ V) (k : κ) (f : V → V) : Table κ V :=
  match t.get k with
  | some v => t.insert k (f v)
  | none => t

theorem get_insert (t : Table κ V) (k k' : κ) (v : V) :
    (t.insert k v).get k' = if k' = k then some v else t.get k' := by
  unfold insert get
  by_cases h : k' = k
  · subst h
    rw [if_pos rfl, AList.lookup_insert]
  · rw [if_neg h, AList.lookup_insert_ne h]

theorem get_insert_self : (t.insert k v).get k = some v := by rw [get_insert, if_pos rfl]

theorem values_insert_of_get_none (h : t.get k = none) : (t.insert k v).values = v :: t.values := by
  unfold insert values
  rw [AList.entries_insert_of_notMem (AList.lookup_eq_none.mp h), List.map_cons]

theorem get_erase (t : Table κ V) (k k' : κ) :
    (t.erase k).get k' = if k' = k then none else t.get k' := by
  unfold erase get
  by_cases h : k' = k
  · subst h
    rw [if_pos rfl, AList.lookup_erase]
  · rw [if_neg h, AList.lookup_erase_ne h]

variable {P : κ → V → Prop}

theorem forall_insert (ht : ∀ k v, t.get k = some v → P k v) (hv : P k v) :
    ∀ k' v', (t.insert k v).get k' = some v' → P k' v' := by
  intro k' v' h
  rw [get_insert] at h
  split at h
  · rename_i hk
    rw [hk, ← Option.some.inj h]
    exact hv
  · exact ht k' v' h

theorem forall_erase (ht : ∀ k v, t.get k = some v → P k v) :
    ∀ k' v', (t.erase k).get k' = some v' → P k' v' := by
  intro k' v' h
  rw [get_erase] at h
  split at h
  · cases h
  · exact ht k' v' h

theorem get_modify (t : Table κ V) (k k' : κ) (f : V → V) :
    (t.modify k f).get k' = if k' = k then (t.get k').map f else t.get k' := by
  unfold modify
  cases h : t.get k with
  | none =>
    by_cases hk : k' = k
    · subst hk
      rw [if_pos rfl, h, Option.map_none]
    · rw [if_neg hk]
  | some v =>
    rw [get_insert]
    by_cases hk : k' = k
    · subst hk
      rw [if_pos rfl, if_pos rfl, h, Option.map_some]
    · rw [if_neg hk, if_neg hk]

/-! ## Bulk operations -/

/-- Keep the rows the predicate accepts. -/
def retain (t : Table κ V) (p : κ → V → Bool) : Table κ V :=
  ⟨t.entries.filter fun e => p e.1 e.2, t.nodupKeys.sublist List.filter_sublist⟩

theorem get_retain_eq_some {p : κ → V → Bool} :
    (t.retain p).get k = some v ↔ t.get k = some v ∧ p k v = true := by
  rw [get_eq_some_iff, get_eq_some_iff]
  exact List.mem_filter

theorem get_retain (t : Table κ V) (p : κ → V → Bool) (k : κ) :
    (t.retain p).get k = (t.get k).filter (p k) := by
  ext v
  rw [get_retain_eq_some, Option.filter_eq_some_iff]

/-- Rewrite every row in place. -/
def mapValues (t : Table κ V) (f : V → V) : Table κ V :=
  ⟨t.entries.map fun e => ⟨e.1, f e.2⟩, by
    have hkeys : (t.entries.map fun e => (⟨e.1, f e.2⟩ : Sigma fun _ : κ => V)).keys =
        t.entries.keys := by
      simp [List.keys, Function.comp_def]
    unfold List.NodupKeys
    rw [hkeys]
    exact t.keys_nodup⟩

theorem get_mapValues (t : Table κ V) (f : V → V) (k : κ) :
    (t.mapValues f).get k = (t.get k).map f := by
  ext v
  rw [get_eq_some_iff, Option.map_eq_some_iff]
  unfold mapValues
  rw [List.mem_map]
  constructor
  · rintro ⟨⟨k', w⟩, hmem, heq⟩
    cases heq
    exact ⟨w, get_eq_some_iff.mpr hmem, rfl⟩
  · rintro ⟨w, hw, rfl⟩
    exact ⟨⟨k, w⟩, get_eq_some_iff.mp hw, rfl⟩

/-- Insert rows in order, each under the key read off it. -/
def insertAll (t : Table κ V) (key : V → κ) (rows : List V) : Table κ V :=
  rows.foldl (fun acc row => acc.insert (key row) row) t

@[simp] theorem insertAll_cons (t : Table κ V) (key : V → κ) (row : V) (rows : List V) :
    t.insertAll key (row :: rows) = (t.insert (key row) row).insertAll key rows := rfl

section

variable {key : V → κ} {rows : List V}

theorem get_insertAll_of_notMem (h : ∀ row ∈ rows, key row ≠ k) (t : Table κ V) :
    (t.insertAll key rows).get k = t.get k := by
  induction rows generalizing t with
  | nil => rfl
  | cons row rows ih =>
    rw [insertAll_cons, ih (fun r hr => h r (List.mem_cons_of_mem _ hr)), get_insert,
      if_neg (h row List.mem_cons_self).symm]

theorem get_insertAll_of_mem
    (hnd : (rows.map key).Nodup) {row : V} (hrow : row ∈ rows) (t : Table κ V) :
    (t.insertAll key rows).get (key row) = some row := by
  induction rows generalizing t with
  | nil => cases hrow
  | cons r rows ih =>
    rw [List.map_cons, List.nodup_cons] at hnd
    rw [insertAll_cons]
    rcases List.mem_cons.mp hrow with rfl | hmem
    · have hne : ∀ s ∈ rows, key s ≠ key row := fun s hs heq =>
        hnd.1 (List.mem_map.mpr ⟨s, hs, heq⟩)
      rw [get_insertAll_of_notMem hne, get_insert, if_pos rfl]
    · exact ih hnd.2 hmem _

theorem get_insertAll_cases (h : (t.insertAll key rows).get k = some v) :
    (v ∈ rows ∧ key v = k) ∨ (t.get k = some v ∧ ∀ row ∈ rows, key row ≠ k) := by
  induction rows generalizing t with
  | nil => exact .inr ⟨h, by simp⟩
  | cons r rows ih =>
    rcases ih h with ⟨hmem, hkey⟩ | ⟨hl, hne⟩
    · exact .inl ⟨List.mem_cons_of_mem _ hmem, hkey⟩
    · rw [get_insert] at hl
      by_cases hk : k = key r
      · rw [if_pos hk, Option.some.injEq] at hl
        exact .inl ⟨hl ▸ List.mem_cons_self, by rw [← hl, ← hk]⟩
      · rw [if_neg hk] at hl
        refine .inr ⟨hl, fun row hrow => ?_⟩
        rcases List.mem_cons.mp hrow with rfl | hmem
        · exact fun heq => hk heq.symm
        · exact hne row hmem

end

/-- Collect rows that come with their keys: of several under one key, the last stays. -/
def ofEntries (entries : List (κ × V)) : Table κ V :=
  entries.foldl (fun t entry => t.insert entry.1 entry.2) ∅

theorem get_foldl_insert_of_notMem (h : ∀ entry ∈ entries, entry.1 ≠ k) (t : Table κ V) :
    (entries.foldl (fun t entry => t.insert entry.1 entry.2) t).get k = t.get k := by
  induction entries generalizing t with
  | nil => rfl
  | cons entry entries ih =>
    rw [List.foldl_cons, ih fun e he => h e (List.mem_cons_of_mem _ he), get_insert,
      if_neg (h entry List.mem_cons_self).symm]

theorem get_ofEntries (hmem : (k, v) ∈ entries)
    (hsm : ∀ entry ∈ entries, entry.1 = k → entry.2 = v) : (ofEntries entries).get k = some v := by
  unfold ofEntries
  generalize (∅ : Table κ V) = t
  induction entries generalizing t with
  | nil => exact absurd hmem List.not_mem_nil
  | cons entry entries ih =>
    have htl : ∀ e ∈ entries, e.1 = k → e.2 = v := fun e he => hsm e (List.mem_cons_of_mem _ he)
    rw [List.foldl_cons]
    by_cases hlat : ∃ w, (k, w) ∈ entries
    · obtain ⟨w, hw⟩ := hlat
      obtain rfl : w = v := htl _ hw rfl
      exact ih hw htl _
    · obtain rfl : (k, v) = entry :=
        (List.mem_cons.mp hmem).resolve_right fun hmem' => hlat ⟨v, hmem'⟩
      rw [get_foldl_insert_of_notMem (fun e he hk => hlat ⟨e.2, hk ▸ he⟩), get_insert, if_pos rfl]

theorem get_ofEntries_of_notMem (h : ∀ entry ∈ entries, entry.1 ≠ k) :
    (ofEntries entries).get k = none :=
  get_foldl_insert_of_notMem h ∅

/-- Remove the rows at a list of keys. -/
def eraseAll (t : Table κ V) (keys : List κ) : Table κ V := keys.foldl (fun acc k => acc.erase k) t

theorem get_eraseAll (t : Table κ V) (keys : List κ) (k : κ) :
    (t.eraseAll keys).get k = if k ∈ keys then none else t.get k := by
  induction keys generalizing t with
  | nil => simp [eraseAll]
  | cons a keys ih =>
    have hst : t.eraseAll (a :: keys) = (t.erase a).eraseAll keys := rfl
    rw [hst, ih, get_erase]
    by_cases hk : k ∈ keys
    · simp [hk]
    · by_cases hka : k = a
      · simp [hka]
      · simp [hk, hka]

/-- Take the rows at a list of keys over from another table, and their absence too. -/
def overwrite (t other : Table κ V) (keys : List κ) : Table κ V :=
  keys.foldl (fun acc k =>
    match other.get k with
    | some v => acc.insert k v
    | none => acc.erase k) t

theorem get_overwrite (t other : Table κ V) (keys : List κ) (k : κ) :
    (t.overwrite other keys).get k = if k ∈ keys then other.get k else t.get k := by
  induction keys generalizing t with
  | nil => simp [overwrite]
  | cons a keys ih =>
    have hst : t.overwrite other (a :: keys) = overwrite (match other.get a with
          | some v => t.insert a v
          | none => t.erase a) other keys := rfl
    rw [hst, ih]
    by_cases hk : k ∈ keys
    · simp [hk]
    · by_cases hka : k = a
      · subst hka
        cases hoth : other.get k with
        | none => simp [hk, get_erase]
        | some v => simp [hk, get_insert]
      · cases hoth : other.get a with
        | none => simp [hk, hka, get_erase]
        | some v => simp [hk, hka, get_insert]

/-- The keys of the rows a predicate accepts. -/
def keysWhere (t : Table κ V) (p : V → Bool) : List κ :=
  (t.entries.filter fun e => p e.2).map Sigma.fst

theorem mem_keysWhere : k ∈ t.keysWhere p ↔ ∃ v, t.get k = some v ∧ p v = true := by
  unfold keysWhere
  rw [List.mem_map]
  constructor
  · rintro ⟨⟨k', v⟩, hmem, rfl⟩
    rw [List.mem_filter] at hmem
    exact ⟨v, get_eq_some_iff.mpr hmem.1, hmem.2⟩
  · rintro ⟨v, hv, hp⟩
    exact ⟨⟨k, v⟩, List.mem_filter.mpr ⟨get_eq_some_iff.mp hv, hp⟩, rfl⟩

/-- **A unique index.** When a field has no value twice among the rows, it determines
the key. -/
theorem key_eq_of_nodup {ι : Type*} {field : V → ι} (hnd : ((t.values.filter p).map field).Nodup)
    {k' : κ} {v' : V} (hk : t.get k = some v) (hk' : t.get k' = some v') (hp : p v = true)
    (hp' : p v' = true) (hfiel : field v = field v') : k = k' := by
  have hval : (t.values.filter p).map field =
      (t.entries.filter fun e => p e.2).map fun e => field e.2 := by
    unfold values
    rw [List.filter_map, List.map_map]
    rfl
  rw [hval] at hnd
  have hmem : (⟨k, v⟩ : Sigma fun _ : κ => V) ∈ t.entries.filter fun e => p e.2 :=
    List.mem_filter.mpr ⟨get_eq_some_iff.mp hk, hp⟩
  have hmem' : (⟨k', v'⟩ : Sigma fun _ : κ => V) ∈ t.entries.filter fun e => p e.2 :=
    List.mem_filter.mpr ⟨get_eq_some_iff.mp hk', hp'⟩
  exact congrArg Sigma.fst (List.inj_on_of_nodup_map hnd hmem hmem' hfiel)

/-! ## Counting rows by their keys -/

/-- The keys whose row satisfies a predicate. -/
def support (t : Table κ V) (p : V → Bool) : Finset κ :=
  ((t.entries.filter fun e => p e.2).map Sigma.fst).toFinset

theorem mem_support : k ∈ t.support p ↔ ∃ v, t.get k = some v ∧ p v = true := by
  unfold support
  rw [List.mem_toFinset]
  exact mem_keysWhere

/-- **Counting rows is counting keys.** -/
theorem card_support (t : Table κ V) (p : V → Bool) :
    (t.support p).card = (t.values.filter p).length := by
  have hnd : ((t.entries.filter fun e => p e.2).map Sigma.fst).Nodup :=
    t.keys_nodup.sublist (List.filter_sublist.map _)
  unfold support values
  rw [List.toFinset_card_of_nodup hnd, List.length_map, List.filter_map, List.length_map]
  rfl

end Table

/-! ## Lemmas under their last names -/

export Table (get_insert get_insert_self get_erase mem_values mem_values_of_get get_retain_eq_some
  forall_insert get_modify get_mapValues mem_keys_of_get get_eq_some_iff get_insertAll_cases get_retain
  get_eraseAll)

export List (mem_cons_self length_append mem_cons_of_mem append_assoc not_mem_nil mem_cons
  mem_singleton length_cons append_nil mem_append_right cons_append mem_map mem_append_left map_cons
  mem_filter mem_append flatten_cons drop_drop foldl_cons length_drop length_pos_iff map_append
  length_singleton flatten_nil mem_map_of_mem length_map drop_left append_inj any_eq_true
  mem_filterMap cons.inj map_map contains_iff_mem append_of_mem all_eq_true ne_nil_of_mem nodup_cons
  nodup_append mem_of_find?_eq_some pairwise_map sum_cons mem_dedup nodup_singleton mem_flatMap)

export Option (some.inj map_some map_eq_some_iff bind_eq_some_iff isSome_iff_exists
  ne_none_iff_exists' some.injEq filter_eq_some_iff getD_some any_some some_ne_none map_none bind_some
  isNone_iff_eq_none)

export Bool (and_eq_true false_ne_true not_eq_true' or_eq_true or_eq_true_iff eq_false_iff)

export Except (ok.inj)

export Function (update_self update_of_ne)

end SlogaBackend
