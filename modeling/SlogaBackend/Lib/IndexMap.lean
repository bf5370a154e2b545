import Mathlib.Data.List.Basic

/-!
# Maps that keep the order of insertion

A map whose entries stand in the order their keys were first inserted. A new value for a
key that is there already takes the old one's place, a new key goes to the end, and a key
that is removed lets the later ones move up.

The order is what `first` reads. Everything else is read through `get`, and `get_insert`
and `get_shiftRemove` say all there is to say of it.
-/

namespace SlogaBackend

/-- The entries, the oldest first. -/
abbrev IndexMap (κ V : Type*) := List (κ × V)

namespace IndexMap

variable {κ V : Type*} [DecidableEq κ]

/-- The value at a key. -/
def get (m : IndexMap κ V) (k : κ) : Option V := (m.find? fun entry => entry.1 = k).map Prod.snd

/-- Put a value at a key: in the place of the old one, or at the end. -/
def insert (m : IndexMap κ V) (k : κ) (v : V) : IndexMap κ V :=
  if (m.get k).isSome then m.map fun entry => if entry.1 = k then (k, v) else entry
  else m ++ [(k, v)]

/-- Take a key out and let the later ones move up. -/
def shiftRemove (m : IndexMap κ V) (k : κ) : IndexMap κ V := m.filter fun entry => entry.1 ≠ k

/-- The key that has been there longest. -/
def firstKey (m : IndexMap κ V) : Option κ := m.head?.map Prod.fst

@[simp] theorem get_nil (k : κ) : get ([] : IndexMap κ V) k = none := rfl

theorem get_cons (entry : κ × V) (m : IndexMap κ V) (k : κ) :
    get (entry :: m) k = if entry.1 = k then some entry.2 else get m k := by
  unfold get
  rw [List.find?_cons]
  split_ifs with h
  · rw [decide_eq_true h]
    rfl
  · rw [decide_eq_false h]

theorem get_append (m m' : IndexMap κ V) (k : κ) : get (m ++ m') k = (get m k).or (get m' k) := by
  unfold get
  rw [List.find?_append, Option.map_or]

section

variable (m : IndexMap κ V) (k k' : κ)

theorem get_replace (v : V) : get (m.map fun entry => if entry.1 = k then (k, v) else entry) k' =
      if k' = k then (get m k).map fun _ => v else get m k' := by
  induction m with
  | nil => simp
  | cons entry m ih =>
    rw [List.map_cons, get_cons, ih, get_cons, get_cons]
    by_cases hent : entry.1 = k
    · rw [if_pos hent, if_pos hent]
      by_cases hk : k = k'
      · rw [if_pos hk, if_pos hk.symm]
        rfl
      · rw [if_neg hk, if_neg (Ne.symm hk), if_neg (fun h => hk (hent.symm.trans h)),
          if_neg (Ne.symm hk)]
    · rw [if_neg hent, if_neg hent]
      by_cases hk : k' = k
      · rw [if_pos hk, if_neg (fun h => hent (h.trans hk)), if_pos hk]
      · rw [if_neg hk, if_neg hk]

theorem get_insert (v : V) : (insert m k v).get k' = if k' = k then some v else get m k' := by
  unfold insert
  split_ifs with hsm hk hk
  · rw [get_replace, if_pos hk]
    obtain ⟨old, hold⟩ := Option.isSome_iff_exists.mp hsm
    rw [hold]
    rfl
  · rw [get_replace, if_neg hk]
  · subst hk
    rw [get_append, Option.not_isSome_iff_eq_none.mp hsm, Option.none_or, get_cons, if_pos rfl]
  · rw [get_append, get_cons, if_neg (Ne.symm hk), get_nil, Option.or_none]

theorem get_shiftRemove : (shiftRemove m k).get k' = if k' = k then none else get m k' := by
  induction m with
  | nil => simp [shiftRemove]
  | cons entry m ih =>
    unfold shiftRemove at ih ⊢
    by_cases hent : entry.1 = k
    · rw [List.filter_cons_of_neg (by simpa using hent), ih, get_cons]
      split_ifs with hk hk'
      · rfl
      · exact absurd (hk'.symm.trans hent) hk
      · rfl
    · rw [List.filter_cons_of_pos (by simpa using hent), get_cons, ih, get_cons]
      split_ifs with hk hk'
      · exact absurd (hk.trans hk') hent
      · rfl
      · rfl
      · rfl

end

theorem eq_nil_of_get {m : IndexMap κ V} (h : ∀ k, get m k = none) : m = [] := by
  cases m with
  | nil => rfl
  | cons entry m =>
    have hent := h entry.1
    rw [get_cons, if_pos rfl] at hent
    cases hent

end IndexMap
end SlogaBackend
