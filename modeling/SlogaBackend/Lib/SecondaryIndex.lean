import Mathlib.Data.Set.Basic
import SlogaBackend.Lib.Table

/-!
# Secondary indexes

A table that has a row for each member of a set, under a key of the member and with a value of it.
Two members under one key would need one row, so a member is found under its key if nobody else has
it.

* `Indexes.insert`: a row for a new member, under a free key.
* `Indexes.erase`: a member goes, if it alone has its key.

A set of names may lag behind: it has those of the members that need one, and a name that no member
may have is one that somebody is about to remove (`Lagging`).
-/

namespace SlogaBackend

section Indexes

variable {κ V G : Type*} [DecidableEq κ] {t : Table κ V} {key : G → κ} {value : G → V}
  {members : Set G} {g : G}

/-- The rows of the table are those of the members. -/
def Indexes (t : Table κ V) (key : G → κ) (value : G → V) (members : Set G) : Prop :=
  ∀ k v, t.get k = some v ↔ ∃ g ∈ members, key g = k ∧ value g = v

theorem indexes_empty : Indexes (∅ : Table κ V) key value ∅ := by
  intro k v
  simp

section

variable (h : Indexes t key value members)
include h

theorem Indexes.get (hg : g ∈ members) :
    t.get (key g) = some (value g) := (h _ _).mpr ⟨g, hg, rfl, rfl⟩

theorem Indexes.insert (hfr : t.get (key g) = none) :
    Indexes (t.insert (key g) (value g)) key value (insert g members) := by
  intro k v
  rw [get_insert]
  split_ifs with hk
  · subst hk
    constructor
    · exact fun heq => ⟨g, Set.mem_insert .., rfl, some.inj heq⟩
    · rintro ⟨g', hg' | hg', hkey, rfl⟩
      · rw [hg']
      · have hget := h.get hg'
        rw [hkey, hfr] at hget
        cases hget
  · rw [h]
    constructor
    · rintro ⟨g', hg', hkey⟩
      exact ⟨g', Set.mem_insert_of_mem _ hg', hkey⟩
    · rintro ⟨g', hg' | hg', hkey, hval⟩
      · exact absurd (hkey.symm.trans (congrArg key hg')) hk
      · exact ⟨g', hg', hkey, hval⟩

theorem Indexes.erase (halo : ∀ g' ∈ members, key g' = key g → g' = g) :
    Indexes (t.erase (key g)) key value (members \ {g}) := by
  intro k v
  rw [get_erase]
  split_ifs with hk
  · subst hk
    refine ⟨nofun, ?_⟩
    rintro ⟨g', ⟨hg', hne⟩, hkey, -⟩
    exact absurd (halo g' hg' hkey) hne
  · rw [h]
    constructor
    · rintro ⟨g', hg', rfl, rfl⟩
      exact ⟨g', ⟨hg', fun heq => hk (congrArg key heq)⟩, rfl, rfl⟩
    · rintro ⟨g', ⟨hg', -⟩, hkey⟩
      exact ⟨g', hg', hkey⟩

end

/-- The keys that have a row. -/
def Table.domain (t : Table κ V) : Set κ := {k | (t.get k).isSome}

theorem Table.domain_insert (k : κ) (v : V) : (t.insert k v).domain = Insert.insert k t.domain := by
  ext k'
  show ((t.insert k v).get k').isSome ↔ k' = k ∨ (t.get k').isSome
  rw [get_insert]
  split_ifs with hk <;> simp [hk]

theorem Table.domain_erase (k : κ) : (t.erase k).domain = t.domain \ {k} := by
  ext k'
  show ((t.erase k).get k').isSome ↔ (t.get k').isSome ∧ k' ≠ k
  rw [get_erase]
  split_ifs with hk <;> simp [hk]

end Indexes

/-! ## Sets of names -/

variable {K G : Type*} {names : Set K} {name : G → K} {needed allowed : Set G}
  {removing removing' : K → Prop} {g : G} {k : K}

structure Lagging (names : Set K) (name : G → K) (needed allowed : Set G)
    (removing : K → Prop) : Prop where
  held : ∀ g ∈ needed, name g ∈ names
  listed : ∀ k ∈ names, (∃ g ∈ allowed, name g = k) ∨ removing k

namespace Lagging

section

variable (h : Lagging names name needed allowed removing)
include h

theorem join :
    Lagging (insert (name g) names) name (insert g needed) (insert g allowed) removing where
  held g' := fun
    | .inl heq => .inl (congrArg name heq)
    | .inr hg' => .inr (h.held g' hg')
  listed k' := fun
    | .inl heq => .inl ⟨g, .inl rfl, heq.symm⟩
    | .inr hk' => (h.listed k' hk').imp_left fun ⟨g', hg', hnm⟩ => ⟨g', .inr hg', hnm⟩

theorem add (hk : (∃ g ∈ allowed, name g = k) ∨ removing k) :
    Lagging (insert k names) name needed allowed removing where
  held g hg := .inr (h.held g hg)
  listed k' := fun
    | .inl heq => heq ▸ hk
    | .inr hk' => h.listed k' hk'

theorem drop (hneed : ∀ g ∈ needed, name g ≠ k) :
    Lagging (names \ {k}) name needed allowed removing where
  held g hg := ⟨h.held g hg, hneed g hg⟩
  listed k' hk' := h.listed k' hk'.1

theorem leave (hneed : ∀ g' ∈ needed, name g' ≠ name g) :
    Lagging (names \ {name g}) name needed (allowed \ {g}) removing where
  held g' hg' := ⟨h.held g' hg', hneed g' hg'⟩
  listed k hk := (h.listed k hk.1).imp_left fun ⟨g', hg', hnm⟩ =>
    ⟨g', ⟨hg', fun heq => hk.2 (hnm.symm.trans (congrArg name heq))⟩, hnm⟩

theorem forsake (hrem : ∀ k, removing k ∨ k = name g → removing' k) :
    Lagging names name (needed \ {g}) (allowed \ {g}) removing' where
  held g' hg' := h.held g' hg'.1
  listed k hk := by
    rcases h.listed k hk with ⟨g', hg', rfl⟩ | hr
    · by_cases heq : g' = g
      · exact .inr (hrem _ (.inr (congrArg name heq)))
      · exact .inl ⟨g', ⟨hg', heq⟩, rfl⟩
    · exact .inr (hrem k (.inl hr))

theorem mono {needed' : Set G}
    (hnee : needed' ⊆ needed) (hrem : ∀ k ∈ names, removing k → removing' k) :
    Lagging names name needed' allowed removing' :=
  ⟨fun g hg => h.held g (hnee hg), fun k hk => (h.listed k hk).imp_right (hrem k hk)⟩

end

end Lagging
end SlogaBackend
