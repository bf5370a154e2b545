import SlogaBackend.Lib.Table

/-!
# Collections of documents

A collection keeps its documents under a key that each document carries itself,
the `_id` of a document store. That the two agree is a field of the structure, so
a document found under a key has that key, and an insert that finds its key taken
is the duplicate-key refusal of the unique index.

The operations are the single-document calls of such a store, each atomic.
-/

namespace SlogaBackend

/-- A table of documents that carry their own key. -/
structure Collection {κ V : Type*} [DecidableEq κ] (key : V → κ) where
  rows : Table κ V
  keyed : ∀ k v, rows.get k = some v → key v = k

namespace Collection

variable {κ V : Type*} [DecidableEq κ] {key : V → κ}

instance [DecidableEq V] : DecidableEq (Collection key) := fun c c' =>
  decidable_of_iff (c.rows = c'.rows) ⟨fun h => by cases c; cases c'; cases h; rfl, fun h => h ▸ rfl⟩

def empty : Collection key := ⟨∅, nofun⟩

def findOne (c : Collection key) (k : κ) : Option V := c.rows.get k

variable {c : Collection key} {v : V}

theorem key_of_findOne {k : κ} (h : c.findOne k = some v) : key v = k := c.keyed k v h

/-- `insert_one`: `none` when the key is taken. -/
def insertOne (c : Collection key) (v : V) : Option (Collection key) :=
  if c.findOne (key v) = none then
    some ⟨c.rows.insert (key v) v, fun k w h => by
      rw [get_insert] at h
      split at h
      · rename_i heq
        rw [← some.inj h, heq]
      · exact c.keyed k w h⟩
  else none

/-- `replace_one` with `upsert`: the document stands under its key, whatever stood there. -/
def put (c : Collection key) (v : V) : Collection key :=
  ⟨c.rows.insert (key v) v, forall_insert (P := fun k w => key w = k) c.keyed rfl⟩

section

variable (c : Collection key)

theorem findOne_put (v : V) (k : κ) :
    (c.put v).findOne k = if k = key v then some v else c.findOne k := get_insert _ _ _ _

/-- `update_one` by the key and a filter: the new collection, and whether the filter
matched. -/
def updateOne (c : Collection key) (k : κ) (filter : V → Bool) (update : V → V)
    (hkey : ∀ v, key (update v) = key v) : Collection key × Bool :=
  (⟨c.rows.modify k fun v => if filter v then update v else v, fun k' w h => by
    rw [get_modify] at h
    split at h
    · obtain ⟨v, hv, rfl⟩ := map_eq_some_iff.mp h
      have hold := c.keyed k' v hv
      split
      · rw [hkey, hold]
      · exact hold
    · exact c.keyed k' w h⟩, (c.findOne k).any filter)

def deleteOne (c : Collection key) (k : κ) : Collection key :=
  ⟨c.rows.erase k, Table.forall_erase (P := fun k w => key w = k) c.keyed⟩

theorem findOne_deleteOne (k k' : κ) :
    (c.deleteOne k).findOne k' = if k' = k then none else c.findOne k' := get_erase _ _ _

def deleteMany (c : Collection key) (keys : List κ) : Collection key :=
  ⟨c.rows.eraseAll keys, fun k v h => by
    rw [get_eraseAll] at h
    split at h
    · cases h
    · exact c.keyed k v h⟩

/-- `update_many`: every document the filter matches. -/
def updateMany (c : Collection key) (filter : V → Bool) (update : V → V)
    (hkey : ∀ v, key (update v) = key v) : Collection key :=
  ⟨c.rows.mapValues fun v => if filter v then update v else v, fun k w h => by
    rw [get_mapValues] at h
    obtain ⟨v, hv, rfl⟩ := map_eq_some_iff.mp h
    split
    · rw [hkey, c.keyed k v hv]
    · exact c.keyed k v hv⟩

theorem findOne_updateMany (filter : V → Bool) (update : V → V)
    (hkey : ∀ v, key (update v) = key v) (k : κ) : (c.updateMany filter update hkey).findOne k =
      (c.findOne k).map fun v => if filter v then update v else v := get_mapValues _ _ _

end

theorem insertOne_eq_none : c.insertOne v = none ↔ ∃ w, c.findOne (key v) = some w := by
  unfold insertOne
  rw [← ne_none_iff_exists']
  split <;> simp_all

theorem insertOne_eq_some {c' : Collection key} (h : c.insertOne v = some c') :
    c.findOne (key v) = none ∧ ∀ k, c'.findOne k = if k = key v then some v else c.findOne k := by
  unfold insertOne at h
  split at h
  · rename_i hfr
    refine ⟨hfr, fun k => ?_⟩
    rw [← some.inj h]
    exact get_insert _ _ _ _
  · cases h

theorem findOne_updateOne (c : Collection key) (k k' : κ) (filter : V → Bool) (update : V → V)
    (hkey : ∀ v, key (update v) = key v) : (c.updateOne k filter update hkey).1.findOne k' =
      if k' = k then (c.findOne k').map fun v => if filter v then update v else v
      else c.findOne k' := get_modify _ _ _ _

end Collection

export Collection (key_of_findOne)

end SlogaBackend
