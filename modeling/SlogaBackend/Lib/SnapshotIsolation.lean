import SlogaBackend.Lib.Table
import SlogaBackend.Lib.Runs

/-!
# Snapshot isolation

A transaction reads the store as it was when the transaction began, and its writes
are installed together when it commits. Two rules keep a commit out.

* *First committer wins.* Nobody may have committed a write, since the transaction
  began, to a document it writes.
* *Unique indexes.* The store it would leave has to satisfy them.

Nothing is said about documents a transaction only reads. That is what snapshot
isolation allows and what goes wrong with it: two transactions may each read what the
other writes, and both commit.

## What is provided

A transaction stages its writes, one collection at a time, in a `Staged` table: the
rows as the transaction sees them, and the keys it has written. A touch writes a
document without changing it. `Staged.Sound` says that the keys written cover
everything that changed, and each operation keeps it.

`Framed` is what a snapshot is good for at a later time: the documents nobody has
written since are as they were. So when a commit lands, every document it wrote is
the one it read (`Landing.read_snapshot`). Two transactions with a common written
document are thereby ordered, and a touch is how a document that is only read is made
common.

`Database.holds_of_run` is the invariant rule. It asks what has to hold between a
snapshot and the committed store, of every transaction in flight, while others land.
-/

namespace SlogaBackend

/-! ## Staged writes to one collection -/

/-- A collection as a transaction sees it, and the keys the transaction has written. -/
structure Staged (κ V : Type*) where
  rows : Table κ V
  written : List κ

namespace Staged

variable {κ V : Type*}

/-- Nothing written yet. -/
def of (t : Table κ V) : Staged κ V := ⟨t, []⟩

/-- Write documents without changing them. -/
def touch (s : Staged κ V) (keys : List κ) : Staged κ V := { s with written := keys ++ s.written }

/-- Touch the documents a filter matches. -/
def touchWhere (s : Staged κ V) (p : V → Bool) : Staged κ V := s.touch (s.rows.keysWhere p)

theorem touch_touch (s : Staged κ V) (keys keys' : List κ) :
    (s.touch keys).touch keys' = s.touch (keys' ++ keys) := by
  simp [Staged.touch]

variable [DecidableEq κ]

/-- Store a document. -/
def put (s : Staged κ V) (k : κ) (v : V) : Staged κ V := ⟨s.rows.insert k v, k :: s.written⟩

/-- Store documents, each under its own key. -/
def putAll (s : Staged κ V) (key : V → κ) (rows : List V) : Staged κ V :=
  ⟨s.rows.insertAll key rows, rows.map key ++ s.written⟩

/-- Store a new document; `none` when the key is taken. -/
def insertOne (s : Staged κ V) (k : κ) (v : V) : Option (Staged κ V) :=
  if s.rows.get k = none then some (s.put k v) else none

/-- Rewrite the document at a key; `none` when the filter does not match it. -/
def updateOne (s : Staged κ V) (k : κ) (p : V → Bool) (f : V → V) : Option (Staged κ V) :=
  ((s.rows.get k).filter p).map fun v => s.put k (f v)

/-- Touch the document at a key; `none` when the filter does not match it. -/
def touchOne (s : Staged κ V) (k : κ) (p : V → Bool) : Option (Staged κ V) :=
  ((s.rows.get k).filter p).map fun _ => s.touch [k]

/-- Rewrite the documents a filter matches. -/
def updateWhere (s : Staged κ V) (p : V → Bool) (f : V → V) : Staged κ V :=
  ⟨s.rows.mapValues fun v => if p v then f v else v, s.rows.keysWhere p ++ s.written⟩

/-- Delete the documents a filter matches. -/
def deleteWhere (s : Staged κ V) (p : V → Bool) : Staged κ V :=
  ⟨s.rows.retain fun _ v => !p v, s.rows.keysWhere p ++ s.written⟩

/-- Delete the document at a key, if the filter matches it. -/
def deleteOne (s : Staged κ V) (k : κ) (p : V → Bool) : Staged κ V :=
  if (s.rows.get k).any p then ⟨s.rows.erase k, k :: s.written⟩ else s

/-- Everything that changed was written. -/
def Sound (base : Table κ V) (s : Staged κ V) : Prop :=
  ∀ k, k ∉ s.written → s.rows.get k = base.get k

variable {base : Table κ V} {s s' : Staged κ V}

theorem insertOne_eq_some {k : κ} {v : V} (h : s.insertOne k v = some s') :
    s.rows.get k = none ∧ s' = s.put k v := by
  unfold insertOne at h
  split at h
  · rename_i hfre
    exact ⟨hfre, (some.inj h).symm⟩
  · cases h

variable {p : V → Bool}

theorem updateOne_eq_some {k : κ} {f : V → V} (h : s.updateOne k p f = some s') :
    ∃ v, s.rows.get k = some v ∧ p v = true ∧ s' = s.put k (f v) := by
  obtain ⟨v, hv, rfl⟩ := map_eq_some_iff.mp h
  obtain ⟨hg, hp⟩ := filter_eq_some_iff.mp hv
  exact ⟨v, hg, hp, rfl⟩

theorem touchOne_eq_some {k : κ} (h : s.touchOne k p = some s') :
    ∃ v, s.rows.get k = some v ∧ p v = true ∧ s' = s.touch [k] := by
  obtain ⟨v, hv, rfl⟩ := map_eq_some_iff.mp h
  obtain ⟨hg, hp⟩ := filter_eq_some_iff.mp hv
  exact ⟨v, hg, hp, rfl⟩

theorem sound_of (base : Table κ V) : (of base).Sound base := fun _ _ => rfl

section

variable (h : s.Sound base)
include h

theorem Sound.touch (keys : List κ) : (s.touch keys).Sound base :=
  fun k hk => h k fun hmem => hk (mem_append_right _ hmem)

theorem Sound.touchWhere (p : V → Bool) : (s.touchWhere p).Sound base := h.touch _

theorem Sound.put (k : κ) (v : V) : (s.put k v).Sound base := by
  intro k' hk'
  have hne : k' ≠ k := fun heq => hk' (heq ▸ mem_cons_self)
  rw [Staged.put, get_insert, if_neg hne]
  exact h k' fun hmem => hk' (mem_cons_of_mem _ hmem)

theorem Sound.putAll (key : V → κ) (rows : List V) : (s.putAll key rows).Sound base := by
  intro k hk
  have hne : ∀ row ∈ rows, key row ≠ k := fun row hrow heq =>
    hk (mem_append_left _ (heq ▸ mem_map_of_mem hrow))
  rw [Staged.putAll, Table.get_insertAll_of_notMem hne]
  exact h k fun hmem => hk (mem_append_right _ hmem)

theorem Sound.updateWhere (p : V → Bool) (f : V → V) : (s.updateWhere p f).Sound base := by
  intro k hk
  have hold := h k fun hmem => hk (mem_append_right _ hmem)
  have hout : k ∉ s.rows.keysWhere p := fun hmem => hk (mem_append_left _ hmem)
  rw [Staged.updateWhere, get_mapValues, ← hold]
  cases hg : s.rows.get k with
  | none => rfl
  | some v =>
    have hp : p v ≠ true := fun hp => hout (Table.mem_keysWhere.mpr ⟨v, hg, hp⟩)
    rw [map_some, if_neg hp]

theorem Sound.deleteWhere (p : V → Bool) : (s.deleteWhere p).Sound base := by
  intro k hk
  have hold := h k fun hmem => hk (mem_append_right _ hmem)
  have hout : k ∉ s.rows.keysWhere p := fun hmem => hk (mem_append_left _ hmem)
  rw [Staged.deleteWhere, get_retain, ← hold]
  cases hg : s.rows.get k with
  | none => rfl
  | some v =>
    have hp : p v ≠ true := fun hp => hout (Table.mem_keysWhere.mpr ⟨v, hg, hp⟩)
    simp [hp]

theorem Sound.deleteOne (k : κ) (p : V → Bool) : (s.deleteOne k p).Sound base := by
  unfold Staged.deleteOne
  split
  · intro k' hk'
    have hne : k' ≠ k := fun heq => hk' (heq ▸ mem_cons_self)
    rw [get_erase, if_neg hne]
    exact h k' fun hmem => hk' (mem_cons_of_mem _ hmem)
  · exact h

end

/-- The committed rows around a commit, for one collection: what was written had not moved
since the snapshot and is now as staged, the rest is as it was. -/
def Lands (snapshot : Table κ V) (s : Staged κ V) (before after : Table κ V) : Prop :=
  ∀ k, (after.get k = before.get k ∧ s.rows.get k = snapshot.get k ∧ k ∉ s.written) ∨
    (k ∈ s.written ∧ before.get k = snapshot.get k ∧ after.get k = s.rows.get k)

namespace Lands

variable {snapshot before after : Table κ V}

section

variable (h : s.Lands snapshot before after)
include h

variable {k : κ}

theorem before_of_mem (hk : k ∈ s.written) : before.get k = snapshot.get k := by
  rcases h k with ⟨-, -, hout⟩ | ⟨-, hbef, -⟩
  · exact absurd hk hout
  · exact hbef

theorem after_of_mem (hk : k ∈ s.written) : after.get k = s.rows.get k := by
  rcases h k with ⟨-, -, hout⟩ | ⟨-, -, haft⟩
  · exact absurd hk hout
  · exact haft

theorem get_eq (hsm : s.rows.get k = snapshot.get k) : after.get k = before.get k := by
  rcases h k with ⟨hkp, -⟩ | ⟨-, hbef, haft⟩
  · exact hkp
  · rw [haft, hsm, hbef]

theorem get_changed (hchan : s.rows.get k ≠ snapshot.get k) :
    k ∈ s.written ∧ before.get k = snapshot.get k ∧ after.get k = s.rows.get k := by
  rcases h k with ⟨-, hsm, -⟩ | hwr
  · exact absurd hsm hchan
  · exact hwr

theorem get_cases (k : κ) : after.get k = before.get k ∨
      (before.get k = snapshot.get k ∧ after.get k = s.rows.get k) := by
  rcases h k with ⟨hkp, -⟩ | ⟨-, hbef, haft⟩
  · exact .inl hkp
  · exact .inr ⟨hbef, haft⟩

end

end Lands

end Staged

/-! ## Transactions -/

/-- A store of documents: how one is read, and how the documents at some keys are taken
over from another store. -/
structure DocumentStore (σ κ : Type) [DecidableEq κ] (Doc : κ → Type) where
  read : (k : κ) → σ → Option (Doc k)
  install : List κ → σ → σ → σ
  read_install : ∀ keys view base k,
    read k (install keys view base) = if k ∈ keys then read k view else read k base

/-- A transaction in flight: its request, the store when it began, and the documents
others have written since. -/
structure Transaction (σ κ ρ : Type) where
  request : ρ
  snapshot : σ
  since : List κ

/-- The committed store, the transactions in flight, and the requests that have
committed, the last one first. -/
structure Database (σ κ ρ : Type) where
  committed : σ
  active : Table Nat (Transaction σ κ ρ)
  log : List ρ

/-- Others have written some documents. -/
def Transaction.overtaken {σ κ ρ : Type} (keys : List κ) (txn : Transaction σ κ ρ) :
    Transaction σ κ ρ := { txn with since := keys ++ txn.since }

/-- What can happen next. -/
inductive TxnEvent (ρ : Type) where
  | begin (id : Nat) (request : ρ)
  | commit (id : Nat)
  | abort (id : Nat)

/-- What became of it. -/
inductive Verdict (ε α : Type) where
  | begun
  | refused (error : ε)
  | conflict
  | committed (answer : α)
  | aborted
  | ignored

namespace Database

variable {σ κ ρ ε α : Type} [DecidableEq κ] {Doc : κ → Type}

/-- A store nobody works on yet. -/
def idle (s : σ) : Database σ κ ρ := ⟨s, ∅, []⟩

variable (store : DocumentStore σ κ Doc) (attempt : ρ → σ → Except ε ((σ × List κ) × α))
  (unique : σ → Bool)

/-- Try to commit a transaction that has run to its end on its snapshot. -/
def land (db : Database σ κ ρ) (id : Nat) (txn : Transaction σ κ ρ) (view : σ) (keys : List κ)
    (answer : α) : Database σ κ ρ × Verdict ε α :=
  if keys.any fun k => txn.since.contains k then
    ({ db with active := db.active.erase id }, .conflict)
  else if unique (store.install keys view db.committed) then
    ({ committed := store.install keys view db.committed
       active := (db.active.erase id).mapValues (Transaction.overtaken keys)
       log := txn.request :: db.log }, .committed answer)
  else ({ db with active := db.active.erase id }, .conflict)

/-- One event. The transaction's own work is a function of its snapshot, so it is done
when it commits. -/
def exec (db : Database σ κ ρ) : TxnEvent ρ → Database σ κ ρ × Verdict ε α
  | .begin id request =>
    match db.active.get id with
    | some _ => (db, .ignored)
    | none => ({ db with active := db.active.insert id ⟨request, db.committed, []⟩ }, .begun)
  | .commit id =>
    match db.active.get id with
    | none => (db, .ignored)
    | some txn =>
      match attempt txn.request txn.snapshot with
      | .error error => ({ db with active := db.active.erase id }, .refused error)
      | .ok ((view, keys), answer) => db.land store unique id txn view keys answer
  | .abort id => ({ db with active := db.active.erase id }, .aborted)

variable {store attempt unique}

section Commit

variable {db : Database σ κ ρ} {id : Nat} {txn : Transaction σ κ ρ} {view : σ} {keys : List κ}
  {answer : α}

section

variable (hg : db.active.get id = some txn)
  (hatt : attempt txn.request txn.snapshot = .ok ((view, keys), answer))
include hg hatt

theorem exec_commit_fresh (hfr : ∀ k ∈ keys, k ∉ txn.since)
    (huni : unique (store.install keys view db.committed) = true) :
    (exec store attempt unique db (.commit id)).1 =
      { committed := store.install keys view db.committed
        active := (db.active.erase id).mapValues (Transaction.overtaken keys)
        log := txn.request :: db.log } := by
  have hno : ¬ keys.any fun k => txn.since.contains k := by simpa using hfr
  simp only [exec, hg, hatt, land]
  rw [if_neg hno, if_pos huni]

/-- A commit with a document somebody else has written is undone. -/
theorem exec_commit_conflict {k : κ} (hk : k ∈ keys) (hsin : k ∈ txn.since) :
    (exec store attempt unique db (.commit id)).1 = { db with active := db.active.erase id } := by
  have hany : keys.any fun k => txn.since.contains k := any_eq_true.mpr ⟨k, hk, by simpa using hsin⟩
  simp only [exec, hg, hatt, land]
  rw [if_pos hany]

end

end Commit

/-- A snapshot against a later store: the documents nobody has written since are as they
were. -/
def Framed (store : DocumentStore σ κ Doc) (txn : Transaction σ κ ρ) (s : σ) : Prop :=
  ∀ k, k ∉ txn.since → store.read k txn.snapshot = store.read k s

/-- A commit that lands, over the committed stores before and after it. -/
structure Landing (store : DocumentStore σ κ Doc)
    (attempt : ρ → σ → Except ε ((σ × List κ) × α)) (unique : σ → Bool)
    (txn : Transaction σ κ ρ) (view : σ) (keys : List κ) (answer : α) (s t : σ) : Prop where
  attempted : attempt txn.request txn.snapshot = .ok ((view, keys), answer)
  fresh : ∀ k ∈ keys, k ∉ txn.since
  installed : t = store.install keys view s
  indexed : unique t = true

namespace Landing

variable {txn : Transaction σ κ ρ} {view s t : σ} {keys : List κ} {answer : α}

section

variable (h : Landing store attempt unique txn view keys answer s t)
include h

/-- **First committer wins.** What a commit wrote, it had read. -/
theorem read_snapshot (hfram : Framed store txn s) {k : κ} (hk : k ∈ keys) :
    store.read k txn.snapshot = store.read k s := hfram k (h.fresh k hk)

theorem read_of_mem {k : κ} (hk : k ∈ keys) : store.read k t = store.read k view := by
  rw [h.installed, store.read_install, if_pos hk]

theorem read_of_notMem {k : κ} (hk : k ∉ keys) : store.read k t = store.read k s := by
  rw [h.installed, store.read_install, if_neg hk]

/-- Another snapshot, after the commit. -/
theorem framed_overtaken {other : Transaction σ κ ρ} (hfram : Framed store other s) :
    Framed store (other.overtaken keys) t := by
  intro k hk
  have hout : k ∉ keys := fun hmem => hk (mem_append_left _ hmem)
  rw [h.read_of_notMem hout]
  exact hfram k fun hmem => hk (mem_append_right _ hmem)

end

end Landing

/-! ## The invariant rule -/

/-- A property of the committed store with its log, and one between every snapshot in
flight and the committed store. -/
structure Holds (store : DocumentStore σ κ Doc) (Good : List ρ → σ → Prop)
    (Rel : Transaction σ κ ρ → σ → Prop) (db : Database σ κ ρ) : Prop where
  good : Good db.log db.committed
  framed : ∀ id txn, db.active.get id = some txn → Framed store txn db.committed
  rel : ∀ id txn, db.active.get id = some txn → Rel txn db.committed

variable {Good : List ρ → σ → Prop} {Rel : Transaction σ κ ρ → σ → Prop}

theorem holds_idle {s : σ} (h : Good [] s) : Holds store Good Rel (idle s : Database σ κ ρ) :=
  ⟨h, fun _ _ hg => absurd hg (by simp [idle]), fun _ _ hg => absurd hg (by simp [idle])⟩

theorem get_of_get_erase {V : Type} {t : Table Nat V} {id id' : Nat} {v : V}
    (h : (t.erase id).get id' = some v) : t.get id' = some v := by
  rw [get_erase] at h
  split at h
  · cases h
  · exact h

variable {db : Database σ κ ρ} {admits : Database σ κ ρ → TxnEvent ρ → Prop}

theorem Holds.dropped (h : Holds store Good Rel db) (id : Nat) :
    Holds store Good Rel { db with active := db.active.erase id } :=
  ⟨h.good, fun id' txn hg => h.framed id' txn (get_of_get_erase hg),
    fun id' txn hg => h.rel id' txn (get_of_get_erase hg)⟩

/-- What a commit that lands has to keep, for the committed store and for every other
snapshot in flight. -/
def KeptByLanding (store : DocumentStore σ κ Doc)
    (attempt : ρ → σ → Except ε ((σ × List κ) × α)) (unique : σ → Bool)
    (Good : List ρ → σ → Prop) (Rel : Transaction σ κ ρ → σ → Prop) : Prop :=
  ∀ {txn : Transaction σ κ ρ} {view : σ} {keys : List κ} {answer : α} {log : List ρ} {s t : σ},
    Landing store attempt unique txn view keys answer s t → Framed store txn s →
    Good log s → Rel txn s →
    Good (txn.request :: log) t ∧ ∀ other : Transaction σ κ ρ, Framed store other s →
      Rel other s → Rel (other.overtaken keys) t

section

variable
  (hbeg : ∀ db id request, admits db (.begin id request) → Good db.log db.committed → Rel ⟨request, db.committed, []⟩ db.committed)
  (hln : KeptByLanding store attempt unique Good Rel)
include hbeg hln

/-- **One event.** -/
theorem holds_exec {event : TxnEvent ρ} (hadm : admits db event) (h : Holds store Good Rel db) :
    Holds store Good Rel (exec store attempt unique db event).1 := by
  cases event with
  | begin id request =>
    simp only [exec]
    split
    · exact h
    · have hnew : ∀ id' txn, (db.active.insert id ⟨request, db.committed, []⟩).get id' = some txn →
          txn = ⟨request, db.committed, []⟩ ∨ db.active.get id' = some txn := by
        intro id' txn hg
        rw [get_insert] at hg
        split at hg
        · exact .inl (some.inj hg).symm
        · exact .inr hg
      refine ⟨h.good, fun id' txn hg => ?_, fun id' txn hg => ?_⟩
      · rcases hnew id' txn hg with rfl | hold
        · exact fun _ _ => rfl
        · exact h.framed id' txn hold
      · rcases hnew id' txn hg with rfl | hold
        · exact hbeg db id request hadm h.good
        · exact h.rel id' txn hold
  | abort id => exact h.dropped id
  | commit id =>
    simp only [exec]
    split
    · exact h
    · rename_i txn hg
      split
      · exact h.dropped id
      · rename_i view keys answer hatt
        unfold land
        split
        · exact h.dropped id
        · rename_i hfr
          split
          · rename_i huni
            have hlan : Landing store attempt unique txn view keys answer db.committed
                (store.install keys view db.committed) := by
              refine ⟨hatt, fun k hk hsin => hfr ?_, rfl, huni⟩
              exact any_eq_true.mpr ⟨k, hk, by simpa using hsin⟩
            obtain ⟨hgd, hrel⟩ := hln hlan (h.framed id txn hg) h.good (h.rel id txn hg)
            have hoth : ∀ id' txn',
                ((db.active.erase id).mapValues (Transaction.overtaken keys)).get id' = some txn' →
                ∃ other, db.active.get id' = some other ∧ txn' = other.overtaken keys := by
              intro id' txn' hg'
              rw [get_mapValues, map_eq_some_iff] at hg'
              obtain ⟨other, hoth, rfl⟩ := hg'
              exact ⟨other, get_of_get_erase hoth, rfl⟩
            refine ⟨hgd, fun id' txn' hg' => ?_, fun id' txn' hg' => ?_⟩
            · obtain ⟨other, hold, rfl⟩ := hoth id' txn' hg'
              exact hlan.framed_overtaken (h.framed id' other hold)
            · obtain ⟨other, hold, rfl⟩ := hoth id' txn' hg'
              exact hrel other (h.framed id' other hold) (h.rel id' other hold)
          · exact h.dropped id

/-- **Whole interleavings.** -/
theorem holds_of_run {s : σ} (hs : Good [] s) {h : List (Database σ κ ρ × TxnEvent ρ)}
    (hrun : Run (exec store attempt unique) admits (idle s) h db) : Holds store Good Rel db :=
  hrun.invariant (P := Holds store Good Rel)
    (fun _ _ hadm hhld => holds_exec hbeg hln hadm hhld) (holds_idle hs)

end

variable (store attempt unique) in
theorem exec_committed (db : Database σ κ ρ) (event : TxnEvent ρ) :
    (exec store attempt unique db event).1.committed = db.committed ∨
      ∃ id txn view keys answer, db.active.get id = some txn ∧
        Landing store attempt unique txn view keys answer db.committed
          (exec store attempt unique db event).1.committed := by
  cases event with
  | begin id request =>
    refine .inl ?_
    simp only [exec]
    split <;> rfl
  | abort id => exact .inl rfl
  | commit id =>
    cases hg : db.active.get id with
    | none => exact .inl (by simp [exec, hg])
    | some txn =>
      cases hatt : attempt txn.request txn.snapshot with
      | error error => exact .inl (by simp [exec, hg, hatt])
      | ok staged =>
        obtain ⟨⟨view, keys⟩, answer⟩ := staged
        simp only [exec, hg, hatt, land]
        split
        · exact .inl rfl
        · rename_i hfr
          split
          · rename_i huni
            refine .inr ⟨id, txn, view, keys, answer, hg, hatt, ?_, rfl, huni⟩
            intro k hk hsin
            exact hfr (any_eq_true.mpr ⟨k, hk, by simpa using hsin⟩)
          · exact .inl rfl

end Database
end SlogaBackend
