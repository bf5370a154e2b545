import Mathlib
import SlogaBackend.Lib.Collection
import SlogaBackend.Lib.Processes
import SlogaBackend.Mls.Reference

/-!
# Call commits on the MongoDB driver

The MongoDB driver settles a Call commit without a transaction. `insertMlsCommit`
repairs and reads the group, inserts the commit row, and only then moves the group
document, so that a second submitter, a reader or a close may fall between any two
of these. The functions are therefore programs of single database calls here, in
the order of the source, and a call is what is atomic.

The group and the commit row are written by filters of their own. The group
document moves by `applyEffects` alone, an `update_one` that is conditioned on the
epoch before the commit's and on the group being an open Call group.

A driver error ends the function with a database error, before or after the call
took effect. It is a crash of the process here: the function answers nothing that
anything is promised about.

Each commit document also remembers the process whose `insert_one` stored it. No
call reads this field, it is what "authored" means.
-/

namespace SlogaBackend.Mls

/-- A commit id determines the group and the epoch: the epoch is printed after the
last colon. -/
theorem MlsCommit.compositeId_inj {groupId groupId' : String} {epoch epoch' : Int}
    (h : MlsCommit.compositeId groupId epoch = MlsCommit.compositeId groupId' epoch') :
    groupId = groupId' ∧ epoch = epoch' := by
  obtain ⟨hgr, hep⟩ := joinColon_inj_last (colon_notMem_repr epoch) (colon_notMem_repr epoch') h
  exact ⟨hgr, Int.repr_injective hep⟩

namespace Mongo

open Checks

/-! ## The store -/

/-- A document of `mls_commits`: the row, the storage-level kind marker, and the
process that inserted it. -/
structure CommitDocument where
  row : MlsCommit
  kind : Option MlsGroupKind
  writer : Nat

def CommitDocument.id (document : CommitDocument) : String := document.row.id

/-- The collections the Call commit path touches. -/
structure CallStore where
  mlsGroups : Collection MlsGroup.id
  mlsCommits : Collection CommitDocument.id
  mlsJoinIntents : Collection MlsJoinIntent.id

/-- `kind_filter`: a Call lookup also matches a document with no `kind` field. -/
def kindFilter (kind : MlsGroupKind) (stored : Option MlsGroupKind) : Bool :=
  match kind with
  | .call => stored ≠ some .text
  | .text => stored = some .text

/-! ## The calls -/

/-- The database calls, with what their filters and updates depend on. -/
inductive Call where
  /-- `find_one` on `mls_groups` by `_id` -/
  | findGroup (id : String)
  /-- `find_one` on `mls_commits` by `_id`, and by kind when one is given -/
  | findCommit (id : String) (kind : Option MlsGroupKind)
  /-- `insert_one` on `mls_commits` -/
  | insertCommit (commit : MlsCommit)
  /-- the conditioned `update_one` of `current_epoch` and `members` -/
  | applyEffects (groupId : String) (epoch : Int) (members : List MlsMemberDevice)
  /-- the `update_one` that closes an open Call group -/
  | closeGroup (groupId : String) (now : Timestamp)
  /-- `delete_many` on `mls_join_intents` by `_id` -/
  | deleteIntents (ids : List String)

/-- What a call answers: the document found, whether an insert was not a duplicate,
whether an update matched. -/
def Call.Answer : Call → Type
  | .findGroup _ => Option MlsGroup
  | .findCommit _ _ => Option MlsCommit
  | .insertCommit _ => Bool
  | .applyEffects _ _ _ => Bool
  | .closeGroup _ _ => Bool
  | .deleteIntents _ => Unit

/-- The field-level update of an applied commit. -/
def setEffects (epoch : Int) (members : List MlsMemberDevice) (group : MlsGroup) : MlsGroup :=
  { group with currentEpoch := epoch, members := members }

/-- The field-level update of a close. -/
def setClosed (now : Timestamp) (group : MlsGroup) : MlsGroup :=
  { group with open_ := false, closedAt := some now }

/-- An open Call group at the epoch before `epoch`. -/
def awaits (epoch : Int) (group : MlsGroup) : Bool :=
  group.currentEpoch = epoch - 1 && group.open_ && kindFilter .call (some group.kind)

def isOpenCall (group : MlsGroup) : Bool := group.open_ && kindFilter .call (some group.kind)

/-- One call, made by process `pid`. -/
def perform (pid : Nat) : (call : Call) → CallStore → CallStore × call.Answer
  | .findGroup id, s => (s, s.mlsGroups.findOne id)
  | .findCommit id kind, s =>
    (s, ((s.mlsCommits.findOne id).filter fun document =>
      kind.all fun kind => kindFilter kind document.kind).map CommitDocument.row)
  | .insertCommit commit, s =>
    match s.mlsCommits.insertOne ⟨commit, none, pid⟩ with
    | some mlsCommits => ({ s with mlsCommits }, true)
    | none => (s, false)
  | .applyEffects groupId epoch members, s =>
    let (mlsGroups, matched) := s.mlsGroups.updateOne groupId (awaits epoch)
      (setEffects epoch members) (fun _ => rfl)
    ({ s with mlsGroups }, matched)
  | .closeGroup groupId now, s =>
    let (mlsGroups, matched) := s.mlsGroups.updateOne groupId isOpenCall (setClosed now)
      (fun _ => rfl)
    ({ s with mlsGroups }, matched)
  | .deleteIntents ids, s => ({ s with mlsJoinIntents := s.mlsJoinIntents.deleteMany ids }, ())

section Perform

variable (pid : Nat) (s : CallStore) (id key : String)

theorem findOne_applyEffects (epoch : Int) (members : List MlsMemberDevice) :
    (perform pid (.applyEffects id epoch members) s).1.mlsGroups.findOne key =
      if key = id then (s.mlsGroups.findOne key).map fun group =>
        if awaits epoch group then setEffects epoch members group else group
      else s.mlsGroups.findOne key :=
  s.mlsGroups.findOne_updateOne id key (awaits epoch) (setEffects epoch members) fun _ => rfl

theorem findOne_closeGroup (now : Timestamp) :
    (perform pid (.closeGroup id now) s).1.mlsGroups.findOne key =
      if key = id then (s.mlsGroups.findOne key).map fun group =>
        if isOpenCall group then setClosed now group else group
      else s.mlsGroups.findOne key :=
  s.mlsGroups.findOne_updateOne id key isOpenCall (setClosed now) fun _ => rfl

theorem perform_insertCommit (commit : MlsCommit) :
    (perform pid (.insertCommit commit) s = (s, false) ∧
      ∃ document, s.mlsCommits.findOne commit.id = some document) ∨
    ∃ mlsCommits, perform pid (.insertCommit commit) s = ({ s with mlsCommits }, true) ∧
      s.mlsCommits.findOne commit.id = none ∧ ∀ key, mlsCommits.findOne key =
        if key = commit.id then some ⟨commit, none, pid⟩ else s.mlsCommits.findOne key := by
  cases hins : s.mlsCommits.insertOne ⟨commit, none, pid⟩ with
  | none =>
    refine .inl ⟨?_, Collection.insertOne_eq_none.mp hins⟩
    simp only [perform, hins]
    rfl
  | some mlsCommits =>
    obtain ⟨hfr, hfn⟩ := Collection.insertOne_eq_some hins
    refine .inr ⟨mlsCommits, ?_, hfr, hfn⟩
    simp only [perform, hins]
    rfl

end Perform

/-! ## The functions -/

/-- A function of the driver. -/
abbrev Program := Prog Error Call Call.Answer

def findGroup (id : String) : Program (Option MlsGroup) := op (Call.findGroup id)

def findCommit (id : String) (kind : Option MlsGroupKind) : Program (Option MlsCommit) :=
  op (Call.findCommit id kind)

def insertCommit (commit : MlsCommit) : Program Bool := op (Call.insertCommit commit)

def applyEffects (groupId : String) (epoch : Int) (members : List MlsMemberDevice) :
    Program Bool := op (Call.applyEffects groupId epoch members)

def closeGroup (groupId : String) (now : Timestamp) : Program Bool :=
  op (Call.closeGroup groupId now)

def deleteIntents (ids : List String) : Program Unit := op (Call.deleteIntents ids)

/-- `apply_mls_commit_effects`: move the group document, from the roster that was read,
and consume the intents of the devices admitted. -/
def applyMlsCommitEffects (group : MlsGroup) (commit : MlsCommit) : Program Bool := do
  let applied ← applyEffects group.id commit.epoch
    (applyDelta group.members commit.added commit.removed)
  if applied && !commit.added.isEmpty then
    deleteIntents (commit.added.map fun added =>
      MlsJoinIntent.compositeId group.id added.userId added.deviceId)
    return applied
  else
    return applied

/-- `fetch_mls_group_repaired`: read the group, and first apply every stored commit it
has not absorbed, for so many rounds. -/
def fetchMlsGroupRepaired (groupId : String) : Nat → Program MlsGroup
  | 0 => Prog.done (.error (.databaseError "repair_loop" "mls_groups"))
  | rounds + 1 => do
    let found ← findGroup groupId
    let group ← check (okOr found .notFound)
    if group.kind ≠ .call then
      return group
    else
      let next ← findCommit (MlsCommit.compositeId groupId (group.currentEpoch + 1)) none
      match next with
      | some commit =>
        if group.open_ = true then
          let _ ← applyMlsCommitEffects group commit
          fetchMlsGroupRepaired groupId rounds
        else
          return group
      | none => return group

def fetchMlsGroup (groupId : String) : Program MlsGroup := fetchMlsGroupRepaired groupId 64

/-- `close_mls_group`; `now` is the clock read inside. -/
def closeMlsGroup (groupId : String) (now : Timestamp) : Program Bool := do
  let matched ← closeGroup groupId now
  if matched then
    return true
  else
    let found ← findGroup groupId
    let group ← check (okOr found .notFound)
    check (refuseIf (group.kind ≠ .call) .invalidOperation)
    return false

/-- What `insert_mls_commit` checks of the group before it looks at epochs. -/
def checkCommitter (group : MlsGroup) (commit : MlsCommit) : Result Unit := do
  refuseIf (group.kind ≠ .call) .invalidOperation
  refuseIf (group.open_ = false) (failed "group is closed")
  refuseIf (group.hasMember commit.committer.userId commit.committer.deviceId = false) .notFound

def checkNextCommit (group : MlsGroup) (commit : MlsCommit) : Result Unit := do
  refuseIf (commit.epoch ≠ group.currentEpoch + 1)
    (failed "commit epoch must be exactly current_epoch + 1")
  ReferenceDb.checkCallAdds group commit.added
  ReferenceDb.checkCallCeiling group commit

/-- A stale commit: the answer is the winner of its epoch. -/
def answerStale (commit : MlsCommit) : Program MlsCommitOutcome := do
  let found ← findCommit (MlsCommit.compositeId commit.groupId commit.epoch) (some .call)
  let winning ← check (okOr found .notFound)
  return .lost winning

/-- The insert of the row: the winner applies its own effects, a loser those of the
winner. -/
def arbitrate (group : MlsGroup) (commit : MlsCommit) : Program MlsCommitOutcome := do
  let inserted ← insertCommit commit
  if inserted then
    let _ ← applyMlsCommitEffects group commit
    return .won
  else
    let found ← findCommit commit.id (some .call)
    let winning ← check (okOr found .notFound)
    let _ ← applyMlsCommitEffects group winning
    return .lost winning

def insertMlsCommit (commit : MlsCommit) : Program MlsCommitOutcome := do
  let group ← fetchMlsGroupRepaired commit.groupId 64
  check (checkCommitter group commit)
  if commit.epoch ≤ group.currentEpoch then
    answerStale commit
  else
    check (checkNextCommit group commit)
    arbitrate group commit

/-! ## Requests -/

/-- What a process may be asked to do. -/
inductive Request where
  | fetchMlsGroup (groupId : String)
  | closeMlsGroup (groupId : String) (now : Timestamp)
  | insertMlsCommit (commit : MlsCommit)
  deriving DecidableEq

/-- What it answers. -/
inductive Reply where
  | group (group : MlsGroup)
  | closed (changed : Bool)
  | commit (outcome : MlsCommitOutcome)
  deriving DecidableEq

/-- The program of a request. -/
def body : Request → Program Reply
  | .fetchMlsGroup groupId => do
    let group ← fetchMlsGroup groupId
    return .group group
  | .closeMlsGroup groupId now => do
    let changed ← closeMlsGroup groupId now
    return .closed changed
  | .insertMlsCommit commit => do
    let outcome ← insertMlsCommit commit
    return .commit outcome

/-- The submit route builds a commit with the composite id of its group and epoch. -/
def Admissible : Request → Prop
  | .insertMlsCommit commit => commit.id = MlsCommit.compositeId commit.groupId commit.epoch
  | _ => True

/-- The driver's processes over one store. -/
abbrev CallSystem := System CallStore Request Error Call Call.Answer Reply

end Mongo
end SlogaBackend.Mls
