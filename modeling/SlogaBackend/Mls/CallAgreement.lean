import SlogaBackend.Lib.EpochLog
import SlogaBackend.Mls.CallCommits

/-!
# Agreement on Call commits under races and crashes

Any number of processes run the programs of `Mls.CallCommits` over one store, each
may stop between two of its database calls, and the calls interleave in any order.
What they do to one Call group is nevertheless an epoch log: the commit rows are the
entries, the roster is the value, and every call either leaves both alone, appends
the row of an epoch the group has reached, or applies the next row to the roster.

The delicate call is the group update. It writes a roster computed from an earlier
read, so it can be right only because of what the read established for good: the
roster read at an epoch is what the rows up to that epoch determine, and rows never
change. When the update matches, the group stands at that very epoch, so the roster
that is overwritten is the roster that was read.

`View` reads the epoch log off the store, `Guarantee` says that a call is a step of
it, and the proofs below give each program its specification in these terms.
-/

namespace SlogaBackend.Mls
namespace Mongo

open Checks Relation

/-! ## The epoch log of a group -/

/-- The roster after one more commit row. -/
def applyRow (members : List MlsMemberDevice) (document : CommitDocument) : List MlsMemberDevice :=
  applyDelta members document.row.added document.row.removed

abbrev CallLog := EpochLog CommitDocument (List MlsMemberDevice)

/-- `View groupId s a`: in the store `s` the group and its rows are the epoch log `a`,
and every document about the group is one of these rows. -/
structure View (groupId : String) (s : CallStore) (a : CallLog) : Prop where
  group : ∃ group, s.mlsGroups.findOne groupId = some group ∧ group.kind = .call ∧
    group.currentEpoch = a.current ∧ group.members = a.value
  log : ∀ n : Nat, s.mlsCommits.findOne (MlsCommit.compositeId groupId n) = a.log n
  rows : ∀ key document, s.mlsCommits.findOne key = some document →
    (document.row.groupId = groupId ∨ ∃ epoch, key = MlsCommit.compositeId groupId epoch) →
      document.row.groupId = groupId ∧ key = MlsCommit.compositeId groupId document.row.epoch ∧
        1 ≤ document.row.epoch ∧ document.kind = none

/-- The group and its rows agree. -/
def Agreed (groupId : String) (roster : List MlsMemberDevice) (s : CallStore) : Prop :=
  ∃ a, View groupId s a ∧ EpochLog.Wf applyRow roster a

/-- What every call does to the group and its rows: a step of the log, or nothing. -/
def Guarantee (groupId : String) (s t : CallStore) : Prop :=
  ∀ a, View groupId s a → ∃ b, View groupId t b ∧ (b = a ∨ EpochLog.Step applyRow a b)

/-- What a process knows about the log. -/
def Knows (groupId : String) (fact : CallLog → Prop) (s : CallStore) : Prop :=
  ∃ a, View groupId s a ∧ fact a

variable {groupId : String} {roster : List MlsMemberDevice} {s t : CallStore} {a b : CallLog}
  {pid : Nat}

/-- The log is determined by the store. -/
theorem View.unique (ha : View groupId s a) (hb : View groupId s b) : a = b := by
  obtain ⟨group, hg, -, hep, hmbs⟩ := ha.group
  obtain ⟨group', hg', -, hep', hmbs'⟩ := hb.group
  have hlog : a.log = b.log := by
    funext n
    rw [← ha.log, ← hb.log]
  cases a
  simp_all

variable {document : CommitDocument} {epoch : Int}

theorem View.entry (hvw : View groupId s a)
    (hfn : s.mlsCommits.findOne (MlsCommit.compositeId groupId epoch) = some document) :
    document.row.epoch = epoch ∧ document.row.groupId = groupId ∧ document.kind = none ∧
      ∃ n : Nat, epoch = n + 1 ∧ a.log (n + 1) = some document := by
  obtain ⟨hgr, hkey, hone, hkn⟩ := hvw.rows _ _ hfn (.inr ⟨epoch, rfl⟩)
  obtain ⟨-, hep⟩ := MlsCommit.compositeId_inj hkey
  obtain ⟨n, hn⟩ : ∃ n : Nat, epoch = n + 1 := ⟨(epoch - 1).toNat, by omega⟩
  refine ⟨hep.symm, hgr, hkn, n, hn, ?_⟩
  rw [← hvw.log, ← hfn, hn]
  rfl

theorem View.frame (hvw : View groupId s a) (hcomm : t.mlsCommits = s.mlsCommits)
    (hgr : ∀ group, s.mlsGroups.findOne groupId = some group →
      ∃ group', t.mlsGroups.findOne groupId = some group' ∧ group'.kind = group.kind ∧
        group'.currentEpoch = group.currentEpoch ∧ group'.members = group.members) :
    View groupId t a := by
  obtain ⟨group, hg, hkn, hep, hmbs⟩ := hvw.group
  obtain ⟨group', hg', hkn', hep', hmbs'⟩ := hgr group hg
  refine ⟨⟨group', hg', hkn'.trans hkn, hep'.trans hep, hmbs'.trans hmbs⟩, ?_, ?_⟩
  · rw [hcomm]
    exact hvw.log
  · rw [hcomm]
    exact hvw.rows

/-- What the calls of the others leave true. -/
abbrev Lasts (groupId : String) (roster : List MlsMemberDevice) (K : CallStore → Prop) : Prop :=
  Stable (Agreed groupId roster) (Guarantee groupId) K

theorem agreed_stable : Lasts groupId roster (Agreed groupId roster) := by
  rintro s t - hst ⟨a, hvw, hwf⟩
  obtain ⟨b, hvw', rfl | hlog⟩ := hst a hvw
  · exact ⟨b, hvw', hwf⟩
  · exact ⟨b, hvw', hlog.wf hwf⟩

/-- Facts the steps of the log keep are kept by the processes. -/
theorem knows_stable {fact : CallLog → Prop}
    (hfc : ∀ a b, EpochLog.Step applyRow a b → fact a → fact b) :
    Lasts groupId roster (Knows groupId fact) := by
  rintro s t - hst ⟨a, hvw, ha⟩
  obtain ⟨b, hvw', rfl | hlog⟩ := hst a hvw
  · exact ⟨b, hvw', ha⟩
  · exact ⟨b, hvw', hfc a b hlog ha⟩

theorem stable_imp {p : Prop} {K : CallStore → Prop}
    (hK : Lasts groupId roster K) : Lasts groupId roster (fun s => p → K s) :=
  fun s t hI hst h hp => hK s t hI hst (h hp)

theorem stable_and {K L : CallStore → Prop}
    (hK : Lasts groupId roster K) (hL : Lasts groupId roster L) :
    Lasts groupId roster (fun s => K s ∧ L s) :=
  fun s t hI hst h => ⟨hK s t hI hst h.1, hL s t hI hst h.2⟩

theorem stable_true : Lasts groupId roster (fun _ => True) := fun _ _ _ _ _ => trivial

/-! ## The calls are steps of the log -/

theorem Guarantee.refl (s : CallStore) : Guarantee groupId s s := fun a hvw => ⟨a, hvw, .inl rfl⟩

theorem Guarantee.frame (hcomm : t.mlsCommits = s.mlsCommits)
    (hgr : ∀ group, s.mlsGroups.findOne groupId = some group →
      ∃ group', t.mlsGroups.findOne groupId = some group' ∧ group'.kind = group.kind ∧
        group'.currentEpoch = group.currentEpoch ∧ group'.members = group.members) :
    Guarantee groupId s t :=
  fun a hvw => ⟨a, hvw.frame hcomm hgr, .inl rfl⟩

theorem guarantee_deleteIntents (pid : Nat) (ids : List String) :
    Guarantee groupId s (perform pid (.deleteIntents ids) s).1 :=
  .frame rfl fun group hg => ⟨group, hg, rfl, rfl, rfl⟩

theorem guarantee_closeGroup (pid : Nat) (id : String) (now : Timestamp) :
    Guarantee groupId s (perform pid (.closeGroup id now) s).1 := by
  refine .frame rfl fun group hg => ?_
  rw [findOne_closeGroup]
  split
  · rw [hg]
    refine ⟨_, rfl, ?_⟩
    dsimp only
    split
    · exact ⟨rfl, rfl, rfl⟩
    · exact ⟨rfl, rfl, rfl⟩
  · exact ⟨group, hg, rfl, rfl, rfl⟩

/-- What a read of the group at an epoch established: the roster read is what the rows up
to that epoch determine, and the group has reached the epoch. -/
def ReadAt (roster : List MlsMemberDevice) (n : Nat) (members : List MlsMemberDevice)
    (a : CallLog) : Prop :=
  n ≤ a.current ∧ EpochLog.replay applyRow roster a.log n = some members

theorem readAt_step {n : Nat} {members : List MlsMemberDevice} (a b : CallLog)
    (hst : EpochLog.Step applyRow a b) (h : ReadAt roster n members a) :
    ReadAt roster n members b :=
  ⟨h.1.trans hst.current_le, hst.replay h.2⟩

/-- What a process knows of a group document it has read. -/
def HasRead (groupId : String) (roster : List MlsMemberDevice) (group : MlsGroup)
    (s : CallStore) : Prop :=
  group.id = groupId → group.kind = .call ∧ ∃ n : Nat, group.currentEpoch = n ∧
    Knows groupId (ReadAt roster n group.members) s

/-- What a process knows of a row it has found or inserted. -/
def HasRow (groupId : String) (epoch : Int) (document : CommitDocument) (s : CallStore) : Prop :=
  ∃ n : Nat, epoch = n + 1 ∧ Knows groupId (fun a => a.log (n + 1) = some document) s

theorem hasRead_stable (group : MlsGroup) :
    Lasts groupId roster (HasRead groupId roster group) := by
  intro s t hI hst h hid
  obtain ⟨hkn, n, hn, hknow⟩ := h hid
  exact ⟨hkn, n, hn, knows_stable readAt_step s t hI hst hknow⟩

theorem hasRow_stable (epoch : Int) (document : CommitDocument) :
    Lasts groupId roster (HasRow groupId epoch document) := by
  rintro s t hI hst ⟨n, hn, hknow⟩
  exact ⟨n, hn, knows_stable (fun a b hlog h => hlog.entry h) s t hI hst hknow⟩

theorem HasRow.find (h : HasRow groupId epoch document s) :
    s.mlsCommits.findOne (MlsCommit.compositeId groupId epoch) = some document := by
  obtain ⟨n, rfl, a, hvw, hlog⟩ := h
  rw [← hlog, ← hvw.log]
  rfl

theorem hasRow_of_find (hI : Agreed groupId roster s)
    (hfn : s.mlsCommits.findOne (MlsCommit.compositeId groupId epoch) = some document) :
    document.row.epoch = epoch ∧ document.kind = none ∧ HasRow groupId epoch document s := by
  obtain ⟨a, hvw, -⟩ := hI
  obtain ⟨hep, -, hkn, n, hn, hlog⟩ := hvw.entry hfn
  exact ⟨hep, hkn, n, hn, a, hvw, hlog⟩

theorem hasRead_of_find (hI : Agreed groupId roster s) {id : String} {group : MlsGroup}
    (hfn : s.mlsGroups.findOne id = some group) : HasRead groupId roster group s := by
  intro hid
  have hkey : group.id = id := key_of_findOne hfn
  obtain ⟨a, hvw, hwf⟩ := hI
  obtain ⟨group', hg, hkn, hep, hmbs⟩ := hvw.group
  obtain rfl : group = group' := by
    rw [← hkey, hid] at hfn
    exact some.inj (hfn.symm.trans hg)
  refine ⟨hkn, a.current, hep, a, hvw, Nat.le_refl _, ?_⟩
  rw [hmbs]
  exact hwf.replayed

/-- **The group update.** A match means that the group still stands at the epoch that was
read, so the roster written is the next one. -/
theorem guarantee_applyEffects (pid : Nat) (hI : Agreed groupId roster s) {group : MlsGroup}
    (hrd : HasRead groupId roster group s)
    (hrow : group.id = groupId → document.row.epoch = group.currentEpoch + 1 ∧
      HasRow groupId document.row.epoch document s) :
    Guarantee groupId s (perform pid (.applyEffects group.id document.row.epoch
      (applyDelta group.members document.row.added document.row.removed)) s).1 := by
  by_cases hid : group.id = groupId
  · obtain ⟨-, n, hn, hknow⟩ := hrd hid
    obtain ⟨hnx, n', hn', hent⟩ := hrow hid
    obtain rfl : n = n' := by omega
    intro a hvw
    obtain ⟨a1, hvw1, -, hrep⟩ := hknow
    obtain ⟨a2, hvw2, hlog⟩ := hent
    obtain ⟨a3, hvw3, hwf⟩ := hI
    obtain rfl := hvw1.unique hvw
    obtain rfl := hvw2.unique hvw
    obtain rfl := hvw3.unique hvw
    obtain ⟨stored, hg, hkn, hep, hmbs⟩ := hvw.group
    by_cases hmat : awaits document.row.epoch stored = true
    · -- the filter pins the epoch, and the epoch pins the roster
      have hcur : a3.current = n := by
        simp only [awaits, Bool.and_eq_true, decide_eq_true_eq] at hmat
        omega
      have hros : a3.value = group.members := by
        have h := hwf.replayed
        rw [hcur, hrep] at h
        exact (some.inj h).symm
      refine ⟨{ a3 with current := a3.current + 1, value := applyRow a3.value document }, ⟨?_, ?_, ?_⟩,
        .inr (.advance (by rw [hcur]; exact hlog))⟩
      · refine ⟨setEffects document.row.epoch
          (applyDelta group.members document.row.added document.row.removed) stored, ?_, hkn, ?_, ?_⟩
        · rw [findOne_applyEffects, if_pos hid.symm, hg, map_some, if_pos hmat]
        · show document.row.epoch = ((a3.current + 1 : Nat) : Int)
          omega
        · show applyDelta group.members document.row.added document.row.removed = _
          rw [← hros]
          rfl
      · exact hvw.log
      · exact hvw.rows
    · refine ⟨a3, hvw.frame rfl fun group' hg' => ?_, .inl rfl⟩
      cases hg.symm.trans hg'
      refine ⟨stored, ?_, rfl, rfl, rfl⟩
      rw [findOne_applyEffects, if_pos hid.symm, hg, map_some, if_neg hmat]
  · refine .frame rfl fun stored hg => ⟨stored, ?_, rfl, rfl, rfl⟩
    rw [findOne_applyEffects, if_neg (Ne.symm hid)]
    exact hg

/-- **The insert of a row.** The row of the group's next epoch is appended, or found
taken. -/
theorem guarantee_insertCommit (pid : Nat) {commit : MlsCommit}
    (hcom : commit.id = MlsCommit.compositeId commit.groupId commit.epoch)
    (hnx : commit.groupId = groupId →
      ∃ n : Nat, commit.epoch = n + 1 ∧ Knows groupId (fun a => n ≤ a.current) s) :
    Guarantee groupId s (perform pid (.insertCommit commit) s).1 := by
  rcases perform_insertCommit pid s commit with ⟨heq, -⟩ | ⟨mlsCommits, heq, hfr, hfn⟩
  · rw [heq]
    exact .refl s
  · rw [heq]
    intro a hvw
    by_cases hgr : commit.groupId = groupId
    · obtain ⟨n, hn, a', hvw', hle⟩ := hnx hgr
      obtain rfl := hvw'.unique hvw
      rw [hgr] at hcom
      have hkey : ∀ m : Nat, MlsCommit.compositeId groupId m = commit.id ↔ m = n + 1 := by
        intro m
        rw [hcom]
        constructor
        · intro h
          have hep := (MlsCommit.compositeId_inj h).2
          omega
        · rintro rfl
          rw [hn]
          rfl
      refine ⟨{ a' with log := Function.update a'.log (n + 1) (some ⟨commit, none, pid⟩) },
        ⟨hvw.group, fun m => ?_, fun key document hdoc habo => ?_⟩,
        .inr (.append hle ?_)⟩
      · show mlsCommits.findOne _ = Function.update a'.log (n + 1) _ m
        rw [hfn]
        by_cases hm : m = n + 1
        · rw [if_pos ((hkey m).mpr hm), hm, Function.update_self]
        · rw [if_neg fun h => hm ((hkey m).mp h), Function.update_of_ne hm]
          exact hvw.log m
      · have hdoc' := (hfn key).symm.trans hdoc
        split at hdoc'
        · rename_i hown
          rw [← some.inj hdoc']
          exact ⟨hgr, hown.trans hcom, by show 1 ≤ commit.epoch; omega, rfl⟩
        · exact hvw.rows key document hdoc' habo
      · rw [← hvw.log, (hkey (n + 1)).mpr rfl]
        exact hfr
    · -- the row of another group has another id
      have hoth : ∀ epoch, MlsCommit.compositeId groupId epoch ≠ commit.id := by
        intro epoch h
        exact hgr (MlsCommit.compositeId_inj (h.trans hcom)).1.symm
      refine ⟨a, ⟨hvw.group, fun m => ?_, fun key document hdoc habo => ?_⟩, .inl rfl⟩
      · show mlsCommits.findOne _ = _
        rw [hfn, if_neg (hoth m)]
        exact hvw.log m
      · have hdoc' := (hfn key).symm.trans hdoc
        split at hdoc'
        · rename_i hown
          rw [← some.inj hdoc'] at habo
          rcases habo with h | ⟨epoch, h⟩
          · exact absurd h hgr
          · exact absurd (h.symm.trans hown) (hoth epoch)
        · exact hvw.rows key document hdoc' habo

/-! ## The programs -/

abbrev SafeFor (groupId : String) (roster : List MlsMemberDevice) (pid : Nat) {α : Type}
    (post : CallStore → Except Error α → Prop) (p : Program α) (s : CallStore) : Prop :=
  p.Safe perform (Agreed groupId roster) (Guarantee groupId) pid post s

section Calls

variable {α : Type} {post : CallStore → Except Error α → Prop} {K : CallStore → Prop}

section

variable (hK : Lasts groupId roster K)
  (hI : Agreed groupId roster s) (hs : K s) {id : String}
include hK hI hs

theorem safe_findGroup {k : Option MlsGroup → Program α} (hrs : ∀ t, Agreed groupId roster t → K t →
      SafeFor groupId roster pid post (k (t.mlsGroups.findOne id)) t) :
    SafeFor groupId roster pid post (findGroup id >>= k) s :=
  Prog.Safe.op_bind agreed_stable hK hI hs fun t hI' ht => ⟨.refl t, hrs t hI' ht⟩

theorem safe_findCommit {kind : Option MlsGroupKind} {k : Option MlsCommit → Program α}
    (hno : ∀ t, Agreed groupId roster t → K t → SafeFor groupId roster pid post (k none) t)
    (hso : ∀ t document, Agreed groupId roster t → K t → t.mlsCommits.findOne id = some document →
      SafeFor groupId roster pid post (k (some document.row)) t) :
    SafeFor groupId roster pid post (findCommit id kind >>= k) s := by
  refine Prog.Safe.op_bind agreed_stable hK hI hs fun t hI' ht => ⟨.refl t, ?_⟩
  show SafeFor groupId roster pid post (k (((t.mlsCommits.findOne id).filter fun document =>
    kind.all fun kind => kindFilter kind document.kind).map CommitDocument.row)) t
  cases hfn : (t.mlsCommits.findOne id).filter fun document =>
      kind.all fun kind => kindFilter kind document.kind with
  | none => exact hno t hI' ht
  | some document => exact hso t document hI' ht (Option.filter_eq_some_iff.mp hfn).1

end

variable {k : Bool → Program α}

theorem safe_applyEffects {group : MlsGroup} {document : CommitDocument}
    (hI : Agreed groupId roster s) (hrd : HasRead groupId roster group s)
    (hrow : group.id = groupId → document.row.epoch = group.currentEpoch + 1 ∧
      HasRow groupId document.row.epoch document s)
    (hrs : ∀ t matched, Agreed groupId roster t → SafeFor groupId roster pid post (k matched) t) :
    SafeFor groupId roster pid post (applyEffects group.id document.row.epoch
      (applyDelta group.members document.row.added document.row.removed) >>= k) s := by
  refine Prog.Safe.op_bind agreed_stable
    (K := fun s => HasRead groupId roster group s ∧ (group.id = groupId →
      document.row.epoch = group.currentEpoch + 1 ∧ HasRow groupId document.row.epoch document s))
    ?_ hI ⟨hrd, hrow⟩ fun t hI' ht => ?_
  · refine stable_and (hasRead_stable group) fun s t hI hst h hid => ?_
    exact ⟨(h hid).1, hasRow_stable _ _ s t hI hst (h hid).2⟩
  · have hst := guarantee_applyEffects pid hI' ht.1 ht.2
    exact ⟨hst, hrs _ _ (agreed_stable _ _ hI' hst hI')⟩

theorem safe_deleteIntents (hI : Agreed groupId roster s) {ids : List String} {k : Unit → Program α}
    (hrs : ∀ t, Agreed groupId roster t → SafeFor groupId roster pid post (k ()) t) :
    SafeFor groupId roster pid post (deleteIntents ids >>= k) s :=
  Prog.Safe.op_bind agreed_stable stable_true hI trivial fun _ hI' _ =>
    ⟨guarantee_deleteIntents pid ids,
      hrs _ (agreed_stable _ _ hI' (guarantee_deleteIntents pid ids) hI')⟩

theorem safe_closeGroup (hI : Agreed groupId roster s) {id : String} {now : Timestamp}
    (hrs : ∀ t matched, Agreed groupId roster t → SafeFor groupId roster pid post (k matched) t) :
    SafeFor groupId roster pid post (closeGroup id now >>= k) s :=
  Prog.Safe.op_bind agreed_stable stable_true hI trivial fun _ hI' _ =>
    ⟨guarantee_closeGroup pid id now,
      hrs _ _ (agreed_stable _ _ hI' (guarantee_closeGroup pid id now) hI')⟩

theorem safe_insertCommit (hK : Lasts groupId roster K)
    (hI : Agreed groupId roster s) (hs : K s) {commit : MlsCommit}
    (hcom : commit.id = MlsCommit.compositeId commit.groupId commit.epoch)
    (hnx : ∀ t, K t → commit.groupId = groupId →
      ∃ n : Nat, commit.epoch = n + 1 ∧ Knows groupId (fun a => n ≤ a.current) t)
    (hwon : ∀ t, Agreed groupId roster t → K t →
      (commit.groupId = groupId → HasRow groupId commit.epoch ⟨commit, none, pid⟩ t) →
      SafeFor groupId roster pid post (k true) t)
    (hls : ∀ t, Agreed groupId roster t → K t → SafeFor groupId roster pid post (k false) t) :
    SafeFor groupId roster pid post (insertCommit commit >>= k) s := by
  refine Prog.Safe.op_bind agreed_stable hK hI hs fun t hI' ht => ?_
  have hst := guarantee_insertCommit pid hcom (hnx t ht)
  have haft := agreed_stable _ _ hI' hst hI'
  have hkp := hK _ _ hI' hst ht
  refine ⟨hst, ?_⟩
  rcases perform_insertCommit pid t commit with ⟨heq, -⟩ | ⟨mlsCommits, heq, -, hfn⟩
  · rw [heq] at haft hkp ⊢
    exact hls t haft hkp
  · rw [heq] at haft hkp ⊢
    refine hwon _ haft hkp fun hgr => ?_
    refine (hasRow_of_find haft ?_).2.2
    rw [hfn, hcom, hgr, if_pos rfl]

end Calls

variable {group : MlsGroup} {commit : MlsCommit}

theorem safe_applyMlsCommitEffects (document : CommitDocument) (hI : Agreed groupId roster s)
    (hrd : HasRead groupId roster group s)
    (hrow : group.id = groupId → document.row.epoch = group.currentEpoch + 1 ∧
      HasRow groupId document.row.epoch document s) :
    SafeFor groupId roster pid (fun _ _ => True) (applyMlsCommitEffects group document.row) s := by
  refine safe_applyEffects hI hrd hrow fun t matched hI' => ?_
  split
  · exact safe_deleteIntents hI' fun _ _ => trivial
  · exact trivial

/-- A successful read of the group document `id`. -/
def ReadPost (groupId : String) (roster : List MlsMemberDevice) (id : String) (s : CallStore)
    (r : Except Error MlsGroup) : Prop :=
  ∀ group, r = .ok group → group.id = id ∧ HasRead groupId roster group s

theorem safe_fetchMlsGroupRepaired (id : String) (rounds : Nat) :
    ∀ {s : CallStore}, Agreed groupId roster s →
      SafeFor groupId roster pid (ReadPost groupId roster id)
        (fetchMlsGroupRepaired id rounds) s := by
  induction rounds with
  | zero =>
    intro s _ group h
    cases h
  | succ rounds ih =>
    intro s hI
    refine safe_findGroup stable_true hI trivial fun s1 hI1 _ => ?_
    refine Prog.Safe.check (fun group hfnd => ?_) fun e he group h => absurd h (by simp)
    have hg : s1.mlsGroups.findOne id = some group := okOr_eq_ok.mp hfnd
    have hid : group.id = id := key_of_findOne hg
    have hrd := hasRead_of_find hI1 hg
    have hretu : ∀ t, HasRead groupId roster group t →
        SafeFor groupId roster pid (ReadPost groupId roster id) (pure group) t := by
      rintro t ht group' h
      cases h
      exact ⟨hid, ht⟩
    split
    · exact hretu s1 hrd
    · refine safe_findCommit (hasRead_stable group) hI1 hrd (fun t _ ht => hretu t ht)
        fun t document hI2 ht hfn => ?_
      dsimp only
      split
      · have happ : SafeFor groupId roster pid (fun _ _ => True)
            (applyMlsCommitEffects group document.row) t := by
          refine safe_applyMlsCommitEffects document hI2 ht fun hown => ?_
          rw [← hid, hown] at hfn
          obtain ⟨hep, -, hrow⟩ := hasRow_of_find hI2 hfn
          exact ⟨hep, hep.symm ▸ hrow⟩
        exact Safe.bind agreed_stable (fun t' _ hI3 _ => ih hI3)
          (fun t' e _ _ group h => absurd h (by simp)) hI2 happ
      · exact hretu t ht

/-- What an answer to a commit submission says about the row of its epoch. -/
def CommitPost (groupId : String) (pid : Nat) (commit : MlsCommit) (s : CallStore) :
    Except Error MlsCommitOutcome → Prop
  | .ok .won => commit.groupId = groupId → HasRow groupId commit.epoch ⟨commit, none, pid⟩ s
  | .ok (.lost winning) => commit.groupId = groupId →
    ∃ document, document.row = winning ∧ HasRow groupId commit.epoch document s
  | .error _ => True

theorem safe_answerStale (hI : Agreed groupId roster s) (commit : MlsCommit) :
    SafeFor groupId roster pid (CommitPost groupId pid commit) (answerStale commit) s := by
  refine safe_findCommit stable_true hI trivial (fun t _ _ => trivial)
    fun t document hI' _ hfn hgr => ?_
  rw [hgr] at hfn
  exact ⟨document, rfl, (hasRow_of_find hI' hfn).2.2⟩

/-- The arbitration. Both sides apply the row that is stored, from the roster they
validated against. -/
theorem safe_arbitrate (hI : Agreed groupId roster s)
    (hcom : commit.id = MlsCommit.compositeId commit.groupId commit.epoch)
    (hrd : HasRead groupId roster group s) (hid : group.id = commit.groupId)
    (hep : commit.epoch = group.currentEpoch + 1) :
    SafeFor groupId roster pid (CommitPost groupId pid commit) (arbitrate group commit) s := by
  refine safe_insertCommit (hasRead_stable group) hI hrd hcom ?_ ?_ ?_
  · intro t ht hgr
    obtain ⟨-, n, hn, a, hvw, hle, -⟩ := ht (hid.trans hgr)
    exact ⟨n, by omega, a, hvw, hle⟩
  · intro t hI' ht hrow
    have happ : SafeFor groupId roster pid (fun _ _ => True)
        (applyMlsCommitEffects group commit) t :=
      safe_applyMlsCommitEffects ⟨commit, none, pid⟩ hI' ht fun hown =>
        ⟨hep, hrow (hid.symm.trans hown)⟩
    refine Safe.bind agreed_stable ?_ ?_ hI' (happ.frame agreed_stable
      (stable_imp (p := commit.groupId = groupId)
        (hasRow_stable commit.epoch ⟨commit, none, pid⟩)) hI' hrow)
    · exact fun t' _ _ h => h.2
    · exact fun t' e _ _ => trivial
  · intro t hI' ht
    refine safe_findCommit (hasRead_stable group) hI' ht (fun t _ _ => trivial)
      fun t' document hI'' ht' hfn => Prog.Safe.check (fun winning hwin => ?_) fun _ _ => trivial
    cases hwin
    have hrow : commit.groupId = groupId → document.row.epoch = commit.epoch ∧
        HasRow groupId commit.epoch document t' := by
      intro hgr
      rw [hcom, hgr] at hfn
      obtain ⟨hdoc, -, hrow⟩ := hasRow_of_find hI'' hfn
      exact ⟨hdoc, hrow⟩
    have happ : SafeFor groupId roster pid (fun _ _ => True)
        (applyMlsCommitEffects group document.row) t' := by
      refine safe_applyMlsCommitEffects document hI'' ht' fun hown => ?_
      obtain ⟨hdoc, hrow⟩ := hrow (hid.symm.trans hown)
      exact ⟨hdoc.trans hep, hdoc.symm ▸ hrow⟩
    refine Safe.bind agreed_stable ?_ ?_ hI'' (happ.frame agreed_stable
      (stable_imp (p := commit.groupId = groupId) (hasRow_stable commit.epoch document)) hI''
      fun hgr => (hrow hgr).2)
    · exact fun u _ _ h hgr => ⟨document, rfl, h.2 hgr⟩
    · exact fun t' e _ _ => trivial

theorem checkNextCommit_epoch {u : Unit} (h : checkNextCommit group commit = .ok u)
    : commit.epoch = group.currentEpoch + 1 := by
  simp only [checkNextCommit, bind_eq_ok, refuseIf_eq_ok, not_not] at h
  obtain ⟨_, hep, -⟩ := h
  exact hep

theorem safe_insertMlsCommit (hI : Agreed groupId roster s)
    (hcom : commit.id = MlsCommit.compositeId commit.groupId commit.epoch) :
    SafeFor groupId roster pid (CommitPost groupId pid commit) (insertMlsCommit commit) s := by
  refine Safe.bind agreed_stable (fun t group hI' hps => ?_) (fun _ _ _ _ => trivial) hI
    (safe_fetchMlsGroupRepaired commit.groupId 64 hI)
  obtain ⟨hid, hrd⟩ := hps group rfl
  refine Prog.Safe.check (fun _ _ => ?_) fun _ _ => trivial
  split
  · exact safe_answerStale hI' commit
  · exact Prog.Safe.check (fun _ hnx => safe_arbitrate hI' hcom hrd hid
      (checkNextCommit_epoch hnx)) fun _ _ => trivial

theorem safe_closeMlsGroup (hI : Agreed groupId roster s) (id : String) (now : Timestamp) :
    SafeFor groupId roster pid (fun _ _ => True) (closeMlsGroup id now) s := by
  refine safe_closeGroup hI fun t matched hI' => ?_
  split
  · exact trivial
  · refine safe_findGroup stable_true hI' trivial fun _ _ _ => ?_
    exact Prog.Safe.check (fun _ _ => Prog.Safe.check (fun _ _ => trivial) fun _ _ => trivial)
      fun _ _ => trivial

/-! ## Whole interleavings -/

/-- What is promised of an answer, in the store it was given in and in every later
one. -/
def Post (groupId : String) (roster : List MlsMemberDevice) (pid : Nat) :
    Request → CallStore → Except Error Reply → Prop
  | .insertMlsCommit commit, s, .ok (.commit outcome) =>
    CommitPost groupId pid commit s (.ok outcome)
  | .fetchMlsGroup _, s, .ok (.group group) => HasRead groupId roster group s
  | _, _, _ => True

theorem post_stable (pid : Nat) (request : Request) (r : Except Error Reply) :
    Lasts groupId roster (fun s => Post groupId roster pid request s r) := by
  match request, r with
  | .insertMlsCommit commit, .ok (.commit .won) => exact stable_imp (hasRow_stable _ _)
  | .insertMlsCommit commit, .ok (.commit (.lost winning)) =>
    intro s t hI hst h hgr
    obtain ⟨document, hdoc, hrow⟩ := h hgr
    exact ⟨document, hdoc, hasRow_stable _ _ s t hI hst hrow⟩
  | .fetchMlsGroup _, .ok (.group group) => exact hasRead_stable group
  | .insertMlsCommit _, .ok (.group _) | .insertMlsCommit _, .ok (.closed _)
  | .insertMlsCommit _, .error _ | .fetchMlsGroup _, .ok (.closed _)
  | .fetchMlsGroup _, .ok (.commit _) | .fetchMlsGroup _, .error _
  | .closeMlsGroup _ _, _ => exact stable_true

theorem safe_body (pid : Nat) (request : Request) (s : CallStore) (hadm : Admissible request)
    (hI : Agreed groupId roster s) :
    SafeFor groupId roster pid (Post groupId roster pid request) (body request) s := by
  cases request with
  | fetchMlsGroup id =>
    exact Safe.bind agreed_stable (fun t group _ hps => (hps group rfl).2)
      (fun _ _ _ _ => trivial) hI (safe_fetchMlsGroupRepaired id 64 hI)
  | closeMlsGroup id now =>
    refine Safe.bind agreed_stable ?_ ?_ hI (safe_closeMlsGroup hI id now)
    · exact fun _ _ _ _ => trivial
    · exact fun _ _ _ _ => trivial
  | insertMlsCommit commit =>
    exact Safe.bind agreed_stable (fun _ _ _ hps => hps) (fun _ _ _ _ => trivial) hI
      (safe_insertMlsCommit hI hadm)

/-- The group as it is created: a Call group at epoch 0, and no document about its
commits. -/
structure Created (groupId : String) (roster : List MlsMemberDevice) (s : CallStore) : Prop where
  group : ∃ group, s.mlsGroups.findOne groupId = some group ∧ group.kind = .call ∧
    group.currentEpoch = 0 ∧ group.members = roster
  rows : ∀ key document, s.mlsCommits.findOne key = some document →
    document.row.groupId ≠ groupId ∧ ∀ epoch, key ≠ MlsCommit.compositeId groupId epoch

theorem Created.agreed (h : Created groupId roster s) : Agreed groupId roster s := by
  have hno : ∀ epoch, s.mlsCommits.findOne (MlsCommit.compositeId groupId epoch) = none := by
    intro epoch
    cases hfn : s.mlsCommits.findOne (MlsCommit.compositeId groupId epoch) with
    | none => rfl
    | some document => exact absurd rfl ((h.rows _ _ hfn).2 epoch)
  refine ⟨⟨0, roster, fun _ => none⟩, ⟨h.group, fun n => hno n, fun key document hfn habo => ?_⟩,
    rfl, nofun⟩
  obtain ⟨hgr, hkey⟩ := h.rows key document hfn
  rcases habo with hown | ⟨epoch, hown⟩
  · exact absurd hown hgr
  · exact absurd hown (hkey epoch)

/-- The commit row stored for an epoch of the group. -/
def rowAt (groupId : String) (s : CallStore) (epoch : Nat) : Option CommitDocument :=
  s.mlsCommits.findOne (MlsCommit.compositeId groupId epoch)

/-- The rows and the group document of a store agree, and every answer given names the
row of its epoch. -/
structure CallAgreement (groupId : String) (roster : List MlsMemberDevice) (group : MlsGroup)
    (current : Nat) (sys : CallSystem) : Prop where
  stored : sys.store.mlsGroups.findOne groupId = some group
  epoch : group.currentEpoch = current
  /-- at most one row is stored for an epoch -/
  one_row : ∀ key key' document document', sys.store.mlsCommits.findOne key = some document →
    sys.store.mlsCommits.findOne key' = some document' → document.row.groupId = groupId →
    document'.row.groupId = groupId → document.row.epoch = document'.row.epoch →
    key = key' ∧ document = document'
  /-- and one is for every epoch the group has reached -/
  rows : ∀ e, 1 ≤ e → e ≤ current → ∃ document, rowAt groupId sys.store e = some document ∧
    document.row.groupId = groupId ∧ document.row.epoch = e
  /-- the roster is what these rows make of the one at creation -/
  members : EpochLog.replay applyRow roster (rowAt groupId sys.store) current = some group.members
  /-- a winner inserted the row of its epoch itself -/
  won : ∀ pid commit, sys.returned pid = some (.insertMlsCommit commit, .ok (.commit .won)) →
    commit.groupId = groupId →
    ∃ document, sys.store.mlsCommits.findOne (MlsCommit.compositeId groupId commit.epoch) =
      some document ∧ document.row = commit ∧ document.writer = pid
  /-- a loser was given the row of its epoch -/
  lost : ∀ pid commit winning,
    sys.returned pid = some (.insertMlsCommit commit, .ok (.commit (.lost winning))) →
    commit.groupId = groupId →
    ∃ document, sys.store.mlsCommits.findOne (MlsCommit.compositeId groupId commit.epoch) =
      some document ∧ document.row = winning

/-- A step of the group document: its epoch and roster stay, or the stored row of the next
epoch is applied. -/
def Advances (groupId : String) (s t : CallStore) : Prop :=
  ∃ group group', s.mlsGroups.findOne groupId = some group ∧
    t.mlsGroups.findOne groupId = some group' ∧
    ((group'.currentEpoch = group.currentEpoch ∧ group'.members = group.members) ∨
      ∃ document, s.mlsCommits.findOne
          (MlsCommit.compositeId groupId (group.currentEpoch + 1)) = some document ∧
        group'.currentEpoch = group.currentEpoch + 1 ∧
        group'.members = applyRow group.members document)

theorem Advances.refl (hI : Agreed groupId roster s) : Advances groupId s s := by
  obtain ⟨a, hvw, -⟩ := hI
  obtain ⟨group, hg, -⟩ := hvw.group
  exact ⟨group, group, hg, hg, .inl ⟨rfl, rfl⟩⟩

theorem Guarantee.advances (hI : Agreed groupId roster s) (hst : Guarantee groupId s t) :
    Advances groupId s t := by
  obtain ⟨a, hvw, -⟩ := hI
  obtain ⟨b, hvw', hlog⟩ := hst a hvw
  obtain ⟨group, hg, -, hep, hmbs⟩ := hvw.group
  obtain ⟨group', hg', -, hep', hmbs'⟩ := hvw'.group
  refine ⟨group, group', hg, hg', ?_⟩
  rcases hlog with rfl | hlog
  · exact .inl ⟨hep'.trans hep.symm, hmbs'.trans hmbs.symm⟩
  · rcases hlog.advanced with ⟨hcur, hval⟩ | ⟨document, hent, hcur, hval⟩
    · refine .inl ⟨?_, by rw [hmbs', hmbs, hval]⟩
      rw [hep', hep, hcur]
    · refine .inr ⟨document, ?_, ?_, ?_⟩
      · rw [← hent, ← hvw.log, hep]
        rfl
      · rw [hep', hep, hcur]
        rfl
      · rw [hmbs', hmbs, hval]

theorem callAgreement_of_allSafe {sys : CallSystem}
    (hsf : System.AllSafe perform (Agreed groupId roster) (Guarantee groupId)
      (Post groupId roster) sys) :
    ∃ group current, CallAgreement groupId roster group current sys := by
  obtain ⟨a, hvw, hwf⟩ := hsf.store
  obtain ⟨group, hg, -, hep, hmbs⟩ := hvw.group
  have hlog : rowAt groupId sys.store = a.log := funext hvw.log
  refine ⟨group, a.current, hg, hep, ?_, ?_, ?_, ?_, ?_⟩
  · intro key key' document document' hfn hfn' hgr hgr' hsm
    obtain ⟨-, hkey, -⟩ := hvw.rows key document hfn (.inl hgr)
    obtain ⟨-, hkey', -⟩ := hvw.rows key' document' hfn' (.inl hgr')
    have heq : key = key' := by rw [hkey, hkey', hsm]
    subst heq
    exact ⟨rfl, some.inj (hfn.symm.trans hfn')⟩
  · intro e hone hle
    obtain ⟨document, hent⟩ := EpochLog.exists_of_replay hwf.replayed e hone hle
    have hfn := (hvw.log e).trans hent
    obtain ⟨hdoc, hgr, -⟩ := hvw.entry hfn
    exact ⟨document, hfn, hgr, hdoc⟩
  · rw [hlog, hmbs]
    exact hwf.replayed
  · intro pid commit hret hgr
    have hrow : HasRow groupId commit.epoch ⟨commit, none, pid⟩ sys.store := hsf.returned hret hgr
    exact ⟨_, hrow.find, rfl, rfl⟩
  · intro pid commit winning hret hgr
    obtain ⟨document, hdoc, hrow⟩ :
        ∃ document, document.row = winning ∧ HasRow groupId commit.epoch document sys.store :=
      hsf.returned hret hgr
    exact ⟨document, hrow.find, hdoc⟩

/-- **Call commits agree under races and crashes.** In every state of every interleaving
of any number of submitters, readers and closers, each of which may stop between any two
database calls: one row is stored for an epoch at most, and one for every epoch the group
has reached; the roster is the creation roster with these rows applied in order; a winner
inserted the row of its epoch, and a loser was given it. Along the interleaving the group's
epoch never falls, and grows by one with each row applied. -/
theorem call_commit_agreement {store : CallStore} {h : List (CallSystem × Event Request)}
    {sys : CallSystem} (hcreated : Created groupId roster store)
    (hrun : Run (System.exec perform body) (System.Admits Admissible) (idle store) h sys) :
    (∃ group current, CallAgreement groupId roster group current sys) ∧
      ∀ h₁ before event h₂, h = h₁ ++ (before, event) :: h₂ →
        Advances groupId before.store (System.exec perform body before event).1.store := by
  have hsafe : ∀ {h : List (CallSystem × Event Request)} {sys : CallSystem},
      Run (System.exec perform body) (System.Admits Admissible) (idle store) h sys →
      System.AllSafe perform (Agreed groupId roster) (Guarantee groupId)
        (Post groupId roster) sys := fun hrun =>
    System.safe_of_run agreed_stable post_stable safe_body hcreated.agreed hrun
  refine ⟨callAgreement_of_allSafe (hsafe hrun), ?_⟩
  rintro h₁ before event h₂ rfl
  obtain ⟨hbefore, hadm, -⟩ := hrun.split_at
  have hstore := (hsafe hbefore).store
  rcases (System.allSafe_exec agreed_stable post_stable safe_body hadm (hsafe hbefore)).2 with
    hsame | hstep
  · rw [hsame]
    exact .refl hstore
  · exact hstep.advances hstore

/-! ## A winner that crashes before it moves the group -/

namespace Race

/-- A call as its creator opens it. -/
def call : MlsGroup :=
  { Sample.group with
    id := "ffffffffffffffffffffffffffffffffffffffffffffffffffffffffffffffff"
    kind := .call
    generation := none }

/-- A commit of the creator for the first epoch, as the route builds it. -/
def commitAdding (added : List MlsMemberDevice) (ciphertext : String) : MlsCommit :=
  ⟨MlsCommit.compositeId call.id 1, call.id, 1, Sample.owner, ciphertext, 6, added, [],
    seconds 3, [], []⟩

/-- The commit that is stored, it admits the guest. -/
def admission : MlsCommit := commitAdding [Sample.guest] "Y29tbWl0"

/-- The commit that comes second. -/
def rival : MlsCommit := commitAdding [] "dXBkYXRl"

/-- The store after the call was created. -/
def store : CallStore where
  mlsGroups := ⟨(∅ : Table String MlsGroup).insert call.id call, fun k v h => by
    rw [get_insert] at h
    split at h
    · rename_i hk
      rw [← some.inj h, hk]
    · exact absurd h (by simp)⟩
  mlsCommits := .empty
  mlsJoinIntents := .empty

/-- Both submitters read the group, one inserts its row and crashes, the other finds the
row taken. -/
def events : List (Event Request) :=
  [.start 0 (.insertMlsCommit admission), .start 1 (.insertMlsCommit rival), .step 0, .step 1, .step 0,
    .step 1, .step 0, .crash 0, .step 1, .step 1, .step 1, .step 1]

/-- The system after these events. -/
def system : CallSystem := execAll (System.exec perform body) (idle store) events

theorem created : Created call.id [Sample.owner] store :=
  ⟨⟨call, by decide, rfl, rfl, rfl⟩, fun _ _ hfn => absurd hfn (by
    simp [store, Collection.findOne, Collection.empty])⟩

theorem admitted : AdmitsAll (System.exec perform body) (System.Admits Admissible)
    (idle store) events :=
  ⟨rfl, rfl, trivial, trivial, trivial, trivial, trivial, trivial, trivial, trivial, trivial,
    trivial, trivial⟩

end Race

/-- The winner's row is applied by the submitter that lost to it. -/
theorem call_commit_agreement_crashed :
    ∃ group, CallAgreement Race.call.id [Sample.owner] group 1 Race.system ∧
      group.members = [Sample.owner, Sample.guest] ∧ Race.system.returned 0 = none ∧
      Race.system.returned 1 =
        some (.insertMlsCommit Race.rival, .ok (.commit (.lost Race.admission))) := by
  obtain ⟨⟨group, current, hagree⟩, -⟩ :=
    call_commit_agreement Race.created (Run.of_admitsAll Race.admitted)
  have hvalue : (Race.system.store.mlsGroups.findOne Race.call.id).map
      (fun group => (group.currentEpoch, group.members)) =
        some (1, [Sample.owner, Sample.guest]) := by
    decide
  have hstored : Race.system.store.mlsGroups.findOne Race.call.id = some group := hagree.stored
  rw [hstored, map_some, Option.some.injEq, Prod.mk.injEq] at hvalue
  have hcurrent : current = 1 := by
    have h := hagree.epoch.symm.trans hvalue.1
    omega
  subst hcurrent
  exact ⟨group, hagree, hvalue.2, by decide, by decide⟩

end Mongo
end SlogaBackend.Mls
