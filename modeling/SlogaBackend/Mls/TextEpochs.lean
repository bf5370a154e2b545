import SlogaBackend.Mls.Seating

/-!
# The epochs of a Text group

Text and Call commits share one map. A Text-marked row sits under `text:` and its
composite id, every other row under the composite id itself, and squatters, evictions,
prunes and retries move rows of both sorts. The arbitration of epochs does not depend
on the rows being there: a group's `currentEpoch` alone decides which epoch may be won
next, and it never goes back while the group lives (`epoch_mono`).

What readers are served does depend on the keys. A row of a Call commit is there only as
long as its Call group is, which goes with its rows (`call_group_next`), so the rows of a Text
group are all its own. An id that is 64 lowercase hex digits, as the routes ask, starts no key
of the other sort (`call_key_unmarked`).
-/

namespace SlogaBackend.Mls

open Checks ReferenceDb

variable {prim : Primitives} {db next : ReferenceDb} {op : Op}

/-! ## Group ids -/

/-- A group id is 64 lowercase hex digits. -/
def isValidGroupId (groupId : String) : Bool :=
  groupId.utf8ByteSize == 64 && groupId.toList.all isLowerHexChar

/-- A key is marked when it starts with `text:`. -/
def Marked (key : String) : Prop := "text:".toList <+: key.toList

variable {groupId : String} {commit : MlsCommit}

theorem call_key_unmarked (h : isValidGroupId groupId = true) (epoch : Int) :
    ¬ Marked (MlsCommit.compositeId groupId epoch) := by
  intro hmar
  unfold Marked MlsCommit.compositeId at hmar
  rw [toList_joinColon] at hmar
  rw [isValidGroupId, and_eq_true, all_eq_true] at h
  cases hchar : groupId.toList with
  | nil =>
    have hemp : groupId = "" := String.toList_inj.mp (hchar.trans rfl)
    rw [hemp] at h
    exact absurd h.1 (by decide)
  | cons first rest =>
    rw [hchar, cons_append] at hmar
    have htx : "text:".toList = 't' :: "ext:".toList := by decide
    rw [htx, List.cons_prefix_cons] at hmar
    have hfst := h.2 first (by rw [hchar]; exact mem_cons_self)
    rw [← hmar.1] at hfst
    exact absurd hfst (by decide)

/-! ## The life of a Text group -/

/-- The group is stored, as a Text group. -/
def TextAlive (db : ReferenceDb) (groupId : String) : Prop :=
  ∃ group, db.mlsGroups.get groupId = some group ∧ group.kind = .text

variable {g g' : MlsGroup} {key : String}

theorem epoch_step (h : Step prim db op next) (hk : GroupsKeyed db) {k : String}
    (hg : db.mlsGroups.get k = some g) (htx : g.kind = .text) (hg' : next.mlsGroups.get k = some g')
    : g'.kind = .text ∧ g.currentEpoch ≤ g'.currentEpoch := by
  have hst := h.group hk k
  rw [hg'] at hst
  generalize hrow : some g' = row at hst
  cases hst with
  | same =>
    rw [hg] at hrow
    rw [some.inj hrow]
    exact ⟨htx, le_rfl⟩
  | bound _ _ _ hold | superseded hold _ | pended hold _ =>
    rw [hg] at hold
    rw [some.inj hrow, ← some.inj hold]
    exact ⟨htx, le_rfl⟩
  | createdText hcr =>
    rcases hcr.id_free with ⟨-, hno⟩ | ⟨-, taken, hsm, hcl⟩
    · rw [hg] at hno
      cases hno
    · rw [hg, some.injEq] at hsm
      rw [← hsm, htx] at hcl
      cases hcl
  | createdCall hcr =>
    have hno := hcr.id_free
    rw [hg] at hno
    cases hno
  | closed hold hcl | callCommitted hold hcl _ _ =>
    rw [hg, some.injEq] at hold
    rw [← hold, htx] at hcl
    cases hcl
  | textCommitted hold _ hacc =>
    rw [hg] at hold
    rw [some.inj hrow, some.inj hold]
    refine ⟨hacc.kind_text, ?_⟩
    have hep := hacc.epoch_eq
    unfold applyTextCommit
    dsimp only
    omega
  | deleted _ _ | swept _ _ => cases hrow

variable {admits : ReferenceDb → Op → Prop} {h : List (ReferenceDb × Op)} {adSha256 : String}
  {cap : Nat} {row : MlsCommit}

/-- **The epoch never goes back while the group lives.** -/
theorem epoch_mono (hrun : Run (exec prim) admits db h next) (hk : GroupsKeyed db)
    (hali : ∀ e ∈ h, TextAlive e.1 groupId) (hg : db.mlsGroups.get groupId = some g)
    (htx : g.kind = .text) (hg' : next.mlsGroups.get groupId = some g')
    : g.currentEpoch ≤ g'.currentEpoch := by
  induction hrun generalizing g with
  | nil s =>
    rw [hg] at hg'
    rw [some.inj hg']
  | @cons s t i h hadm hrs ih =>
    have hk' := groupsKeyed_step (step_exec prim s i) hk
    have hali' : ∀ e ∈ h, TextAlive e.1 groupId := fun e he => hali e (mem_cons_of_mem _ he)
    -- the group is stored after the first step: the rest of the run starts or ends there
    have hmid : ∃ mid, (exec prim s i).1.mlsGroups.get groupId = some mid := by
      cases hrs with
      | nil => exact ⟨g', hg'⟩
      | cons _ _ =>
        obtain ⟨mid, hmid, -⟩ := hali' _ mem_cons_self
        exact ⟨mid, hmid⟩
    obtain ⟨mid, hmid⟩ := hmid
    obtain ⟨hmidText, hle⟩ := epoch_step (step_exec prim s i) hk hg htx hmid
    exact hle.trans (ih hk' hali' hmid hmidText hg')

/-! ## Won commits -/

/-- The operation answered that the commit won. -/
def Won (prim : Primitives) (db : ReferenceDb) (op : Op) : Prop :=
  (exec prim db op).2 = .ok (.commit .won)

theorem won_textCommit (h : Won prim db (.insertMlsTextCommit commit adSha256 cap)) :
    db.TextCommitted commit adSha256
      (exec prim db (.insertMlsTextCommit commit adSha256 cap)).1 := by
  obtain ⟨outcome, hr, heq⟩ := map_answer_eq_ok (perform_of_exec_eq_ok h)
  rcases insertMlsTextCommit_eq_ok hr with ⟨-, winning, hls, -⟩ | ⟨-, hrs⟩
  · rw [hls] at heq
    cases heq
  · exact hrs

theorem won_epoch (h : Won prim db (.insertMlsTextCommit commit adSha256 cap)) :
    ∃ group, (exec prim db (.insertMlsTextCommit commit adSha256 cap)).1.mlsGroups.get
      commit.groupId = some group ∧ group.kind = .text ∧ group.currentEpoch = commit.epoch := by
  obtain ⟨group, list, signed, plan, -, -, -, hacc, hnx⟩ := won_textCommit h
  refine ⟨applyTextCommit group commit plan, ?_, hacc.kind_text, rfl⟩
  rw [hnx]
  rw [get_insert_self]

/-- **A later win is of a later epoch.** -/
theorem won_epoch_lt {m1 m2 : ReferenceDb} {commit1 commit2 : MlsCommit}
    {adSha2561 adSha2562 : String} {cap1 cap2 : Nat} (hk : GroupsKeyed m1)
    (hwon1 : Won prim m1 (.insertMlsTextCommit commit1 adSha2561 cap1))
    (hrun : Run (exec prim) admits
      (exec prim m1 (.insertMlsTextCommit commit1 adSha2561 cap1)).1 h m2)
    (hwon2 : Won prim m2 (.insertMlsTextCommit commit2 adSha2562 cap2))
    (hgr : commit2.groupId = commit1.groupId) (hali : ∀ e ∈ h, TextAlive e.1 commit1.groupId) :
    commit1.epoch < commit2.epoch := by
  obtain ⟨g1, hg1, htx, hep1⟩ := won_epoch hwon1
  obtain ⟨g2, list, signed, plan, -, hg2, -, hacc, -⟩ := won_textCommit hwon2
  rw [hgr] at hg2
  have hle := epoch_mono hrun (groupsKeyed_step (step_exec prim m1 _) hk) hali hg1 htx hg2
  have hep2 := hacc.epoch_eq
  omega

/-! ## Marked rows -/

/-- **A Call group stays, or goes with its rows.** -/
theorem call_group_next (h : Step prim db op next) (hk : GroupsKeyed db) {k : String}
    (hget : db.mlsGroups.get k = some g) (hcall : g.kind = .call) :
    (∃ g', next.mlsGroups.get k = some g' ∧ g'.kind = .call) ∨
      ∀ key row, next.mlsCommits.get key = some row → row.groupId ≠ k := by
  have hgroup := h.group hk k
  generalize hrow : next.mlsGroups.get k = stored at hgroup
  cases hgroup with
  | same => exact .inl ⟨g, hget, hcall⟩
  | bound _ _ _ hold | superseded hold _ | pended hold _ | closed hold _
  | callCommitted hold _ _ _ =>
    rw [hget, some.injEq] at hold
    subst hold
    exact .inl ⟨_, rfl, hcall⟩
  | createdCall hcreate => cases hget.symm.trans hcreate.id_free
  | deleted hold htext =>
    rw [hget, some.injEq] at hold
    cases hcall.symm.trans (hold ▸ htext)
  | textCommitted hold _ haccepted =>
    rw [hget, some.injEq] at hold
    cases hcall.symm.trans (hold ▸ haccepted.kind_text)
  | createdText hprepared =>
    cases h with
    | same =>
      cases hget.symm.trans hrow
      exact .inl ⟨_, rfl, hcall⟩
    | listWrite hop => cases hop
    | @createText _ prepared _ _ squat hcreate =>
      have hid := hcreate.is_prepared.id_eq.trans hprepared.is_prepared.id_eq.symm
      rcases hcreate.id_free with ⟨-, hnone⟩ | ⟨rfl, -⟩
      · rw [hid, hget] at hnone
        cases hnone
      · refine .inr fun key row hcommit => ?_
        rw [← hid]
        exact bne_iff_ne.mp (get_retain_eq_some.mp hcommit).2
  | @swept closed created =>
    cases h with
    | same => cases hget.symm.trans hrow
    | listWrite hop => cases hop
    | sweep =>
      refine .inr fun key row hcommit heq => ?_
      have hkept := (get_retain_eq_some.mp hcommit).2
      have hrow' : (db.mlsGroups.eraseAll (db.sweptIds closed created)).get k = none := hrow
      rw [get_eraseAll] at hrow'
      split at hrow'
      · rename_i hswept
        simp [heq, hswept] at hkept
      · cases hget.symm.trans hrow'

/-- A row that a step stores was written by a Call commit or by an accepted Text commit. -/
theorem row_written (h : Step prim db op next) (hbef : db.mlsCommits.get key ≠ some row)
    (haft : next.mlsCommits.get key = some row) :
    (∃ group, db.mlsGroups.get row.groupId = some group ∧ group.kind = .call ∧
      key = MlsCommit.compositeId row.groupId row.epoch) ∨
    ∃ commit adSha256 cap, op = .insertMlsTextCommit commit adSha256 cap ∧
      row.groupId = commit.groupId ∧ row.epoch = commit.epoch ∧
      key = textCommitKey (MlsCommit.compositeId commit.groupId commit.epoch) := by
  cases h with
  | same | environment | grant | release | createCall | close | intent | listWrite =>
    exact absurd haft hbef
  | @createText group prepared supersedes list squat hcreate =>
    cases squat with
    | false => exact absurd haft hbef
    | true => exact absurd (get_retain_eq_some.mp haft).1 hbef
  | @callCommit commit group hget hkind _ _ _ _ _ =>
    rw [get_insert] at haft
    split at haft
    · rename_i hkey
      cases haft
      exact .inl ⟨group, hget, hkind, hkey⟩
    · exact absurd haft hbef
  | @textCommit commit adSha256 cap group list signed plan _ _ _ haccepted =>
    rw [get_insert] at haft
    split at haft
    · rename_i hkey
      refine .inr ⟨commit, adSha256, cap, rfl, ?_, ?_, hkey⟩
      all_goals rw [← some.inj haft, haccepted.stored_eq]
    · rw [get_erase] at haft
      split at haft
      · cases haft
      · exact absurd haft hbef
  | _ => exact absurd (get_retain_eq_some.mp haft).1 hbef

/-- A row lies under its Text key, or under its own with its Call group stored. -/
def RowsPlaced (db : ReferenceDb) : Prop :=
  ∀ key row, db.mlsCommits.get key = some row →
    key = textCommitKey (MlsCommit.compositeId row.groupId row.epoch) ∨
    key = MlsCommit.compositeId row.groupId row.epoch ∧
      ∃ group, db.mlsGroups.get row.groupId = some group ∧ group.kind = .call

theorem rowsPlaced_step (h : Step prim db op next) (hk : GroupsKeyed db)
    (hplaced : RowsPlaced db) : RowsPlaced next := by
  intro key row haft
  have hown : (∃ group, db.mlsGroups.get row.groupId = some group ∧ group.kind = .call) →
      ∃ group, next.mlsGroups.get row.groupId = some group ∧ group.kind = .call := by
    rintro ⟨group, hget, hcall⟩
    exact (call_group_next h hk hget hcall).resolve_right fun hgone => hgone key row haft rfl
  by_cases hbef : db.mlsCommits.get key = some row
  · exact (hplaced key row hbef).imp_right fun hcall => ⟨hcall.1, hown hcall.2⟩
  · rcases row_written h hbef haft with
      ⟨group, hget, hcall, hkey⟩ | ⟨commit, adSha256, cap, -, hgroup, hepoch, hkey⟩
    · exact .inr ⟨hkey, hown ⟨group, hget, hcall⟩⟩
    · exact .inl (hgroup ▸ hepoch ▸ hkey)

theorem mem_fetchMlsTextCommitsFrom {fromEpoch limit : Int}
    (h : row ∈ db.fetchMlsTextCommitsFrom groupId fromEpoch limit) :
    ∃ key, db.mlsCommits.get key = some row ∧ Marked key ∧ row.groupId = groupId := by
  have hmem := List.mem_of_mem_take h
  rw [List.mem_insertionSort, mem_map] at hmem
  obtain ⟨entry, hent, rfl⟩ := hmem
  rw [mem_filter, and_eq_true, and_eq_true, decide_eq_true_eq, beq_iff_eq] at hent
  exact ⟨entry.1, get_eq_some_iff.mpr hent.1, hent.2.1.1, hent.2.1.2⟩

theorem won_of_change (h : (exec prim db (.insertMlsTextCommit commit adSha256 cap)).1 ≠ db) :
    Won prim db (.insertMlsTextCommit commit adSha256 cap) := by
  cases hans : (exec prim db (.insertMlsTextCommit commit adSha256 cap)).2 with
  | error e => exact absurd (exec_of_error hans) h
  | ok answer =>
    obtain ⟨outcome, hr, rfl⟩ := map_answer_eq_ok (perform_of_exec_eq_ok hans)
    rcases insertMlsTextCommit_eq_ok hr with ⟨heq, -⟩ | ⟨rfl, -⟩
    · exact absurd heq h
    · exact hans

/-- A stored Text-marked row answers every later submission for its epoch. -/
theorem resubmit_lost
    (h : db.mlsCommits.get (textCommitKey (MlsCommit.compositeId commit.groupId commit.epoch)) =
      some row) :
    exec prim db (.insertMlsTextCommit commit adSha256 cap) = (db, .ok (.commit (.lost row))) := by
  have hins : db.insertMlsTextCommit commit adSha256 cap = .ok (db, .lost row) := by
    unfold insertMlsTextCommit
    dsimp only
    rw [h]
  have hperf : perform prim db (.insertMlsTextCommit commit adSha256 cap) =
      .ok (db, .commit (.lost row)) := by
    show (Prod.map id Response.commit <$> db.insertMlsTextCommit commit adSha256 cap) = _
    rw [hins]
    rfl
  unfold exec
  rw [hperf]

section

variable (hrun : Run (exec prim) admits .empty h db)
include hrun

theorem rowsPlaced_of_run : RowsPlaced db := by
  refine (hrun.invariant (P := fun s => GroupsKeyed s ∧ RowsPlaced s)
    (fun s op _ hs => ⟨groupsKeyed_step (step_exec prim s op) hs.1, ?_⟩)
    ⟨(coherent_empty prim).groups_keyed, fun key row hrow => ?_⟩).2
  · exact rowsPlaced_step (step_exec prim s op) hs.1 hs.2
  · exact absurd hrow (by simp [ReferenceDb.empty])

/-- A row under its Text key at the end of a run was written by a won Text commit of the run. -/
theorem text_row_history (hget : db.mlsCommits.get
      (textCommitKey (MlsCommit.compositeId row.groupId row.epoch)) = some row) :
    ∃ h1 m commit adSha256 cap h2, h = h1 ++ (m, .insertMlsTextCommit commit adSha256 cap) :: h2 ∧
      Won prim m (.insertMlsTextCommit commit adSha256 cap) ∧ commit.groupId = row.groupId ∧
      (exec prim m (.insertMlsTextCommit commit adSha256 cap)).1.mlsCommits.get
        (textCommitKey (MlsCommit.compositeId commit.groupId commit.epoch)) = some row := by
  obtain ⟨h1, m, op, h2, rfl, -, hbef, haft⟩ := hrun.exists_change
    (P := fun s => s.mlsCommits.get (textCommitKey
      (MlsCommit.compositeId row.groupId row.epoch)) = some row) (by simp [ReferenceDb.empty]) hget
  rcases row_written (step_exec prim m op) hbef haft with
    ⟨-, -, -, hkey⟩ | ⟨commit, adSha256, cap, rfl, hgroup, hepoch, -⟩
  · exact absurd (congrArg String.length hkey) (by simp [textCommitKey])
  · rw [hgroup, hepoch] at hbef haft
    have hchange : (exec prim m (.insertMlsTextCommit commit adSha256 cap)).1 ≠ m := by
      intro heq
      rw [heq] at haft
      exact hbef haft
    exact ⟨h1, m, commit, adSha256, cap, h2, rfl, won_of_change hchange, hgroup.symm, haft⟩

end

/-- **The arbitration of Text epochs.** Along every run from the empty store:

* between two wins in one life of a Text group the epoch grows, so no epoch is won
  twice, whatever was pruned in between;
* after a win the group is at the won epoch, and while it lives its epoch never
  decreases;
* a submission for an epoch whose Text-marked row is stored loses to exactly that row
  and changes nothing;
* every row served to readers of a Text group, or of any id that the routes let through, was
  written by a won Text commit of that group. -/
theorem text_epoch_arbitration {h : List (ReferenceDb × Op)}
    (hrun : Run (exec prim) admits .empty h db) :
    (∀ h₁ m₁ commit₁ adSha256₁ cap₁ h₂ m₂ commit₂ adSha256₂ cap₂ h₃,
      h = h₁ ++ (m₁, .insertMlsTextCommit commit₁ adSha256₁ cap₁) ::
        (h₂ ++ (m₂, .insertMlsTextCommit commit₂ adSha256₂ cap₂) :: h₃) →
      Won prim m₁ (.insertMlsTextCommit commit₁ adSha256₁ cap₁) →
      Won prim m₂ (.insertMlsTextCommit commit₂ adSha256₂ cap₂) →
      commit₂.groupId = commit₁.groupId → (∀ e ∈ h₂, TextAlive e.1 commit₁.groupId) →
      commit₁.epoch < commit₂.epoch) ∧
    (∀ h₁ m commit adSha256 cap h₂, h = h₁ ++ (m, .insertMlsTextCommit commit adSha256 cap) :: h₂ →
      Won prim m (.insertMlsTextCommit commit adSha256 cap) →
      ∃ group, (exec prim m (.insertMlsTextCommit commit adSha256 cap)).1.mlsGroups.get
        commit.groupId = some group ∧ group.currentEpoch = commit.epoch) ∧
    (∀ h₁ m op h₂ groupId group group', h = h₁ ++ (m, op) :: h₂ →
      m.mlsGroups.get groupId = some group → group.kind = .text →
      (∀ e ∈ h₂, TextAlive e.1 groupId) → db.mlsGroups.get groupId = some group' →
      group.currentEpoch ≤ group'.currentEpoch) ∧
    (∀ commit adSha256 cap row,
      db.mlsCommits.get (textCommitKey (MlsCommit.compositeId commit.groupId commit.epoch)) =
        some row →
      exec prim db (.insertMlsTextCommit commit adSha256 cap) = (db, .ok (.commit (.lost row)))) ∧
    ∀ groupId fromEpoch limit row, TextAlive db groupId ∨ isValidGroupId groupId = true →
      row ∈ db.fetchMlsTextCommitsFrom groupId fromEpoch limit →
      ∃ h₁ m commit adSha256 cap h₂, h = h₁ ++ (m, .insertMlsTextCommit commit adSha256 cap) :: h₂ ∧
        Won prim m (.insertMlsTextCommit commit adSha256 cap) ∧ commit.groupId = groupId ∧
        (exec prim m (.insertMlsTextCommit commit adSha256 cap)).1.mlsCommits.get
          (textCommitKey (MlsCommit.compositeId commit.groupId commit.epoch)) = some row := by
  refine ⟨?_, ?_, ?_, ?_, ?_⟩
  · intro h₁ m₁ commit₁ adSha256₁ cap₁ h₂ m₂ commit₂ adSha256₂ cap₂ h₃ heq hwon₁ hwon₂ hgroup halive
    subst heq
    obtain ⟨hrun₁, -, hrest⟩ := hrun.split_at
    obtain ⟨hrun₂, -, -⟩ := hrest.split_at
    exact won_epoch_lt (coherent_of_run hrun₁).groups_keyed hwon₁ hrun₂ hwon₂ hgroup halive
  · intro h₁ m commit adSha256 cap h₂ _ hwon
    obtain ⟨group, hget, -, hepoch⟩ := won_epoch hwon
    exact ⟨group, hget, hepoch⟩
  · intro h₁ m op h₂ groupId group group' heq hget htext halive hget'
    subst heq
    obtain ⟨m', hrun₁, hrun₂⟩ := hrun.split
    have hm : m' = m := by
      cases hrun₂ with
      | cons _ _ => rfl
    subst hm
    refine epoch_mono hrun₂ (coherent_of_run hrun₁).groups_keyed (fun e he => ?_) hget htext hget'
    rcases mem_cons.mp he with rfl | he
    · exact ⟨group, hget, htext⟩
    · exact halive e he
  · exact fun commit adSha256 cap row hrow => resubmit_lost hrow
  · intro groupId fromEpoch limit row hgroup hmem
    obtain ⟨key, hget, hmarked, rfl⟩ := mem_fetchMlsTextCommitsFrom hmem
    rcases rowsPlaced_of_run hrun key row hget with rfl | ⟨rfl, group, hstored, hcall⟩
    · exact text_row_history hrun hget
    · -- the row of a Call commit: its group is no Text group, and its id is no valid one
      rcases hgroup with ⟨text, htext, hkind⟩ | hvalid
      · rw [hstored, some.injEq] at htext
        cases hcall.symm.trans (htext ▸ hkind)
      · exact absurd hmarked (call_key_unmarked hvalid row.epoch)

open Sample

/-- The sample admission again, after it was won: it loses to the stored row. -/
theorem text_epoch_arbitration_resubmit : exec primitives admittedStore
        (.insertMlsTextCommit admission genesisSha256 0) =
      (admittedStore, .ok (.commit (.lost admission))) := by
  obtain ⟨h, hrun⟩ := admitted_reachable
  exact (text_epoch_arbitration hrun).2.2.2.1 admission genesisSha256 0
    admission (by decide)

end SlogaBackend.Mls
