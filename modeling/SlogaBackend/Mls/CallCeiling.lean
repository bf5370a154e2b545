import SlogaBackend.Mls.CallRoster

/-!
# The roster ceiling of a call

The driver counts what the roster of a call would be after a commit from the lengths of its
lists (`checkCallCeiling`), and then filters the roster and appends to it (`applyCallCommit`).
The two agree because no list and no roster of a run holds a device twice.
-/

namespace SlogaBackend.Mls

open Checks ReferenceDb

theorem checkFanOut_eq_ok {seen members : List MlsMemberDevice} {u : Unit}
    (h : checkFanOut seen members = .ok u) : members.Nodup ∧ ∀ d ∈ members, d ∉ seen := by
  induction members generalizing seen with
  | nil => simp
  | cons member rest ih =>
    simp only [checkFanOut, bind_eq_ok, refuseIf_eq_ok] at h
    obtain ⟨_, -, _, hsn, h⟩ := h
    obtain ⟨hnod, hout⟩ := ih h
    refine ⟨nodup_cons.mpr ⟨fun hm => hout _ hm mem_cons_self, hnod⟩, fun d hd => ?_⟩
    rcases mem_cons.mp hd with rfl | hd
    · exact hsn
    · exact fun hs => hout d hd (mem_cons_of_mem _ hs)

theorem nodup_of_validateSubmission {data : DataSubmitMlsCommit}
    (h : validateSubmission data = .ok ()) : data.added.Nodup ∧ data.removed.Nodup := by
  simp only [validateSubmission, bind_eq_ok] at h
  obtain ⟨_, -, _, -, _, -, _, -, _, -, h⟩ := h
  have hnod := (checkFanOut_eq_ok h).1
  exact ⟨hnod.of_append_left, hnod.of_append_right⟩

/-- The removed devices that are in the roster. -/
def realRemovals (group : MlsGroup) (commit : MlsCommit) : Nat :=
  (commit.removed.filter fun removed => group.hasMember removed.userId removed.deviceId).length

variable {prim : Primitives} {db : ReferenceDb} {group : MlsGroup} {commit : MlsCommit}

/-- The devices a commit takes out of the roster are its removed devices that are there. -/
theorem length_applyCallCommit (hmbs : group.members.Nodup) (hrem : commit.removed.Nodup) :
    (applyCallCommit group commit).members.length + realRemovals group commit =
      group.members.length + commit.added.length := by
  have hpr : (group.members.filter commit.removed.contains).Perm
      (commit.removed.filter fun d => group.hasMember d.userId d.deviceId) := by
    refine (List.perm_ext_iff_of_nodup (hmbs.filter _) (hrem.filter _)).mpr fun d => ?_
    rw [mem_filter, mem_filter, MlsGroup.hasMember_iff, contains_iff_mem, and_comm]
  have hspl := List.length_eq_length_filter_add (l := group.members) commit.removed.contains
  have hcnt := hpr.length_eq
  simp only [applyCallCommit, applyDelta, length_append, realRemovals]
  omega

/-- No device twice, and no more devices than the ceiling. -/
def WithinCeiling (members : List MlsMemberDevice) : Prop :=
  members.Nodup ∧ members.length ≤ maxMlsGroupMembers

theorem withinCeiling_applyCallCommit (had : checkCallAdds group commit.added = .ok ())
    (hceil : checkCallCeiling group commit = .ok ()) (hadd : commit.added.Nodup)
    (hrem : commit.removed.Nodup) (hold : WithinCeiling group.members) :
    WithinCeiling (applyCallCommit group commit).members := by
  constructor
  · refine nodup_append.mpr ⟨hold.1.filter _, hadd, ?_⟩
    rintro d hd _ ha rfl
    exact checkCallAdds_eq_ok had d ha d (mem_filter.mp hd).1 rfl
  · have hlen := length_applyCallCommit hold.1 hrem
    simp only [checkCallCeiling, bind_eq_ok, refuseIf_eq_ok, realRemovals] at hceil hlen
    omega

/-- **The ceiling counts the roster that is stored.** In every run of what the route hands to the
driver the roster of a Call group has no device twice and no more devices than the ceiling. For
every commit on it whose lists pass the route's checks the driver's count does not underflow, and
it is the size of the roster that is stored when the commit wins. -/
theorem call_ceiling_counts_roster (h : Reachable (exec prim) (fun _ op => CallRouted op) .empty db)
    (hmem : group ∈ db.mlsGroups.values) (hcall : group.kind = .call) :
    group.members.Nodup ∧ group.members.length ≤ maxMlsGroupMembers ∧
      ∀ data commit, validateSubmission data = .ok () → commit.groupId = group.id →
        commit.added = data.added → commit.removed = data.removed →
        realRemovals group commit ≤ group.members.length + commit.added.length ∧
        ∀ next, db.insertMlsCommit commit = .ok (next, .won) →
          ∃ stored, next.mlsGroups.get group.id = some stored ∧ stored.members.length =
              group.members.length + commit.added.length - realRemovals group commit := by
  obtain ⟨hkeyed, hwithin⟩ := callRosters_run (P := WithinCeiling) h (fun _ _ hop => hop)
    (fun d => ⟨nodup_singleton d, by simp [maxMlsGroupMembers]⟩) (by
      intro _ commit _ hop hadds hceiling hold
      obtain ⟨data, _, _, _, hvalid, rfl⟩ := hop.2 commit rfl
      have hnodup := nodup_of_validateSubmission hvalid
      exact withinCeiling_applyCallCommit hadds hceiling hnodup.1 hnodup.2 hold)
  have hget := hkeyed.get_of_mem hmem
  obtain ⟨hnodup, hlength⟩ := hwithin _ _ hget hcall
  refine ⟨hnodup, hlength, fun data commit hvalid hid _ hremoved => ?_⟩
  have hcount := length_applyCallCommit hnodup
    (show commit.removed.Nodup from hremoved ▸ (nodup_of_validateSubmission hvalid).2)
  refine ⟨by omega, fun next hwon => ⟨applyCallCommit group commit, ?_, by omega⟩⟩
  rcases insertMlsCommit_eq_ok hwon with ⟨-, hlost⟩ | ⟨-, before, hbefore, -, -, -, -, -, -, rfl⟩
  · exact absurd rfl hlost
  · rw [hid, hget] at hbefore
    rw [← some.inj hbefore, hid, get_insert_self]

open Sample

/-- A submission of the owner that takes the guest out of the call. -/
def callRemoval : DataSubmitMlsCommit := ⟨owner.deviceId, 2, "Y29tbWl0", none, [], [guest]⟩

/-- Its commit. -/
def callEviction : MlsCommit := callCommitOf callRemoval call.id owner.userId (seconds 4)

/-- The owner adds the guest to a call of one, and takes the guest out again. -/
theorem call_ceiling_counts_roster_guest : ∃ next stored, (execAll (exec primitives) .empty
        (callOps [guest])).insertMlsCommit callEviction = .ok (next, .won) ∧
      next.mlsGroups.get call.id = some stored ∧ stored.members.length = 2 + 0 - 1 := by
  have hvalid : validateSubmission (callSubmission [guest]) = .ok () := by decide
  have hreach : Reachable (exec primitives) (fun _ op => CallRouted op) .empty
      (execAll (exec primitives) .empty (callOps [guest])) :=
    Reachable.of_admitsAll ⟨callRouted_callOps hvalid _ mem_cons_self,
      callRouted_callOps hvalid _ (mem_cons_of_mem _ mem_cons_self), trivial⟩
  obtain ⟨group, hmem, hcall, hid, hcount, hreal⟩ :
      ∃ group ∈ (execAll (exec primitives) .empty
          (callOps [guest])).mlsGroups.values,
        group.kind = .call ∧ group.id = call.id ∧ group.members.length = 2 ∧
          realRemovals group callEviction = 1 := by
    decide
  obtain ⟨-, -, h⟩ := call_ceiling_counts_roster hreach hmem hcall
  obtain ⟨-, hstored⟩ := h callRemoval callEviction (by decide) hid.symm rfl rfl
  rw [hid] at hstored
  obtain ⟨stored, hget, hlength⟩ := hstored _ rfl
  rw [hreal, hcount] at hlength
  exact ⟨_, stored, rfl, hget, hlength⟩

end SlogaBackend.Mls
