import SlogaBackend.Mls.CallRoster

/-!
# Creating a Call group on either driver

The Reference driver decides first whether a create lands. The Mongo driver closes the superseded
group, and then learns from the insert whether the id or the channel's slot is taken. The two
answer alike; what the Mongo driver refuses leaves the store as it was unless the predecessor was
closed for an id that is taken (`create_call_group_alike`, `refused_create_closes`).
-/

namespace SlogaBackend.Mls

open Checks ReferenceDb

/-! ## The Mongo driver -/

abbrev Groups := Table String MlsGroup

/-- The close of the superseded group, and the look at one that the filter did not match. -/
def closeSuperseded (groups : Groups) (group : MlsGroup) : Option String → Result Groups
  | none => .ok groups
  | some supersededId =>
    match groups.get supersededId with
    | none => .error .notFound
    | some old =>
      if old.channelId = group.channelId ∧ old.kind = group.kind ∧ old.open_ = true then
        .ok (groups.modify supersededId (supersede group))
      else if old.channelId ≠ group.channelId then
        .error (failed "superseded group belongs to another channel")
      else if old.kind ≠ group.kind then .error (failed "superseded group is of another kind")
      else .ok groups

/-- `insert_one` under the unique indexes on the id and on the open slots, and the look for the
open group after a duplicate key. -/
def insertOpenGroup (groups : Groups) (group : MlsGroup) : Groups × Result MlsGroupCreateOutcome :=
  if (groups.get group.id).isSome ∨
      (group.open_ = true ∧ groups.values.any (isOpenGroupOf group.channelId group.kind) = true)
  then
    (groups, match groups.values.find? (isOpenGroupOf group.channelId group.kind) with
      | some open_ => .ok (conflictWith open_)
      | none => .error .invalidOperation)
  else (groups.insert group.id group, .ok .created)

def mongoCreateMlsGroup (groups : Groups) (group : MlsGroup) (supersedes : Option String) :
    Groups × Result MlsGroupCreateOutcome :=
  if group.kind ≠ .call then (groups, .error .invalidOperation)
  else
    match closeSuperseded groups group supersedes with
    | .error error => (groups, .error error)
    | .ok closed => insertOpenGroup closed group

/-! ## One create -/

/-- A channel has at most one open group of each kind. -/
def SlotsUnique (groups : Groups) : Prop :=
  ∀ k₁ k₂ g₁ g₂, groups.get k₁ = some g₁ → groups.get k₂ = some g₂ → g₁.open_ = true →
    g₂.open_ = true → g₁.channelId = g₂.channelId → g₁.kind = g₂.kind → k₁ = k₂

/-- The open predecessor is closed, and the id of its successor was taken. -/
def ClosedForNothing (stored : Groups) (group : MlsGroup) (supersedes : Option String)
    (groups : Groups) : Prop :=
  (stored.get group.id).isSome ∧ ∃ supersededId old, supersedes = some supersededId ∧
    stored.get supersededId = some old ∧ old.open_ = true ∧
    groups = stored.modify supersededId (supersede group)

variable {db : ReferenceDb} {group old : MlsGroup} {supersedes : Option String}
  {supersededId : String}

/-- What a create comes to on the two drivers. -/
inductive Created (db : ReferenceDb) (group : MlsGroup) (supersedes : Option String) :
    Result (ReferenceDb × MlsGroupCreateOutcome) → Groups × Result MlsGroupCreateOutcome → Prop
  | refused (error : Error) :
    Created db group supersedes (.error error) (db.mlsGroups, .error error)
  | conflict (open_ : MlsGroup) : Created db group supersedes
      (.ok (db, conflictWith open_)) (db.mlsGroups, .ok (conflictWith open_))
  | taken {groups : Groups} (h : ClosedForNothing db.mlsGroups group supersedes groups) :
    Created db group supersedes (.error .invalidOperation) (groups, .error .invalidOperation)
  | landed {groups : Groups} (hgroup : groups.get group.id = some group)
    (hclosed : ∀ supersededId old, supersedes = some supersededId →
      db.mlsGroups.get supersededId = some old → old.open_ = true →
      groups.get supersededId = some (supersede group old)) :
    Created db group supersedes (.ok ({ db with mlsGroups := groups }, .created))
      (groups, .ok .created)

/-- Without an open predecessor the two drivers decide on the same store. -/
theorem created_fresh (hopen : group.open_ = true)
    (hcl : ∀ id old, supersedes = some id → db.mlsGroups.get id = some old → old.open_ = false) :
    Created db group supersedes (db.createFreshCall group)
      (insertOpenGroup db.mlsGroups group) := by
  unfold createFreshCall insertOpenGroup
  cases hfn : db.mlsGroups.values.find? (isOpenGroupOf group.channelId group.kind) with
  | some open_ =>
    have hany : db.mlsGroups.values.any (isOpenGroupOf group.channelId group.kind) = true :=
      any_eq_true.mpr ⟨open_, mem_of_find?_eq_some hfn, List.find?_some hfn⟩
    rw [if_pos (.inr ⟨hopen, hany⟩)]
    exact .conflict open_
  | none =>
    have hno : ¬ db.mlsGroups.values.any (isOpenGroupOf group.channelId group.kind) = true := by
      simpa using hfn
    by_cases htak : (db.mlsGroups.get group.id).isSome
    · rw [if_pos (.inl htak)]
      simp only [refuseIf, htak]
      exact .refused _
    · rw [if_neg (not_or.mpr ⟨htak, fun h => hno h.2⟩)]
      simp only [refuseIf, htak]
      refine .landed (by simp [get_insert]) fun id old hid hold hopen' => ?_
      exact absurd ((hcl id old hid hold).symm.trans hopen') (by decide)

section

variable (hslots : SlotsUnique db.mlsGroups) (hold : db.mlsGroups.get supersededId = some old)
  (hch : old.channelId = group.channelId) (hkn : old.kind = group.kind) (hopen : old.open_ = true)
include hslots hold hch hkn hopen

/-- Once the only open group of its slot is closed, nothing but the id refuses the successor. -/
theorem find?_closed : (db.mlsGroups.modify supersededId (supersede group)).values.find?
      (isOpenGroupOf group.channelId group.kind) = none := by
  refine List.find?_eq_none.mpr fun other hoth hsl => ?_
  obtain ⟨k, hg⟩ := mem_values.mp hoth
  simp only [isOpenGroupOf, and_eq_true, beq_iff_eq] at hsl
  rw [get_modify] at hg
  split at hg
  · rename_i hk
    rw [hk, hold] at hg
    cases hg
    cases hsl.2
  · rename_i hk
    exact hk (hslots _ _ _ _ hg hold hsl.2 hopen (hsl.1.1.trans hch.symm) (hsl.1.2.trans hkn.symm))

/-- With its predecessor closed the successor lands unless its id is taken. -/
theorem created_superseding :
    insertOpenGroup (db.mlsGroups.modify supersededId (supersede group)) group =
      if (db.mlsGroups.get group.id).isSome then
        (db.mlsGroups.modify supersededId (supersede group), .error .invalidOperation)
      else ((db.mlsGroups.modify supersededId (supersede group)).insert group.id group,
        .ok .created) := by
  have hno := find?_closed hslots hold hch hkn hopen
  have hany : ¬ (db.mlsGroups.modify supersededId (supersede group)).values.any
      (isOpenGroupOf group.channelId group.kind) = true := by
    simpa using hno
  have htak : ((db.mlsGroups.modify supersededId (supersede group)).get group.id).isSome =
      (db.mlsGroups.get group.id).isSome := by
    rw [get_modify]
    split <;> simp
  rw [insertOpenGroup, hno, htak]
  simp only [hany, Bool.false_eq_true, and_false, or_false]

end

theorem created_createMlsGroup (hslots : SlotsUnique db.mlsGroups) (hopen : group.open_ = true) :
    Created db group supersedes (db.createMlsGroup group supersedes)
      (mongoCreateMlsGroup db.mlsGroups group supersedes) := by
  unfold createMlsGroup mongoCreateMlsGroup
  by_cases hca : group.kind ≠ .call
  · simp only [refuseIf, if_pos hca]
    exact .refused _
  simp only [refuseIf, if_neg hca]
  cases supersedes with
  | none => exact created_fresh hopen nofun
  | some supersededId =>
    simp only [callSuperseded, closeSuperseded]
    cases hold : db.mlsGroups.get supersededId with
    | none => exact .refused _
    | some old =>
      dsimp only
      by_cases hch : old.channelId = group.channelId
      · by_cases hkn : old.kind = group.kind
        · rw [if_neg (not_not.mpr hch), if_neg (not_not.mpr hkn)]
          by_cases holdOpen : old.open_ = true
          · have hmat : old.channelId = group.channelId ∧ old.kind = group.kind ∧
                old.open_ = true := ⟨hch, hkn, holdOpen⟩
            rw [if_neg (by simp [holdOpen]), if_pos hmat]
            dsimp only
            rw [created_superseding hslots hold hch hkn holdOpen]
            cases hid : db.mlsGroups.get group.id with
            | some other =>
              exact .taken ⟨by rw [hid]; rfl, supersededId, old, rfl, hold, holdOpen, rfl⟩
            | none =>
              refine .landed (by simp [get_insert]) fun id old' hsm hold' _ => ?_
              cases hsm
              have hne : supersededId ≠ group.id := by
                rintro rfl
                cases hold.symm.trans hid
              rw [get_insert, if_neg hne, get_modify, if_pos rfl, hold']
              rfl
          · rw [if_pos (by simpa using holdOpen), if_neg (fun h => holdOpen h.2.2),
              if_neg (not_not.mpr hch), if_neg (not_not.mpr hkn)]
            refine created_fresh hopen fun id other hid hoth => ?_
            cases hid
            cases hold.symm.trans hoth
            simpa using holdOpen
        · rw [if_neg (not_not.mpr hch), if_pos hkn, if_neg (fun h => hkn h.2.1),
            if_neg (not_not.mpr hch), if_pos hkn]
          exact .refused _
      · rw [if_pos hch, if_neg (fun h => hch h.1), if_pos hch]
        exact .refused _

/-- **The drivers answer a create alike.** On a store with one open group to a slot, a group
created open meets the same outcome on both. A create that lands leaves the same records: the
group, and its open predecessor closed in its favour. One that does not land changes nothing on
the Reference driver; on the Mongo driver it changes nothing, or it answers `InvalidOperation` and
has closed the open predecessor of a group whose id was taken. -/
theorem create_call_group_alike (hslots : SlotsUnique db.mlsGroups) (hopen : group.open_ = true) :
    (db.createMlsGroup group supersedes).map Prod.snd =
      (mongoCreateMlsGroup db.mlsGroups group supersedes).2 ∧
    (∀ next, db.createMlsGroup group supersedes = .ok (next, .created) →
      next.mlsGroups = (mongoCreateMlsGroup db.mlsGroups group supersedes).1 ∧
      next.mlsGroups.get group.id = some group ∧
      ∀ supersededId old, supersedes = some supersededId →
        db.mlsGroups.get supersededId = some old → old.open_ = true →
        ∃ closed, next.mlsGroups.get supersededId = some closed ∧ closed.open_ = false ∧
          closed.supersededBy = some group.id) ∧
    (∀ next outcome, db.createMlsGroup group supersedes = .ok (next, outcome) →
      outcome ≠ .created → next = db) ∧
    ((mongoCreateMlsGroup db.mlsGroups group supersedes).2 ≠ .ok .created →
      (mongoCreateMlsGroup db.mlsGroups group supersedes).1 = db.mlsGroups ∨
      (mongoCreateMlsGroup db.mlsGroups group supersedes).2 = .error .invalidOperation ∧
        ClosedForNothing db.mlsGroups group supersedes
          (mongoCreateMlsGroup db.mlsGroups group supersedes).1) := by
  have h : Created db group supersedes _ _ := created_createMlsGroup hslots hopen
  generalize db.createMlsGroup group supersedes = reference at h
  generalize mongoCreateMlsGroup db.mlsGroups group supersedes = mongo at h
  cases h with
  | refused error => exact ⟨rfl, nofun, nofun, fun _ => .inl rfl⟩
  | conflict open_ =>
    refine ⟨rfl, fun next hnext => ?_, fun next outcome hnext _ => ?_, fun _ => .inl rfl⟩
    · cases (Prod.mk.inj (ok.inj hnext)).2
    · exact (Prod.mk.inj (ok.inj hnext)).1.symm
  | taken hclosed => exact ⟨rfl, nofun, nofun, fun _ => .inr ⟨rfl, hclosed⟩⟩
  | landed hgroup hclosed =>
    refine ⟨rfl, fun next hnext => ?_, fun next outcome hnext hne => ?_, fun h => absurd rfl h⟩
    · obtain rfl := (Prod.mk.inj (ok.inj hnext)).1
      exact ⟨rfl, hgroup, fun id old hid hold hopen' =>
        ⟨supersede group old, hclosed id old hid hold hopen', rfl, rfl⟩⟩
    · exact absurd (Prod.mk.inj (ok.inj hnext)).2.symm hne

/-! ## A call and its successor -/

open Sample

/-- A call was opened. -/
def callStore : ReferenceDb := (exec primitives .empty (.createMlsGroup call none)).1

def successor : MlsGroup := { call with id := groupId }

theorem create_call_group_alike_successor :
    (mongoCreateMlsGroup callStore.mlsGroups successor
      (some call.id)).2 = .ok .created ∧
    ∃ closed, (mongoCreateMlsGroup callStore.mlsGroups successor
      (some call.id)).1.get call.id = some closed ∧ closed.open_ = false := by
  have hslots : SlotsUnique callStore.mlsGroups :=
    (coherent_exec (.createMlsGroup call none) (coherent_empty primitives)).open_unique
  obtain ⟨houtcome, hcreated, -⟩ := @create_call_group_alike _ successor (some call.id) hslots rfl
  obtain ⟨hsame, -, hclosed⟩ := hcreated _ rfl
  obtain ⟨closed, hget, hopen, -⟩ := hclosed _ call rfl (by decide) rfl
  exact ⟨houtcome.symm, closed, hsame ▸ hget, hopen⟩

/-- Beside the call, one of another channel has the id of its successor. -/
def twoCalls : Groups :=
  callStore.mlsGroups.insert groupId { call with id := groupId, channelId := serverId }

/-- **A refused create closes a group.** The Mongo driver answers `InvalidOperation` to a create
whose id is taken, and the call that was to be superseded is closed. -/
theorem refused_create_closes :
    (mongoCreateMlsGroup twoCalls successor (some call.id)).2 =
      .error .invalidOperation ∧
    (mongoCreateMlsGroup twoCalls successor (some call.id)).1 ≠
      twoCalls := by
  refine ⟨rfl, fun h => ?_⟩
  have hget := congrArg (fun groups => (Table.get groups call.id).map (·.open_)) h
  revert hget
  decide

end SlogaBackend.Mls
