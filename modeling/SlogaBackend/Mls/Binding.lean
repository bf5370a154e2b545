import SlogaBackend.Mls.Coherence

/-!
# Open slots and the seat-list binding

The open slot of a channel and a kind is held by at most one group, `closedAt` is
the other face of `open_`, and an open Text group is bound to the newest list of its
channel.

The first and the last hold whatever is called with whatever arguments. The middle
one always holds of Text groups, which the driver prepares itself. A Call group is
stored as it is handed to the create, so it must itself be open exactly when it is not
closed, which the route that builds it sees to.
-/

namespace SlogaBackend.Mls

open ReferenceDb

variable {prim : Primitives} {db next : ReferenceDb} {op : Op} {admits : ReferenceDb → Op → Prop}

/-- The group handed to a Call create is open exactly when it is not closed. -/
def CreatesOpenOrClosed (op : Op) : Prop :=
  ∀ group supersedes, op = .createMlsGroup group supersedes →
    (group.open_ = true ↔ group.closedAt = none)

/-- `closedAt` is the other face of `open_`, for Text groups and, under the condition, for all. -/
def ClosedAtAgrees (calls : Prop) (db : ReferenceDb) : Prop :=
  ∀ k group, db.mlsGroups.get k = some group → group.kind = .text ∨ calls →
    (group.open_ = true ↔ group.closedAt = none)

theorem closedAtAgrees_step {calls : Prop} (h : Step prim db op next) (hk : GroupsKeyed db)
    (hop : calls → CreatesOpenOrClosed op) (hi : ClosedAtAgrees calls db) :
    ClosedAtAgrees calls next := by
  intro k g' hget hkind
  have hst := h.group hk k
  rw [hget] at hst
  generalize hrow : some g' = row at hst
  cases hst with
  | same => exact hi k g' hrow.symm hkind
  | bound _ _ _ hold | pended hold _ | callCommitted hold _ _ _ | textCommitted hold _ _ =>
    rw [some.inj hrow] at hkind ⊢
    exact (hi _ _ hold hkind :)
  | superseded _ _ =>
    rw [some.inj hrow]
    simp [supersede]
  | createdText hcreate =>
    rw [some.inj hrow, hcreate.is_prepared.open_eq, hcreate.is_prepared.closed_eq]
    exact ⟨fun _ => rfl, fun _ => rfl⟩
  | createdCall hcreate =>
    rw [some.inj hrow] at hkind ⊢
    rcases hkind with htext | hcalls
    · cases htext.symm.trans hcreate.kind_call
    · exact hop hcalls _ _ rfl
  | closed _ _ =>
    rw [some.inj hrow]
    simp
  | _ => cases hrow

theorem closedAtAgrees_of_reachable (h : Reachable (exec prim) admits .empty db) :
    ClosedAtAgrees (∀ s op, admits s op → CreatesOpenOrClosed op) db := by
  refine (h.invariant (P := fun s => Coherent prim s ∧
      ClosedAtAgrees (∀ s op, admits s op → CreatesOpenOrClosed op) s)
    (fun s op hop hs => ⟨coherent_exec op hs.1, ?_⟩)
    ⟨coherent_empty prim, fun k g hg => absurd hg (by simp [ReferenceDb.empty])⟩).2
  exact closedAtAgrees_step (step_exec prim s op) hs.1.groups_keyed (fun hall => hall s op hop) hs.2

/-- **Open slots and the binding.** In every reachable store a channel has at most one
open group of each kind, an open Text group carries the hash of the list stored for its channel,
and a Text group is open exactly when it has no closing time, as any group is where the Call groups
are created so. -/
theorem open_slots_and_binding (h : Reachable (exec prim) admits .empty db) :
    (∀ g₁ ∈ db.mlsGroups.values, ∀ g₂ ∈ db.mlsGroups.values, g₁.open_ = true → g₂.open_ = true →
      g₁.channelId = g₂.channelId → g₁.kind = g₂.kind → g₁ = g₂) ∧
    (∀ g ∈ db.mlsGroups.values, g.kind = .text ∨ (∀ s op, admits s op → CreatesOpenOrClosed op) →
      (g.open_ = true ↔ g.closedAt = none)) ∧
    (∀ g ∈ db.mlsGroups.values, g.open_ = true → g.kind = .text →
      ∃ list sha256, db.channelSeatLists.get g.channelId = some list ∧
        list.commitAdSha256 prim = .ok sha256 ∧ g.seatListAdSha256 = some sha256) := by
  obtain ⟨history, hrun⟩ := h
  have hc : Coherent prim db := coherent_of_run hrun
  refine ⟨fun g₁ hg₁ g₂ hg₂ ho₁ ho₂ hch hkind => ?_, fun g hg => ?_, fun g hg ho hk => ?_⟩
  · have h₁ := hc.groups_keyed.get_of_mem hg₁
    have h₂ := hc.groups_keyed.get_of_mem hg₂
    rw [hc.open_unique _ _ g₁ g₂ h₁ h₂ ho₁ ho₂ hch hkind, h₂] at h₁
    exact (some.inj h₁).symm
  · exact closedAtAgrees_of_reachable ⟨history, hrun⟩ g.id g (hc.groups_keyed.get_of_mem hg)
  · exact hc.bound g.id g (hc.groups_keyed.get_of_mem hg) ho hk

open Sample

/-- The sample store is reachable by Call creates of open groups alone. -/
theorem opened_reachable :
    Reachable (exec primitives) (fun _ op => CreatesOpenOrClosed op) .empty
      openedStore := by
  have hprot : Reachable (exec primitives) (fun _ op => CreatesOpenOrClosed op) .empty
      protectedStore := by
    rw [← protect_run]
    refine Reachable.of_admitsAll ⟨?_, ?_, ?_, trivial⟩
    all_goals exact fun group supersedes h => absurd h (by simp)
  have hst := hprot.step (i := .createTextMlsGroup group none)
    (fun group supersedes h => absurd h (by simp))
  rw [create_step] at hst
  exact hst

/-- The sample Text group is open, and bound to the genesis list. -/
theorem open_slots_and_binding_opened :
    (openedGroup.open_ = true ↔ openedGroup.closedAt = none) ∧
    ∃ list sha256, openedStore.channelSeatLists.get channelId = some list ∧
      list.commitAdSha256 primitives = .ok sha256 ∧
      openedGroup.seatListAdSha256 = some sha256 :=
  have hall := open_slots_and_binding opened_reachable
  ⟨hall.2.1 openedGroup (by decide) (.inr fun _ _ hop => hop),
    hall.2.2 openedGroup (by decide) rfl rfl⟩

/-- The driver stores an open Call group with a closing time, if it is handed one. -/
theorem open_group_with_a_closing_time : ¬∀ (prim : Primitives) (db : ReferenceDb),
    Reachable (exec prim) (fun _ _ => True) .empty db →
      ∀ g ∈ db.mlsGroups.values, (g.open_ = true ↔ g.closedAt = none) := by
  intro hall
  have hagree := hall primitives _ (Reachable.of_admitsAll (admitsAll_true
    [.createMlsGroup { group with kind := .call, closedAt := some (.seconds 1) } none]))
  exact absurd hagree (by decide)

/-! ## Successors -/

/-- The successors of a Text group lead to an open one of the channel. -/
inductive LeadsToOpen (db : ReferenceDb) (c : String) : String → Prop where
  | here {k : String} {g : MlsGroup} : db.mlsGroups.get k = some g →
      isOpenTextGroupOf c g = true → LeadsToOpen db c k
  | next {k k' : String} {g : MlsGroup} : db.mlsGroups.get k = some g → g.kind = .text →
      g.channelId = c → g.supersededBy = some k' → LeadsToOpen db c k' → LeadsToOpen db c k

/-- Two rows of a group that lead on alike. -/
def LeadsAlike (g g' : MlsGroup) : Prop :=
  g'.kind = g.kind ∧ g'.channelId = g.channelId ∧ g'.open_ = g.open_ ∧
    g'.supersededBy = g.supersededBy

variable {k c : String} {g : MlsGroup}

/-- **A Text group stays**, and only a successor closes it. -/
theorem Step.text (h : Step prim db op next) (hk : GroupsKeyed db)
    (hdel : op ≠ .deleteProtectedChannelData g.channelId) (hget : db.mlsGroups.get k = some g)
    (htx : g.kind = .text) : (∃ g', next.mlsGroups.get k = some g' ∧ LeadsAlike g g') ∨
      ∃ successor prepared, next.mlsGroups.get k = some (supersede successor g) ∧
        next.mlsGroups.get successor.id = some prepared ∧
        isOpenTextGroupOf g.channelId prepared = true := by
  have hsm : LeadsAlike g g := ⟨rfl, rfl, rfl, rfl⟩
  have hne : ∀ {id old}, db.mlsGroups.get id = some old → old.kind = .call → k ≠ id := by
    rintro id old hold hcl rfl
    rw [hget, some.injEq] at hold
    cases htx.symm.trans (hold ▸ hcl)
  cases h with
  | same | environment _ | grant _ _ | intent _ | prune _ => exact .inl ⟨g, hget, hsm⟩
  | @listWrite _ input plan channels hop hpl =>
    refine .inl ?_
    show ∃ g', (modifyGroup db.mlsGroups _ _).get k = some g' ∧ _
    cases db.openTextGroup input.channelId with
    | none => exact ⟨g, hget, hsm⟩
    | some group =>
      rw [map_some, modifyGroup, get_modify]
      split
      · rename_i hid
        subst hid
        rw [hget]
        exact ⟨_, rfl, hsm⟩
      · exact ⟨g, hget, hsm⟩
  | @createText group prepared supersedes list squat hc =>
    have hpr := hc.is_prepared
    have hfr : k ≠ prepared.id := by
      rintro rfl
      rcases hc.id_free with ⟨-, hno⟩ | ⟨-, taken, htak, hcl⟩
      · cases hget.symm.trans hno
      · exact hne htak hcl rfl
    have hold := (get_evictSquat_of_ne hfr squat).trans hget
    unfold insertTextGroup
    rw [get_insert, if_neg hfr]
    cases supersedes with
    | none => exact .inl ⟨g, hold, hsm⟩
    | some id =>
      rw [modifyGroup, get_modify]
      split
      · rename_i hid
        subst hid
        obtain ⟨old, hg, -, hch⟩ := hc.superseded k rfl
        obtain rfl := some.inj (hget.symm.trans hg)
        rw [hold, map_some]
        split
        · refine .inr ⟨group, prepared, rfl, hpr.id_eq ▸ get_insert_self, ?_⟩
          exact isOpenTextGroupOf_iff.mpr ⟨hpr.channel_eq.trans hch.symm, hpr.open_eq, hpr.kind_eq⟩
        · exact .inl ⟨g, rfl, hsm⟩
      · exact .inl ⟨g, hold, hsm⟩
  | @release userId serverId now cooldownUntil hcl =>
    refine .inl ?_
    rw [get_mapValues, hget, map_some]
    refine ⟨_, rfl, ?_⟩
    split <;> exact hsm
  | delete channelId =>
    refine .inl ⟨g, get_retain_eq_some.mpr ⟨hget, ?_⟩, hsm⟩
    have hno : k ∉ db.textGroupIds channelId := by
      intro hmem
      obtain ⟨group, hg, hch, -⟩ := (mem_textGroupIds hk).mp hmem
      rw [hget, some.injEq] at hg
      exact hdel (hch ▸ hg ▸ rfl)
    simp [hno]
  | @createCall group supersedes closed hc =>
    refine .inl ⟨g, ?_, hsm⟩
    have hfr : k ≠ group.id := by
      rintro rfl
      cases hget.symm.trans hc.id_free
    rw [get_insert, if_neg hfr]
    rcases hc.slot with ⟨rfl, -⟩ | ⟨id, old, rfl, hold, -, hkn, -⟩
    · exact hget
    · rw [modifyGroup, get_modify, if_neg (hne hold (hkn.trans hc.kind_call)), hget]
  | close hg hkn | callCommit hg hkn _ _ _ _ _ =>
    refine .inl ⟨g, ?_, hsm⟩
    rw [get_insert, if_neg (hne hg hkn), hget]
  | @textCommit commit adSha256 cap group list signed plan hrow hg hls hacc =>
    refine .inl ?_
    rw [get_insert]
    split
    · rename_i hid
      rw [← hid, hget, some.injEq] at hg
      exact hg ▸ ⟨_, rfl, hsm⟩
    · exact ⟨g, hget, hsm⟩
  | sweep closedThreshold createdThreshold =>
    refine .inl ⟨g, ?_, hsm⟩
    unfold sweepMlsGroups
    rw [get_eraseAll, if_neg, hget]
    intro hmem
    obtain ⟨group, hg, hcl⟩ := mem_sweptIds hk hmem
    exact hne hg hcl rfl

theorem leadsToOpen_step (h : Step prim db op next) (hk : GroupsKeyed db)
    (hdel : op ≠ .deleteProtectedChannelData c) (hld : LeadsToOpen db c k) :
    LeadsToOpen next c k := by
  induction hld with
  | here hget hopn =>
    obtain ⟨rfl, hon, htx⟩ := isOpenTextGroupOf_iff.mp hopn
    rcases h.text hk hdel hget htx with ⟨g', hg', hkn, hch, hon', -⟩ | ⟨s, p, hg', hnx, hp⟩
    · exact .here hg' (isOpenTextGroupOf_iff.mpr ⟨hch, hon'.trans hon, hkn.trans htx⟩)
    · exact .next hg' htx rfl rfl (.here hnx hp)
  | next hget htx hch hsuc _ ih =>
    subst hch
    rcases h.text hk hdel hget htx with ⟨g', hg', hkn, hch, -, hsuc'⟩ | ⟨s, p, hg', hnx, hp⟩
    · exact .next hg' (hkn.trans htx) hch (hsuc'.trans hsuc) ih
    · exact .next hg' htx rfl rfl (.here hnx hp)

/-- **A Text group that was open leads to the one that is**, over every run that does not delete the
data of the channel. -/
theorem text_groups_lead_to_open {h h' : List (ReferenceDb × Op)}
    (hrun : Run (exec prim) admits .empty h db)
    (hrun' : Run (exec prim) (fun _ op => op ≠ .deleteProtectedChannelData c) db h' next)
    (hopn : db.openTextGroup c = some g) : LeadsToOpen next c g.id := by
  have hc : Coherent prim db := coherent_of_run hrun
  have hbt : Coherent prim next ∧ LeadsToOpen next c g.id := by
    refine hrun'.invariant (P := fun s => Coherent prim s ∧ LeadsToOpen s c g.id)
      (fun s op hdel hs => ⟨coherent_exec op hs.1, ?_⟩) ⟨hc, ?_⟩
    · exact leadsToOpen_step (step_exec prim s op) hs.1.groups_keyed hdel hs.2
    · exact .here (openTextGroup_eq_some hc.groups_keyed hopn).1 (List.find?_some hopn)
  exact hbt.2

theorem text_groups_lead_to_open_successor : LeadsToOpen (exec primitives openedStore
    (.createTextMlsGroup { group with id := genesisSha256, generation := some 1 }
      groupId)).1 channelId groupId := by
  obtain ⟨h, hrun⟩ := opened_reachable
  have hopn : openedStore.openTextGroup channelId = some openedGroup := by
    decide
  exact text_groups_lead_to_open hrun (.cons (by simp) (.nil _)) hopn

end SlogaBackend.Mls
