import Mathlib.Data.List.Nodup
import Mathlib.Data.List.NodupEquivFin
import SlogaBackend.Lib.Runs
import SlogaBackend.Permissions.IterationOrder

/-!
# Roles of a server

A role is created below the lowest role, deleted from anywhere, and all roles are put in order
at once. The rank of a new role is the number of roles, and that is below the lowest role only
while the ranks are the first numbers with none left out: a deletion leaves a gap, and the
second role made over the gap has the rank of one that is there.

`create_below_iff` says when exactly a new role ranks below every role. The ranks stay distinct
in every run that creates roles only where there is no gap (`role_ranks_strict`).
-/

namespace SlogaBackend.Permissions

/-! ## Operations -/

/-- The number of roles, `roles.len()`. -/
def Server.roleCount (server : Server) : Nat := server.roles.rows.entries.length

/-- A new role, below the lowest role. -/
def Role.create (server : Server) (id name : String) : Role := ⟨id, name, .empty, server.roleCount⟩

def Server.insertRole (server : Server) (role : Role) : Server :=
  { server with roles := server.roles.put role }

def Server.removeRole (id : String) (server : Server) : Server :=
  { server with roles := server.roles.deleteOne id }

theorem Server.removeRole_id (id : String) (server : Server) :
    (server.removeRole id).id = server.id := rfl

def Role.withRank (rank : Int) (role : Role) : Role := { role with rank := rank }

theorem Role.withRank_id (rank : Int) (role : Role) : (role.withRank rank).id = role.id := rfl

/-- Give every role of the order its position as rank. -/
def setRanks (roles : Collection Role.id) (order : List (String × Nat)) : Collection Role.id :=
  order.foldl (fun roles entry =>
    (roles.updateOne entry.1 (fun _ => true) (Role.withRank entry.2) (Role.withRank_id _)).1) roles

def Server.setRoleOrdering (server : Server) (newOrder : List String) : Server :=
  { server with roles := setRanks server.roles newOrder.zipIdx }

/-- `edit_role_ranks` accepts an order of all roles. -/
def Server.acceptsOrder (server : Server) (newOrder : List String) : Bool :=
  newOrder.length == server.roleCount && server.roles.rows.keys.all newOrder.contains

inductive RoleEvent where
  | create (id name : String)
  | delete (id : String)
  | setRoleOrdering (newOrder : List String)

/-- One operation on the roles of a server. What is refused changes nothing. -/
def execRole (server : Server) : RoleEvent → Server × Result Unit
  | .create id name => (server.insertRole (Role.create server id name), .ok ())
  | .delete id =>
    match server.roles.findOne id with
    | some _ => (server.removeRole id, .ok ())
    | none => (server, .error .notFound)
  | .setRoleOrdering newOrder =>
    if server.acceptsOrder newOrder then (server.setRoleOrdering newOrder, .ok ())
    else (server, .error .invalidOperation)

/-- The id of a new role is new. -/
def Fresh (server : Server) : RoleEvent → Prop
  | .create id _ => server.roles.findOne id = none
  | _ => True

instance (server : Server) : ∀ event, Decidable (Fresh server event)
  | .create _ _ => inferInstanceAs (Decidable (_ = _))
  | .delete _ => isTrue trivial
  | .setRoleOrdering _ => isTrue trivial

/-! ## Ranks -/

def Server.ranks (server : Server) : List Int := server.roles.rows.values.map Role.rank

/-- Every number below the number of roles is the rank of one. -/
def Server.GapFree (server : Server) : Prop := ∀ k < server.roleCount, (k : Int) ∈ server.ranks

instance (server : Server) : Decidable server.GapFree := inferInstanceAs (Decidable (∀ k < _, _))

theorem length_ranks (server : Server) : server.ranks.length = server.roleCount := by
  unfold Server.ranks Table.values Server.roleCount
  rw [length_map, length_map]

variable {server : Server}

theorem mem_ranks {rank : Int} :
    rank ∈ server.ranks ↔ ∃ id role, server.roles.findOne id = some role ∧ role.rank = rank := by
  unfold Server.ranks
  rw [mem_map]
  constructor
  · rintro ⟨role, hrl, rfl⟩
    obtain ⟨id, hid⟩ := mem_values.mp hrl
    exact ⟨id, role, hid, rfl⟩
  · rintro ⟨id, role, hid, rfl⟩
    exact ⟨role, mem_values_of_get hid, rfl⟩

theorem nodup_ranks_iff : server.ranks.Nodup ↔ server.DistinctRanks := by
  unfold Server.ranks Table.values Server.DistinctRanks List.Nodup
  rw [pairwise_map, pairwise_map]

theorem distinctRanks_of_get
    (h : ∀ id id' role role', server.roles.findOne id = some role → server.roles.findOne id' = some role' →
      role.rank = role'.rank → id = id') : server.DistinctRanks := by
  refine (List.nodupKeys_iff_pairwise.mp server.roles.rows.nodupKeys).imp_of_mem ?_
  intro a b ha hb hne heq
  exact hne (h a.1 b.1 a.2 b.2 (get_eq_some_iff.mpr ha) (get_eq_some_iff.mpr hb) heq)

/-- What the ranks of a server are in a run: distinct, and none negative. -/
structure Server.Ranked (server : Server) : Prop where
  distinct : server.DistinctRanks
  nonneg : ∀ rank ∈ server.ranks, 0 ≤ rank

/-- Lists without repetitions that are of one length cover each other or neither does. -/
theorem subset_of_subset_of_length {l l' : List Int} (hnod : l.Nodup)
    (hlen : l'.length ≤ l.length) (h : l ⊆ l') : l' ⊆ l :=
  ((List.subperm_of_subset hnod h).perm_of_length_le hlen).symm.subset

/-- **When a new role ranks below every role**: just when there is no gap. -/
theorem create_below_iff (h : server.Ranked) (id name : String) :
    (∀ rank ∈ server.ranks, rank < (Role.create server id name).rank) ↔ server.GapFree := by
  have hlen : server.ranks.length = ((List.range server.roleCount).map Int.ofNat).length := by
    rw [length_ranks, length_map, List.length_range]
  have hnod : ((List.range server.roleCount).map Int.ofNat).Nodup :=
    List.nodup_range.map fun _ _ => Int.ofNat.inj
  have hgap : server.GapFree ↔ (List.range server.roleCount).map Int.ofNat ⊆ server.ranks := by
    unfold Server.GapFree
    simp [List.subset_def]
  have hbel : (∀ rank ∈ server.ranks, rank < (server.roleCount : Int)) ↔
      server.ranks ⊆ (List.range server.roleCount).map Int.ofNat := by
    refine forall₂_congr fun rank hrn => ?_
    have hnon := h.nonneg rank hrn
    simp
    constructor
    · exact fun hlt => ⟨rank.toNat, by omega, Int.toNat_of_nonneg hnon⟩
    · rintro ⟨k, hk, rfl⟩
      exact Int.ofNat_lt.mpr hk
  show (∀ rank ∈ server.ranks, rank < (server.roleCount : Int)) ↔ _
  rw [hbel, hgap]
  constructor
  · exact subset_of_subset_of_length (nodup_ranks_iff.mpr h.distinct) hlen.ge
  · exact subset_of_subset_of_length hnod hlen.le

/-! ## What each operation does to the ranks -/

theorem ranked_create (h : server.Ranked) {id name : String} (hfr : server.roles.findOne id = none)
    (hbel : ∀ rank ∈ server.ranks, rank < (Role.create server id name).rank) :
    (server.insertRole (Role.create server id name)).Ranked := by
  have hran : (server.insertRole (Role.create server id name)).ranks =
      (Role.create server id name).rank :: server.ranks := by
    show (server.roles.rows.insert id (Role.create server id name)).values.map Role.rank = _
    rw [Table.values_insert_of_get_none hfr, map_cons]
    rfl
  refine ⟨?_, ?_⟩
  · rw [← nodup_ranks_iff, hran, nodup_cons]
    exact ⟨fun hmem => lt_irrefl _ (hbel _ hmem), nodup_ranks_iff.mpr h.distinct⟩
  · rw [hran]
    intro rank hrn
    rcases mem_cons.mp hrn with rfl | hmem
    · exact Int.natCast_nonneg _
    · exact h.nonneg rank hmem

theorem ranked_remove (h : server.Ranked) (id : String) : (server.removeRole id).Ranked := by
  have hg : ∀ {id' role}, (server.removeRole id).roles.findOne id' = some role →
      server.roles.findOne id' = some role :=
    Table.forall_erase (P := fun k v => server.roles.findOne k = some v) (fun _ _ hk => hk) _ _
  refine ⟨distinctRanks_of_get ?_, ?_⟩
  · intro id1 id2 role role' hrl hrl' heq
    by_contra hne
    exact h.distinct.rank_ne (hg hrl) (hg hrl') hne heq
  · intro rank hrn
    obtain ⟨id', role, hrl, rfl⟩ := mem_ranks.mp hrn
    exact h.nonneg _ (mem_ranks.mpr ⟨id', role, hg hrl, rfl⟩)

theorem get_setRanks {order : List String} (hnod : order.Nodup) (k : Nat)
    (roles : Collection Role.id) (id : String) : (setRanks roles (order.zipIdx k)).findOne id =
      if id ∈ order then (roles.findOne id).map (Role.withRank ((order.idxOf id + k : Nat) : Int))
      else roles.findOne id := by
  induction order generalizing k roles with
  | nil => rfl
  | cons first order ih =>
    rw [nodup_cons] at hnod
    show (setRanks (roles.updateOne first (fun _ => true) (Role.withRank k) (Role.withRank_id _)).1
      (order.zipIdx (k + 1))).findOne id = _
    rw [ih hnod.2, Collection.findOne_updateOne]
    by_cases hfst : id = first
    · subst hfst
      simp [hnod.1]
    · rw [if_neg hfst, List.idxOf_cons_ne order (Ne.symm hfst)]
      have hpos : order.idxOf id + 1 + k = order.idxOf id + (k + 1) := by omega
      simp only [mem_cons, hfst, false_or, Nat.succ_eq_add_one, hpos]

variable {newOrder : List String}

theorem perm_of_acceptsOrder (h : server.acceptsOrder newOrder = true) :
    server.roles.rows.keys.Perm newOrder := by
  unfold Server.acceptsOrder at h
  rw [and_eq_true, beq_iff_eq, all_eq_true] at h
  have hsub : server.roles.rows.keys ⊆ newOrder := fun id hid => contains_iff_mem.mp (h.2 id hid)
  have hlen : newOrder.length ≤ server.roles.rows.keys.length := by
    rw [h.1]
    exact le_of_eq (length_map _).symm
  exact (List.subperm_of_subset server.roles.rows.keys_nodup hsub).perm_of_length_le hlen

theorem ranked_setRoleOrdering (h : server.acceptsOrder newOrder = true) :
    (server.setRoleOrdering newOrder).Ranked := by
  have hpr := perm_of_acceptsOrder h
  have hnod : newOrder.Nodup := hpr.nodup_iff.mp server.roles.rows.keys_nodup
  -- every role of the server is in the order, so that each got its position
  have hrn : ∀ {id role}, (server.setRoleOrdering newOrder).roles.findOne id = some role →
      id ∈ newOrder ∧ role.rank = (newOrder.idxOf id : Nat) := by
    intro id role hrl
    have hg := get_setRanks hnod 0 server.roles id
    rw [show (setRanks server.roles newOrder.zipIdx).findOne id = some role from hrl] at hg
    by_cases hid : id ∈ newOrder
    · rw [if_pos hid] at hg
      obtain ⟨old, _, rfl⟩ := map_eq_some_iff.mp hg.symm
      exact ⟨hid, rfl⟩
    · rw [if_neg hid] at hg
      exact absurd (hpr.subset (mem_keys_of_get hg.symm)) hid
  refine ⟨distinctRanks_of_get ?_, ?_⟩
  · intro id id' role role' hrl hrl' heq
    obtain ⟨hid, hr⟩ := hrn hrl
    obtain ⟨_, hr'⟩ := hrn hrl'
    rw [hr, hr', Int.natCast_inj] at heq
    exact (List.idxOf_inj hid).mp heq
  · intro rank hmem
    obtain ⟨id, role, hrl, rfl⟩ := mem_ranks.mp hmem
    rw [(hrn hrl).2]
    exact Int.natCast_nonneg _

/-! ## Runs -/

/-- A role is created only where there is no gap. -/
def CreatesWithoutGap (server : Server) : RoleEvent → Prop
  | .create id _ => server.roles.findOne id = none ∧ server.GapFree
  | _ => True

instance (server : Server) : ∀ event, Decidable (CreatesWithoutGap server event)
  | .create _ _ => inferInstanceAs (Decidable (_ ∧ _))
  | .delete _ => isTrue trivial
  | .setRoleOrdering _ => isTrue trivial

theorem ranked_execRole {event : RoleEvent} (hadm : CreatesWithoutGap server event)
    (h : server.Ranked) : (execRole server event).1.Ranked := by
  cases event with
  | create id name => exact ranked_create h hadm.1 ((create_below_iff h id name).mpr hadm.2)
  | delete id =>
    unfold execRole
    dsimp only
    cases server.roles.findOne id with
    | none => exact h
    | some _ => exact ranked_remove h id
  | setRoleOrdering newOrder =>
    unfold execRole
    dsimp only
    split
    · rename_i hacc
      exact ranked_setRoleOrdering hacc
    · exact h

theorem ranked_of_roleless (h : server.roles = Collection.empty) : server.Ranked := by
  refine ⟨?_, ?_⟩
  · unfold Server.DistinctRanks
    rw [h]
    exact List.Pairwise.nil
  · unfold Server.ranks
    rw [h]
    exact fun rank hmem => absurd hmem not_mem_nil

/-- **Ranks are a strict order**, in every run from a server without roles in which a role is
created only where there is no gap: they are distinct, every role that was created ranked below
those that were there, and what is calculated does not depend on an iteration order. -/
theorem role_ranks_strict {server final : Server} {history : List (Server × RoleEvent)}
    (hroleless : server.roles = Collection.empty) (hrun : Run execRole CreatesWithoutGap server history final) :
    final.DistinctRanks ∧
    (∀ before id name, (before, RoleEvent.create id name) ∈ history →
      ∀ rank ∈ before.ranks, rank < (Role.create before id name).rank) ∧
    (∀ final', final.Agrees final' →
      (∀ db user, serverPermissions db user final = serverPermissions db user final') ∧
      ∀ (db db' : Database) (user : User) (channel channel' : Channel),
        (DatabasePermissionQuery.serverOf channel).bind db.servers.findOne = some final →
        (DatabasePermissionQuery.serverOf channel').bind db'.servers.findOne = some final' →
        db.members = db'.members → db.now = db'.now → channel.Agrees channel' →
        channelPermissions db user channel = channelPermissions db' user channel') := by
  have hstep : ∀ s i, CreatesWithoutGap s i → s.Ranked → (execRole s i).1.Ranked :=
    fun s i hadmits h => ranked_execRole hadmits h
  have hstart := ranked_of_roleless hroleless
  have hfinal := hrun.invariant hstep hstart
  refine ⟨hfinal.distinct, ?_, fun final' hagrees => ⟨?_, ?_⟩⟩
  · intro before id name hmem
    obtain ⟨earlier, later, rfl⟩ := append_of_mem hmem
    obtain ⟨hbefore, hadmits, _⟩ := Run.split_at hrun
    exact (create_below_iff (hbefore.invariant hstep hstart) id name).mpr hadmits.2
  · exact fun db user => serverPermissions_congr db user hagrees hfinal.distinct
  · intro db db' user channel channel' hserver hserver' hmembers hnow hchannel
    exact channelPermissions_congr user hserver hserver' hmembers hnow hagrees hfinal.distinct
      hchannel

/-- A server before its first role. -/
def roleless : Server := ⟨"S", "O", ["X"], Collection.empty, defaultPermission⟩

def reorderedServer : Server :=
  execAll execRole roleless [.create "A" "a", .create "B" "b", .setRoleOrdering ["B", "A"],
    .delete "A", .create "C" "c"]

theorem role_ranks_strict_reordered :
    reorderedServer.DistinctRanks ∧ reorderedServer.ranks = [1, 0] := by
  have hrun : Run execRole CreatesWithoutGap roleless _ reorderedServer :=
    Run.of_admitsAll (by decide)
  exact ⟨(role_ranks_strict rfl hrun).1, by decide⟩

/-- The third role is made over the gap that the first one left. -/
def tiedServer : Server :=
  execAll execRole roleless [.create "A" "a", .create "B" "b", .delete "A", .create "C" "c"]

/-- One of the two roles hides the channel, the other shows it. -/
def tiedChannel (entries : List (String × OverrideField)) : Channel :=
  .textChannel "X" "S" none (Table.ofEntries entries)

def hidesByB : String × OverrideField := ("B", ⟨0, ChannelPermission.viewChannel.value⟩)

def showsByC : String × OverrideField := ("C", ⟨ChannelPermission.viewChannel.value, 0⟩)

def tiedDatabase : Database where
  users := Collection.empty.put ⟨"U", false, none, []⟩
  servers := Collection.empty.put tiedServer
  channels := Collection.empty
  members := Collection.empty.put ⟨"S", "U", ["B", "C"], none, true, true⟩
  now := 0

/-- **A tie.** Two roles of one rank, and a member who can see the channel or not, depending
on which override is come upon first. -/
theorem role_ranks_tie : Reachable execRole Fresh roleless tiedServer ∧ ¬tiedServer.DistinctRanks ∧
      tiedServer.ranks = [1, 1] ∧
      (tiedChannel [hidesByB, showsByC]).Agrees (tiedChannel [showsByC, hidesByB]) ∧
      channelPermissions tiedDatabase ⟨"U", false, none, []⟩ (tiedChannel [hidesByB, showsByC]) ≠
        channelPermissions tiedDatabase ⟨"U", false, none, []⟩
          (tiedChannel [showsByC, hidesByB]) := by
  refine ⟨Reachable.of_admitsAll (by decide), by decide, by decide, ⟨_, ?_, rfl⟩, by decide⟩
  decide

end SlogaBackend.Permissions
