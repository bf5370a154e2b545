import SlogaBackend.Permissions.RoleEdits

/-!
# Reordering roles

A member may put the roles of a server in order, except that no role of the member's own rank or
above may change its position among the sorted roles. What is written are positions: a rank that
several roles share becomes several ranks, and of those the first is not the last. So the member
stays below every superior exactly when the member holds, of the roles of its own rank, none but
the one that is sorted last (`reorder_keeps_superiors_iff`).
-/

namespace SlogaBackend.Permissions

open Checks

/-- `ordered_roles`, for an order in which the map is iterated. -/
def orderedRoles (iterated : List Role) : List Role :=
  iterated.insertionSort fun a b => a.rank ≤ b.rank

def orderedIds (iterated : List Role) : List String := (orderedRoles iterated).map Role.id

theorem Server.setRoleOrdering_id (newOrder : List String) (server : Server) :
    (server.setRoleOrdering newOrder).id = server.id := rfl

/-- What is calculated for whoever asks, and the rank found on the way, if any. -/
def askerTopRank (db : Database) (user : User) (server : Server) : PermissionValue × Option Int :=
  let (permissions, query) :=
    calculateServerPermissions.run ((DatabasePermissionQuery.new db user).withServer server)
  (permissions, query.getMemberRank)

def editRoleRanks (db : Database) (user : User) (target : String) (iterated : List Role)
    (ranks : List String) : Result Database := do
  let server ← okOr (db.servers.findOne target) .notFound
  let (own, memberTopRank) := askerTopRank db user server
  own.throwIfLackingChannelPermission .manageRole
  let existingOrder := orderedIds iterated
  refuseIf (server.acceptsOrder ranks = false) .invalidOperation
  -- the owner may move every role
  refuseIf (server.owner ≠ user.id ∧ ∃ role ∈ iterated,
    (∀ topRank ∈ memberTopRank, role.rank ≤ topRank) ∧
      existingOrder.idxOf role.id ≠ ranks.idxOf role.id) .notElevated
  return db.updateServer server.id (fun server => server.setRoleOrdering ranks)
    (Server.setRoleOrdering_id ranks)

def Server.rankOf (server : Server) (id : String) : Option Int :=
  (server.roles.findOne id).map Role.rank

/-- The roles of a rank up to `top` stay above every role of the member, and in order. -/
structure KeepsSuperiors (member : Member) (server server' : Server) (order : List String)
    (top : Int) : Prop where
  above : ∀ id rank rank', server.rankOf id = some rank → rank ≤ top →
    server'.rankOf id = some rank' →
      ∀ held ∈ member.roles, ∀ heldRank, server'.rankOf held = some heldRank → rank' ≤ heldRank
  inOrder : ∀ id id' rank rank' newRank newRank', server.rankOf id = some rank → rank ≤ top →
    server.rankOf id' = some rank' → rank' ≤ top → server'.rankOf id = some newRank →
      server'.rankOf id' = some newRank' → (newRank < newRank' ↔ order.idxOf id < order.idxOf id')

section Reordering

variable {db db' : Database} {user : User} {target : String} {server : Server} {member : Member}
  {iterated : List Role} {ranks : List String}

theorem le_getRanking_iff (hown : member.user ≠ server.owner) {bound : Int} :
    bound ≤ member.getRanking server ↔ bound ≤ 2 ^ 63 - 1 ∧
      ∀ id ∈ member.roles, ∀ rank, server.rankOf id = some rank → bound ≤ rank := by
  unfold Member.getRanking
  rw [if_neg hown]
  generalize (2 ^ 63 - 1 : Int) = value
  induction member.roles generalizing value with
  | nil => simp
  | cons id ids ih =>
    rw [foldl_cons, ih, List.forall_mem_cons, ← and_assoc]
    refine and_congr_left fun _ => ?_
    unfold Server.rankOf
    cases server.roles.findOne id with
    | none => simp
    | some role =>
      simp
      split <;> omega

theorem askerTopRank_eq (hmb : db.members.findOne (server.id, user.id) = some member)
    (hown : server.owner ≠ user.id) :
    ∀ topRank ∈ (askerTopRank db user server).2, topRank = member.getRanking server := by
  unfold askerTopRank
  cases hpriv : user.privileged with
  | true =>
    unfold calculateServerPermissions
    rw [run_bind_of (run_privileged hpriv)]
    intro topRank hno
    cases hno
  | false =>
    have hown : (server.owner == user.id) = false := beq_false_of_ne hown
    rw [run_calculateServerPermissions (q := (DatabasePermissionQuery.new db user).withServer server)
      hpriv rfl hown hmb]
    intro topRank htopRank
    exact (Option.mem_some.mp htopRank).symm

/-- What an accepted request of another than the owner has checked and written. -/
theorem editRoleRanks_ok (hsrv : db.servers.findOne target = some server)
    (hmb : db.members.findOne (server.id, user.id) = some member) (hown : server.owner ≠ user.id)
    (hacc : editRoleRanks db user target iterated ranks = .ok db') :
    server.acceptsOrder ranks = true ∧ (∀ role ∈ iterated, role.rank ≤ member.getRanking server →
        (orderedIds iterated).idxOf role.id = ranks.idxOf role.id) ∧
      db'.servers.findOne target = some (server.setRoleOrdering ranks) := by
  have hid : server.id = target := key_of_findOne hsrv
  simp only [editRoleRanks, bind_eq_ok, okOr_eq_ok, refuseIf_eq_ok, pure_eq_ok] at hacc
  obtain ⟨found, hfnd, -, -, -, hord, -, hpos, rfl⟩ := hacc
  cases hsrv.symm.trans hfnd
  refine ⟨by simpa using hord, fun role hrl hrn => ?_, ?_⟩
  · by_contra hmov
    refine hpos ⟨hown, role, hrl, fun topRank htopRank => ?_, hmov⟩
    rwa [askerTopRank_eq hmb hown topRank htopRank]
  · subst hid
    exact findOne_updateServer hsrv _ _

/-! ## Positions -/

variable (hiterated : iterated.Perm server.roles.rows.values)
include hiterated

theorem perm_orderedRoles : (orderedIds iterated).Perm server.roles.rows.keys := by
  have hids : server.roles.rows.values.map Role.id = server.roles.rows.keys := by
    unfold Table.values
    rw [map_map]
    refine List.map_congr_left fun entry hent => ?_
    exact server.roles.keyed entry.1 entry.2 (get_eq_some_iff.mpr hent)
  rw [← hids]
  exact ((List.perm_insertionSort _ iterated).trans hiterated).map Role.id

variable {id : String} {rank : Int}

theorem mem_orderedIds (hrn : server.rankOf id = some rank) : id ∈ orderedIds iterated := by
  obtain ⟨role, hrl, -⟩ := map_eq_some_iff.mp hrn
  exact (perm_orderedRoles hiterated).mem_iff.mpr (mem_keys_of_get hrl)

/-- The ranks at the places of the sorted list do not decrease. -/
theorem ranks_sorted {i j : ℕ} (hij : i ≤ j) (hj : j < (orderedIds iterated).length) :
    ∃ rank rank', server.rankOf (orderedIds iterated)[i] = some rank ∧
      server.rankOf (orderedIds iterated)[j] = some rank' ∧ rank ≤ rank' := by
  have hrn : ∀ {k : ℕ} (hk : k < (orderedRoles iterated).length),
      server.rankOf (orderedRoles iterated)[k].id = some (orderedRoles iterated)[k].rank := by
    intro k hk
    have hmem := ((List.perm_insertionSort _ iterated).trans hiterated).subset (List.getElem_mem hk)
    obtain ⟨id, hid⟩ := mem_values.mp hmem
    have hkey : (orderedRoles iterated)[k].id = id := server.roles.keyed _ _ hid
    unfold Server.rankOf
    rw [hkey]
    exact congrArg (Option.map Role.rank) hid
  have hsor : (orderedRoles iterated).Pairwise fun a b => a.rank ≤ b.rank :=
    List.pairwise_insertionSort _ iterated
  have hlen : j < (orderedRoles iterated).length := by simpa [orderedIds] using hj
  refine ⟨_, _, by simpa [orderedIds] using hrn (hij.trans_lt hlen),
    by simpa [orderedIds] using hrn hlen, ?_⟩
  rcases Nat.lt_or_eq_of_le hij with hlt | rfl
  · exact List.pairwise_iff_getElem.mp hsor i j _ hlen hlt
  · exact le_refl _

theorem idxOf_le_of_rank_lt {id' : String} {rank' : Int} (hrn : server.rankOf id = some rank)
    (hrn' : server.rankOf id' = some rank') (hlt : rank < rank')
    : (orderedIds iterated).idxOf id ≤ (orderedIds iterated).idxOf id' := by
  by_contra hle
  obtain ⟨first, second, hfst, hsec, hsor⟩ := ranks_sorted hiterated (Nat.le_of_not_le hle)
    (List.idxOf_lt_length_of_mem (mem_orderedIds hiterated hrn))
  rw [List.getElem_idxOf] at hfst hsec
  cases hfst.symm.trans hrn'
  cases hsec.symm.trans hrn
  omega

omit hiterated in
theorem rankOf_setRoleOrdering (hacce : server.acceptsOrder ranks = true) :
    (server.setRoleOrdering ranks).rankOf id = some rank ↔
      (server.rankOf id).isSome ∧ rank = (ranks.idxOf id : Nat) := by
  have hpr := perm_of_acceptsOrder hacce
  have hg := get_setRanks (hpr.nodup_iff.mp server.roles.rows.keys_nodup) 0 server.roles id
  unfold Server.rankOf Server.setRoleOrdering
  rw [hg]
  cases hrl : server.roles.findOne id with
  | none => simp
  | some role =>
    rw [if_pos (hpr.subset (mem_keys_of_get hrl))]
    simp [Role.withRank, eq_comm]

/-- **A reordering climbs over no superior exactly when** the member holds, of the roles of its own
rank, none but the one that is sorted last. -/
theorem reorder_keeps_superiors_iff (hserver : db.servers.findOne target = some server)
    (hmember : db.members.findOne (server.id, user.id) = some member)
    (howner : server.owner ≠ user.id)
    (haccepted : editRoleRanks db user target iterated ranks = .ok db') :
    (∃ server', db'.servers.findOne target = some server' ∧
      KeepsSuperiors member server server' (orderedIds iterated) (member.getRanking server)) ↔
    ∀ held ∈ member.roles, server.rankOf held = some (member.getRanking server) →
      ∀ id, server.rankOf id = some (member.getRanking server) → (orderedIds iterated).idxOf id ≤
        (orderedIds iterated).idxOf held := by
  obtain ⟨haccepts, hkept, hserver'⟩ := editRoleRanks_ok hserver hmember howner haccepted
  have huser : member.user = user.id := congrArg Prod.snd (key_of_findOne hmember)
  have hleast := ((le_getRanking_iff (huser ▸ howner.symm)).mp (le_refl (member.getRanking server))).2
  generalize member.getRanking server = top at *
  -- the roles up to the rank of the member are where they were
  have hsame : ∀ id rank, server.rankOf id = some rank → rank ≤ top →
      (orderedIds iterated).idxOf id = ranks.idxOf id := by
    intro id rank hrank hle
    obtain ⟨role, hrole, rfl⟩ := map_eq_some_iff.mp hrank
    have hid : role.id = id := key_of_findOne hrole
    rw [← hid]
    exact hkept role (hiterated.mem_iff.mpr (mem_values_of_get hrole)) hle
  have hnew : ∀ {id rank}, (server.setRoleOrdering ranks).rankOf id = some rank ↔
      (server.rankOf id).isSome ∧ rank = (ranks.idxOf id : Nat) := rankOf_setRoleOrdering haccepts
  constructor
  · rintro ⟨server', hfound, hkeeps⟩ held hheld hheldTop id hidTop
    cases hserver'.symm.trans hfound
    have habove := hkeeps.above id top _ hidTop (le_refl _)
      (hnew.mpr ⟨by rw [hidTop]; rfl, rfl⟩) held hheld _ (hnew.mpr ⟨by rw [hheldTop]; rfl, rfl⟩)
    rw [hsame id top hidTop (le_refl _), hsame held top hheldTop (le_refl _)]
    exact Int.ofNat_le.mp habove
  · intro hlast
    refine ⟨_, hserver', ?_, ?_⟩
    · intro id rank rank' hrank hle hrank' held hheld heldRank hheldRank'
      obtain ⟨-, rfl⟩ := hnew.mp hrank'
      obtain ⟨hsome, rfl⟩ := hnew.mp hheldRank'
      obtain ⟨oldRank, hold⟩ := isSome_iff_exists.mp hsome
      refine Int.ofNat_le.mpr ?_
      rcases lt_or_eq_of_le (hleast held hheld oldRank hold) with hbelow | rfl
      · -- no position among those of the superiors is free
        by_contra hclimb
        rw [not_le, ← hsame id rank hrank hle] at hclimb
        have hi := List.idxOf_lt_length_of_mem (mem_orderedIds hiterated hrank)
        obtain ⟨rankAt, rankId, hrankAt, hrankId, hsorted⟩ := ranks_sorted hiterated hclimb.le hi
        rw [List.getElem_idxOf] at hrankId
        cases hrankId.symm.trans hrank
        have hnodup := (perm_orderedRoles hiterated).nodup_iff.mpr server.roles.rows.keys_nodup
        have hsameAt := hsame _ _ hrankAt (hsorted.trans hle)
        rw [hnodup.idxOf_getElem] at hsameAt
        have hheldMem : held ∈ ranks := by
          obtain ⟨role, hrole, -⟩ := map_eq_some_iff.mp hold
          exact (perm_of_acceptsOrder haccepts).subset (mem_keys_of_get hrole)
        rw [← (List.idxOf_inj hheldMem).mp hsameAt, hold] at hrankAt
        have := some.inj hrankAt
        omega
      · rw [← hsame id rank hrank hle, ← hsame held top hold (le_refl _)]
        rcases lt_or_eq_of_le hle with hlt | rfl
        · exact idxOf_le_of_rank_lt hiterated hrank hold hlt
        · exact hlast held hheld hold id hrank
    · intro id id' rank rank' newRank newRank' hrank hle hrank' hle' hnewRank hnewRank'
      obtain ⟨-, rfl⟩ := hnew.mp hnewRank
      obtain ⟨-, rfl⟩ := hnew.mp hnewRank'
      rw [hsame id rank hrank hle, hsame id' rank' hrank' hle']
      exact Int.ofNat_lt

end Reordering

/-! ## A tie -/

/-- Everybody may order the roles of this server. -/
def managedServer : Server :=
  { roleless with defaultPermissions := ChannelPermission.manageRole.value }

/-- Two roles of rank one. -/
def managedTie : Server :=
  execAll execRole managedServer [.create "A" "a", .create "B" "b", .delete "A", .create "C" "c"]

def holderOf (id : String) : Member := ⟨"S", "U", [id], none, true, true⟩

def tieDatabase (held : String) : Database where
  users := Collection.empty.put (⟨"U", false, none, []⟩ : User)
  servers := Collection.empty.put managedTie
  channels := Collection.empty
  members := Collection.empty.put (holderOf held)
  now := 0

def resubmitted (held : String) : Result Database :=
  editRoleRanks (tieDatabase held) ⟨"U", false, none, []⟩ "S" managedTie.roles.rows.values ["C", "B"]

/-- Whoever holds the last of the two stays below the other. -/
theorem reorder_keeps_superiors_last : ∃ server', KeepsSuperiors (holderOf "B") managedTie server'
    (orderedIds managedTie.roles.rows.values) ((holderOf "B").getRanking managedTie) := by
  have haccepted : resubmitted "B" = .ok _ := rfl
  have hserver : (tieDatabase "B").servers.findOne "S" = some managedTie := rfl
  have hmember : (tieDatabase "B").members.findOne (managedTie.id, "U") = some (holderOf "B") := rfl
  obtain ⟨server', -, hkeeps⟩ := (reorder_keeps_superiors_iff (List.Perm.refl _) hserver hmember
    (by decide) haccepted).mpr (by
      intro held hheld _ id hid
      have hplace := List.idxOf_lt_length_of_mem (mem_orderedIds (List.Perm.refl _) hid)
      have hlength : (orderedIds managedTie.roles.rows.values).length = 2 := by decide
      have hlast : (orderedIds managedTie.roles.rows.values).idxOf "B" = 1 := by decide
      rw [mem_singleton.mp hheld, hlast]
      omega)
  exact ⟨server', hkeeps⟩

/-- Whoever holds the first of them puts the other below, in writing the same order again. -/
theorem reorder_climbs : Reachable execRole Fresh managedServer managedTie ∧
    ∃ db', resubmitted "C" = .ok db' ∧ ∀ server', db'.servers.findOne "S" = some server' →
        ¬KeepsSuperiors (holderOf "C") managedTie server' (orderedIds managedTie.roles.rows.values)
            ((holderOf "C").getRanking managedTie) := by
  refine ⟨Reachable.of_admitsAll (by decide), _, rfl, ?_⟩
  intro server' hserver' hkeeps
  obtain rfl : managedTie.setRoleOrdering ["C", "B"] = server' := some.inj hserver'
  have hle := hkeeps.above "B" 1 1 (by decide) (by decide) (by decide) "C" (by decide) 0 (by decide)
  exact absurd hle (by decide)

end SlogaBackend.Permissions
