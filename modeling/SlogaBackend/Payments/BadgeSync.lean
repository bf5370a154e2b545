import SlogaBackend.Lib.Repair
import SlogaBackend.Payments.Steps

/-!
# The public badge follows the membership

A user's badge is a copy of what the membership shows in public. The two are separate
documents, and whoever changes the membership copies it afterwards (`syncUserBadge`): read
the membership, read the user, and write the badge where it differs, then look again.

A write may be stale, for the membership can change between the read and the write. But
the writer looks once more, and so does whoever changed the membership. So where badge and
membership disagree somebody still has to look, and `badge_converges` is the rule of
`Lib.Repair` at a user's badge.

An account that does not exist has no badge, and a read that answers so ends the sync. A
failing store answers otherwise (a driver error), and this is the one thing asked of the
outside.
-/

namespace SlogaBackend.Payments

variable {sha256 : List UInt8 → List UInt8}

/-! ## The workers -/

inductive MembershipChange where
  | insert (m : CipherMembership)
  | update (m : CipherMembership) (expected : Nat)
  | delete (userId : String)
  | deleteIfVersion (userId : String) (expected : Nat)

def MembershipChange.op : MembershipChange → MembershipOp
  | .insert m => .insert m
  | .update m expected => .update m expected
  | .delete userId => .delete userId
  | .deleteIfVersion userId expected => .deleteIfVersion userId expected

def MembershipChange.userId : MembershipChange → String
  | .insert m => m.userId
  | .update m _ => m.userId
  | .delete userId => userId
  | .deleteIfVersion userId _ => userId

/-- Change the membership, then the badge. -/
def changeAndSync (change : MembershipChange) : Engine Unit := do
  let _ ← memberships change.op
  syncUserBadge change.userId

/-- Workers that change memberships. -/
abbrev BadgeSyncs := System Store MembershipChange Error Call Answer Unit

/-- Workers make their calls on the store. -/
def perform (sha256 : List UInt8 → List UInt8) (_ : Nat) (c : Call) (s : Store) :
    Store × Answer c := s.perform sha256 c

def BadgeSyncs.exec (sha256 : List UInt8 → List UInt8) :
    BadgeSyncs → Event MembershipChange → BadgeSyncs × Unit :=
  System.exec (perform sha256) changeAndSync

/-! ## What is kept -/

/-- What the stored membership of a user shows in public. -/
def Store.badge (s : Store) (userId : String) : Option UserCipher :=
  (s.memberships.get userId).bind CipherMembership.publicBadge

/-- The badge of a user who is not deleted is the one of the membership. -/
def Store.BadgeAgrees (s : Store) (userId : String) : Prop :=
  ∀ user, s.users.get userId = some user → user.deleted = false → user.cipher = s.badge userId

/-- A failing store does not answer that something is not there. -/
def Store.FailsLoudly (s : Store) : Prop := ∀ tick, s.outside.outage tick ≠ some .notFound

/-- The account and the badge of the membership are as they were. -/
structure SameBadge (u : String) (s t : Store) : Prop where
  outside : t.outside = s.outside
  user : t.users.get u = s.users.get u
  badge : t.badge u = s.badge u

def badgeRepair (u : String) : Repair Store where
  Good s := s.FailsLoudly → s.BadgeAgrees u
  Quiet := SameBadge u
  refl _ := ⟨rfl, rfl, rfl⟩
  trans h h' := ⟨h'.outside.trans h.outside, h'.user.trans h.user, h'.badge.trans h.badge⟩
  good h hgood hloud user hget hlive := by
    unfold Store.FailsLoudly at hloud
    rw [h.outside] at hloud
    rw [h.user] at hget
    rw [h.badge]
    exact hgood hloud user hget hlive

/-! ## What the calls do -/

theorem perform_users_cases (sha256 : List UInt8 → List UInt8) (op : UserOp) (s : Store) :
    (∃ e, s.outside.outage s.tick = some e ∧ s.perform sha256 (.users op) = (s.next, .error e)) ∨
      s.perform sha256 (.users op) =
        ({ s with users := (op.run s.users).1, tick := s.tick + 1 }, (op.run s.users).2) := by
  unfold Store.perform
  cases hout : s.outside.outage s.tick with
  | none => exact .inr rfl
  | some e => exact .inl ⟨e, rfl, rfl⟩

variable {u : String}

theorem MembershipChange.get_run (change : MembershipChange) (rows : CipherMemberships)
    (hoth : u ≠ change.userId) : (change.op.run rows).1.get u = rows.get u := by
  cases change with
  | insert m =>
    have hne : u ≠ m.userId := hoth
    show (insertCipherMembership m rows).1.get u = _
    rcases insertCipherMembership_cases m rows with ⟨hsm, -⟩ | ⟨-, -, hins⟩
    · rw [hsm]
    · rw [hins, get_insert, if_neg hne]
  | update m expected =>
    have hne : u ≠ m.userId := hoth
    show (updateCipherMembershipIfVersion m expected rows).1.get u = _
    rcases updateCipherMembershipIfVersion_cases m expected rows with
      ⟨hsm, -⟩ | ⟨row, -, -, -, hins⟩
    · rw [hsm]
    · rw [hins, get_insert, if_neg hne]
  | delete userId =>
    have hne : u ≠ userId := hoth
    show (rows.erase userId).get u = _
    rw [get_erase, if_neg hne]
  | deleteIfVersion userId expected =>
    have hne : u ≠ userId := hoth
    show (deleteCipherMembershipIfVersion userId expected rows).1.get u = _
    unfold deleteCipherMembershipIfVersion
    split
    · rfl
    · split
      · rfl
      · rw [get_erase, if_neg hne]

theorem sameBadge_memberships (op : MembershipOp) (s : Store)
    (hkp : (op.run s.memberships).1.get u = s.memberships.get u) :
    SameBadge u s (s.perform sha256 (.memberships op)).1 := by
  rcases perform_memberships_cases sha256 op s with ⟨e, h⟩ | h
  · rw [h]
    exact ⟨rfl, rfl, rfl⟩
  · rw [h]
    exact ⟨rfl, rfl, congrArg (Option.bind · CipherMembership.publicBadge) hkp⟩

theorem sameBadge_users (op : UserOp) (s : Store) (hkp : (op.run s.users).1.get u = s.users.get u) :
    SameBadge u s (s.perform sha256 (.users op)).1 := by
  rcases perform_users_cases sha256 op s with ⟨e, -, h⟩ | h
  · rw [h]
    exact ⟨rfl, rfl, rfl⟩
  · rw [h]
    exact ⟨rfl, hkp, rfl⟩

theorem fetch_run (userId : String) (users : Table String PaymentUser) :
    (UserOp.run (.fetch userId) users).1 = users := by
  simp only [UserOp.run]
  split <;> rfl

theorem setCipher_run (userId : String) (badge : Option UserCipher)
    (users : Table String PaymentUser) (hne : u ≠ userId) :
    (UserOp.run (.setCipher userId badge) users).1.get u = users.get u := by
  simp only [UserOp.run]
  split
  · rw [get_insert, if_neg hne]
  · rfl

/-! ## A sync repairs -/

/-- What the account should show, given what was read of the membership. -/
def shown (user : PaymentUser) (badge : Option UserCipher) : Option UserCipher :=
  if user.deleted then none else badge

/-- The account was read after the membership, and nothing has changed in between. -/
theorem good_of_shown {s : Store} {user : PaymentUser} (hg : s.users.get u = some user)
    (heq : user.cipher = shown user (s.badge u)) : (badgeRepair u).Good s := by
  intro _ user' hg' hlv
  cases hg.symm.trans hg'
  rw [heq, shown, hlv]
  rfl

theorem good_of_missing {s : Store} (hg : s.users.get u = none) : (badgeRepair u).Good s := by
  intro _ user hg' _
  cases hg.symm.trans hg'

section Rules

variable {u : String} {pid : Nat} {s : Store}

theorem mends_fetchMembership {k : Option CipherMembership → Engine Unit}
    (hk : ∀ row s', s'.badge u = row.bind CipherMembership.publicBadge →
      (k row).Mends (badgeRepair u) (perform sha256) pid s') :
    ((memberships (.fetch u)).bind k).Mends (badgeRepair u) (perform sha256) pid s := by
  intro s1 _
  show ((check (s1.perform sha256 (.memberships (.fetch u))).2).bind k).Mends _ _ _
    (s1.perform sha256 (.memberships (.fetch u))).1
  rcases perform_memberships_cases sha256 (.fetch u) s1 with ⟨e, h⟩ | h
  · rw [h]
    exact trivial
  · rw [h]
    exact hk _ _ rfl

theorem mends_fetchUser {k : Result PaymentUser → Engine Unit}
    (hfnd : ∀ user s', SameBadge u s s' → s'.users.get u = some user →
      (k (.ok user)).Mends (badgeRepair u) (perform sha256) pid s')
    (hmis : ∀ s', (badgeRepair u).Good s' →
      (k (.error .notFound)).Mends (badgeRepair u) (perform sha256) pid s')
    (hfail : ∀ e s', e ≠ .notFound → (k (.error e)).Mends (badgeRepair u) (perform sha256) pid s') :
    ((users (.fetch u)).attempt.bind k).Mends (badgeRepair u) (perform sha256) pid s := by
  intro s1 hqui
  show (k (s1.perform sha256 (.users (.fetch u))).2).Mends _ _ _
    (s1.perform sha256 (.users (.fetch u))).1
  have hsm : SameBadge u s1 (s1.perform sha256 (.users (.fetch u))).1 :=
    sameBadge_users _ _ (by rw [fetch_run])
  rcases perform_users_cases sha256 (.fetch u) s1 with ⟨e, hout, h⟩ | h
  · rw [h]
    by_cases he : e = .notFound
    · subst he
      exact hmis _ fun hld => absurd hout (hld s1.tick)
    · exact hfail e _ he
  · rw [h] at hsm ⊢
    dsimp only [UserOp.run] at hsm ⊢
    cases hg : s1.users.get u with
    | some user =>
      rw [hg] at hsm
      exact hfnd user _ ((badgeRepair u).trans hqui hsm) hg
    | none => exact hmis _ (good_of_missing hg)

end Rules

/-- **A sync does not return before it has seen the two agree.** -/
theorem mends_syncBadgeRounds (u : String) (rounds : Nat) (pid : Nat) (s : Store) :
    (syncBadgeRounds u rounds).Mends (badgeRepair u) (perform sha256) pid s := by
  induction rounds generalizing s with
  | zero => exact trivial
  | succ rounds ih =>
    refine mends_fetchMembership fun row s1 hbad => ?_
    refine mends_fetchUser (fun user s2 hqui hg => ?_) (fun s2 hgd => hgd) fun e s2 he => ?_
    · -- the badge that was read is the one of the membership as it is now
      have hnow : s2.badge u = row.bind CipherMembership.publicBadge := hqui.badge.trans hbad
      dsimp only
      generalize hshow : (if user.deleted = true then none else _) = badge
      split
      · rename_i heq
        refine good_of_shown hg ?_
        rw [hnow, heq, ← hshow]
        rfl
      · exact Prog.Mends.bind (fun _ => ih) _ _
    · cases e <;> first | exact trivial | exact absurd rfl he

/-! ## Every worker is honest -/

/-- Calls that read a membership or an account. -/
def Reads (c : Call) : Prop :=
  ∃ userId, c = .memberships (.fetch userId) ∨ c = .users (.fetch userId)

theorem sameBadge_reads (u : String) (c : Call) (s : Store) (hread : Reads c) :
    SameBadge u s (s.perform sha256 c).1 := by
  obtain ⟨userId, rfl | rfl⟩ := hread
  · exact sameBadge_memberships _ _ rfl
  · exact sameBadge_users _ _ (by rw [fetch_run])

theorem only_fetchMembership (userId : String) : (memberships (.fetch userId)).Only Reads :=
  ⟨⟨userId, .inl rfl⟩, fun _ => trivial⟩

theorem only_fetchUser (userId : String) : (users (.fetch userId)).attempt.Only Reads :=
  Prog.Only.attempt ⟨⟨userId, .inr rfl⟩, fun _ => trivial⟩

/-- Whoever writes the badge of the user looks again; other badges are other rows. -/
theorem honest_syncBadgeRounds (u userId : String) (rounds : Nat) (pid : Nat) :
    (syncBadgeRounds userId rounds).Honest (badgeRepair u) (perform sha256) pid := by
  have hqui : ∀ c s, Reads c → (badgeRepair u).Quiet s (perform sha256 pid c s).1 :=
    fun c s => sameBadge_reads u c s
  induction rounds with
  | zero => exact trivial
  | succ rounds ih =>
    refine Prog.Honest.bind_of_quiet hqui (fun row => ?_) (only_fetchMembership userId)
    refine Prog.Honest.bind_of_quiet hqui (fun user => ?_) (only_fetchUser userId)
    match user with
    | .error e => cases e <;> trivial
    | .ok user =>
      dsimp only
      generalize (if user.deleted = true then none else _) = badge
      split
      · exact trivial
      · intro s
        refine ⟨?_, Prog.Honest.bind_of_quiet hqui (fun _ => ih) trivial⟩
        by_cases hu : u = userId
        · subst hu
          exact .inr (Prog.Mends.bind (fun _ => mends_syncBadgeRounds u rounds pid) _ _)
        · exact .inl (sameBadge_users _ _ (setCipher_run _ _ _ hu))

theorem honest_changeAndSync (u : String) (pid : Nat) (change : MembershipChange) :
    (changeAndSync change).Honest (badgeRepair u) (perform sha256) pid := by
  have hqui : ∀ c s, Reads c → (badgeRepair u).Quiet s (perform sha256 pid c s).1 :=
    fun c s => sameBadge_reads u c s
  intro s
  refine ⟨?_, Prog.Honest.bind_of_quiet hqui
    (fun _ => honest_syncBadgeRounds u change.userId _ pid) trivial⟩
  by_cases hu : u = change.userId
  · subst hu
    exact .inr (Prog.Mends.bind (fun _ => mends_syncBadgeRounds _ _ pid) _ _)
  · exact .inl (sameBadge_memberships _ _ (change.get_run _ hu))

theorem mends_changeAndSync (pid : Nat) (change : MembershipChange) (s : Store) :
    (changeAndSync change).Mends (badgeRepair change.userId) (perform sha256) pid s :=
  Prog.Mends.bind (fun _ => mends_syncBadgeRounds _ _ pid) _ s

/-! ## Runs -/

/-- **Badge convergence.** Any number of workers each change a membership and then sync the
badge of its user, call by call and in any order, from any store. Once all of them have
finished without an error, the badge of every user whose membership one of them was to
change is the one the stored membership shows; and so is every badge that was right at the
beginning. -/
theorem badge_converges {store : Store} (hloud : store.FailsLoudly) {sys : BadgeSyncs}
    (hreached : Reachable (BadgeSyncs.exec sha256) (fun _ _ => True) (idle store) sys)
    (hfinished : sys.Finished) (u : String)
    (hu : store.BadgeAgrees u ∨ ∃ pid process, sys.processes.get pid = some process ∧
      process.request.userId = u) : sys.store.BadgeAgrees u := by
  obtain ⟨h, hrun⟩ := hreached
  have houtside : sys.store.outside = store.outside :=
    System.store_of_run (P := fun s => s.outside = store.outside)
      (fun _ c s hs => (outside_perform c s).trans hs) rfl hrun
  have hadmitted : Run (BadgeSyncs.exec sha256) (System.Admits fun _ => True) (idle store)
      h sys := hrun.mono fun _ event _ => by cases event <;> trivial
  have htended : sys.Tended (badgeRepair u) (perform sha256) (fun change => change.userId = u)
      store := by
    refine System.tended_of_run (fun pid change _ => honest_changeAndSync u pid change)
      (fun pid change s _ hdue => ?_) hadmitted
    subst hdue
    exact mends_changeAndSync pid change s
  refine htended.good hfinished (hu.imp_left fun hagrees _ => hagrees) fun tick => ?_
  rw [houtside]
  exact hloud tick

/-! ## Two workers -/

namespace TwoSyncs

open Sample

def member : CipherMembership where
  userId := "u"
  number := 1
  tier := .t99
  protGrant := 0
  orders := []
  disputedOrders := []
  grantedAt := 0
  revokedAt := none
  revokeReason := none
  protPostedAt := none
  version := 0

def start : BadgeSyncs := idle (store silent [])

/-- The first worker inserts the membership and reads it; the second deletes it and syncs; then
the first writes what it has read, and looks again. -/
def events : List (Event MembershipChange) :=
  [.start 1 (.insert member), .step 1, .step 1, .step 1, .start 2 (.delete "u"), .step 2, .step 2,
    .step 2, .step 1, .step 1, .step 1, .step 1, .step 1, .step 1]

def settled : BadgeSyncs := execAll (BadgeSyncs.exec digest) start events

end TwoSyncs

open TwoSyncs in
/-- A stale badge is written over the deletion, and taken back. -/
theorem badge_converges_two : settled.store.BadgeAgrees "u" := by
  have hreached : Reachable (BadgeSyncs.exec Sample.digest) (fun _ _ => True) start settled :=
    Reachable.of_admitsAll (by decide)
  have hworked : ∃ pid process, settled.processes.get pid = some process ∧
      process.request.userId = "u" := by
    have hget : (settled.processes.get 1).map (fun p => p.request.userId) = some "u" := by decide
    obtain ⟨process, hget, huser⟩ := map_eq_some_iff.mp hget
    exact ⟨1, process, hget, huser⟩
  exact badge_converges (fun _ => by simp [Sample.store, Sample.silent]) hreached
    (System.finished_of_values (by decide)) "u" (.inr hworked)

end SlogaBackend.Payments
