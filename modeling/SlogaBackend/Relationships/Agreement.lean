import SlogaBackend.Relationships.Requests

/-!
# Both sides of a relationship

Two users send requests about each other. A request is `Timely` if, when it sets the target's side,
no other has set one side only and what it sets is what it would decide on the two users as they are
stored then. In a run of timely requests the two sides agree whenever none of them is half done,
and a block holds until it is taken back. Where a request acts on an older copy neither is so
(`block_undone_and_half_friends`).
-/

namespace SlogaBackend.Relationships

open Checks Permissions

/-! ## What is to hold -/

/-- The pairs of statuses that fit together. -/
def agrees : RelationshipStatus → RelationshipStatus → Bool
  | .none, .none | .friend, .friend | .outgoing, .incoming | .incoming, .outgoing => true
  | .blocked, .blockedOther | .blockedOther, .blocked | .blocked, .blocked => true
  | _, _ => false

theorem agrees_comm (p q : RelationshipStatus) : agrees p q = agrees q p := by
  cases p <;> cases q <;> rfl

/-- At most one entry a user, and a note only on a request that came in. -/
structure User.Tidy (user : User) : Prop where
  nodup : (user.entries.map Relationship.id).Nodup
  note : ∀ relation ∈ user.entries, relation.note.isSome → relation.status = .incoming

namespace Store

/-- What `user`'s document says of `target`. -/
def statusOf (s : Store) (user target : String) : RelationshipStatus :=
  ((s.users.get user).map fun user => user.relationshipWith target).getD .none

/-- The user is stored, under its id, and tidy. -/
def Holds (s : Store) (id : String) : Prop :=
  ∃ user, s.users.get id = some user ∧ user.id = id ∧ user.Tidy

end Store

/-- Each side's status is the mirror of the other's. -/
structure SidesAgree (a b : String) (s : Store) : Prop where
  left : s.Holds a
  right : s.Holds b
  agree : agrees (s.statusOf a b) (s.statusOf b a) = true

/-- The request whose call is made in a step. -/
def steps (entry : Requests × Event Request) : Option Request :=
  match entry.2 with
  | .step pid => (entry.1.processes.get pid).map Process.request
  | _ => none

/-- **A block holds**: once a user's block has returned, while no request of the user to unblock has
gone on since the block began. -/
def BlocksHold (history : List (Requests × Event Request)) (sys : Requests) : Prop :=
  ∀ user target pid before m after answer,
    history = before ++ (m, .start pid ⟨user, target, .blockUser⟩) :: after →
    sys.returned pid = some (⟨user, target, .blockUser⟩, .ok answer) →
    (∀ entry ∈ after, steps entry ≠ some ⟨user, target, .unblockUser⟩) →
    sys.store.statusOf user target = .blocked

/-! ## Which runs -/

/-- The two users, about each other. -/
def Request.IsBetween (a b : String) (request : Request) : Prop :=
  (request.user = a ∧ request.target = b) ∨ (request.user = b ∧ request.target = a)

instance (a b : String) (request : Request) : Decidable (request.IsBetween a b) :=
  inferInstanceAs (Decidable (_ ∨ _))

/-- Every request is one of the two users about the other, and goes on to its end. -/
def Admitted (a b : String) (sys : Requests) : Event Request → Prop
  | .start pid request => sys.processes.get pid = none ∧ request.IsBetween a b
  | .step _ => True
  | .crash _ => False

section

variable {a b : String} {request : Request} (h : request.IsBetween a b)
include h

theorem Request.IsBetween.ne (hne : a ≠ b) : request.user ≠ request.target := by
  rcases h with ⟨huse, htgt⟩ | ⟨huse, htgt⟩
  · rwa [huse, htgt]
  · rw [huse, htgt]
    exact hne.symm

theorem Request.IsBetween.agrees_eq (s : Store) : agrees (s.statusOf a b) (s.statusOf b a) =
      agrees (s.statusOf request.user request.target) (s.statusOf request.target request.user) := by
  rcases h with ⟨huse, htgt⟩ | ⟨huse, htgt⟩
  · rw [huse, htgt]
  · rw [huse, htgt, agrees_comm]

end

abbrev Running := Process Request Error Call Reply User

/-- The own side, when it is what the process sets next. -/
def ownSide (process : Running) : Option RelationshipStatus :=
  match process.next? with
  | some (.setRelationship userId _ status _) =>
    if userId = process.request.user then some status else none
  | _ => none

/-- The target's side, when it is what the process sets next. -/
def targetSide (process : Running) : Option (RelationshipStatus × Option String) :=
  match process.next? with
  | some (.setRelationship userId _ status note) =>
    if userId = process.request.target then some (status, note) else none
  | _ => none

/-- What the request would decide on the two users as they are stored. -/
def Request.decideOn (request : Request) (s : Store) : Option Change := do
  let user ← s.users.get request.user
  let target ← s.users.get request.target
  (request.action.decide user target).toOption

/-- No request sets the target's side while another has set one side only, or when it would not
decide so any more. -/
def Timely (sys : Requests) : Event Request → Prop
  | .step pid => ∀ process ∈ sys.processes.get pid, ∀ side ∈ targetSide process,
      (∀ other ∈ sys.processes.values, ownSide other = none) ∧
        ∃ change ∈ process.request.decideOn sys.store, (change.remote, change.note) = side
  | _ => True

instance (a b : String) (sys : Requests) : ∀ event, Decidable (Admitted a b sys event)
  | .start _ _ => inferInstanceAs (Decidable (_ ∧ _))
  | .step _ => inferInstanceAs (Decidable True)
  | .crash _ => inferInstanceAs (Decidable False)

instance (sys : Requests) : ∀ event, Decidable (Timely sys event)
  | .step _ => inferInstanceAs (Decidable (∀ process ∈ _, _))
  | .start _ _ => inferInstanceAs (Decidable True)
  | .crash _ => inferInstanceAs (Decidable True)

/-! ## What a request decides -/

/-- What is decided fits together, and has a note only for a request. -/
structure Change.Sound (change : Change) : Prop where
  agree : agrees change.local_ change.remote = true
  note : change.note.isSome → change.remote = .incoming

namespace Action

variable {user target : User} {change : Change}

inductive Decides (user target : User) : Action → Change → Prop where
  | accepts (note : Option String) (limit : ℕ) (h : user.relationshipWith target.id = .incoming) :
      Decides user target (.addFriend note limit) ⟨.friend, .friend, none⟩
  | requests (note : Option String) (limit : ℕ) (h : user.relationshipWith target.id = .none) :
      Decides user target (.addFriend note limit) ⟨.outgoing, .incoming, note⟩
  | removes (h : user.relationshipWith target.id = .friend ∨
        user.relationshipWith target.id = .outgoing ∨
        user.relationshipWith target.id = .incoming) :
      Decides user target .removeFriend ⟨.none, .none, none⟩
  | blocks (h : user.relationshipWith target.id ≠ .blocked)
      (h' : user.relationshipWith target.id ≠ .blockedOther) :
      Decides user target .blockUser ⟨.blocked, .blockedOther, none⟩
  | blocksBack (h : user.relationshipWith target.id = .blockedOther) :
      Decides user target .blockUser ⟨.blocked, .blocked, none⟩
  | unblocks (h : user.relationshipWith target.id = .blocked)
      (h' : target.relationshipWith user.id = .blockedOther) :
      Decides user target .unblockUser ⟨.none, .none, none⟩
  | leavesBlocked (h : user.relationshipWith target.id = .blocked)
      (h' : target.relationshipWith user.id = .blocked) :
      Decides user target .unblockUser ⟨.blockedOther, .blocked, none⟩

variable {action : Action}

theorem decides_of_decide (h : action.decide user target = .ok change) :
    Decides user target action change := by
  cases action with
  | addFriend note limit =>
    obtain ⟨-, -, hadd⟩ := bind_eq_ok.mp h
    unfold User.addFriend at hadd
    split at hadd
    · cases hadd
    · cases hadd
    · cases hadd
    · cases hadd
    · cases hadd
    · cases hadd
      exact .accepts note limit ‹_›
    · simp only at hadd
      split at hadd
      · cases hadd
      · cases hadd
        exact .requests note limit ‹_›
  | removeFriend =>
    obtain ⟨-, -, hrem⟩ := bind_eq_ok.mp h
    unfold User.removeFriend at hrem
    split at hrem <;> cases hrem
    · exact .removes (.inl ‹_›)
    · exact .removes (.inr (.inl ‹_›))
    · exact .removes (.inr (.inr ‹_›))
  | blockUser =>
    have hblock : user.blockUser target = .ok change := h
    unfold User.blockUser at hblock
    split at hblock <;> cases hblock
    · exact .blocksBack ‹_›
    all_goals
      rename_i hstat
      exact .blocks (by rw [hstat]; decide) (by rw [hstat]; decide)
  | unblockUser =>
    have hunb : user.unblockUser target = .ok change := h
    unfold User.unblockUser at hunb
    split at hunb
    · split at hunb <;> cases hunb
      · exact .leavesBlocked ‹_› ‹_›
      · exact .unblocks ‹_› ‹_›
    · cases hunb

section

variable (h : Decides user target action change)
include h

theorem Decides.sound : change.Sound := by
  cases h with
  | requests => exact ⟨rfl, fun _ => rfl⟩
  | accepts | removes | blocks | blocksBack | unblocks | leavesBlocked =>
    exact ⟨rfl, fun hnt => absurd hnt (by decide)⟩

/-- Who has blocked the other decides on nothing but to unblock. -/
theorem Decides.eq_unblockUser
    (hbloc : user.relationshipWith target.id = .blocked) : action = .unblockUser := by
  cases h with
  | accepts _ _ hstat | requests _ _ hstat | blocksBack hstat =>
    exact absurd (hbloc.symm.trans hstat) (by decide)
  | removes hstat => rw [hbloc] at hstat; revert hstat; decide
  | blocks hstat => exact absurd hbloc hstat
  | unblocks | leavesBlocked => rfl

theorem Decides.remote_eq_blocked (hbloc : target.relationshipWith user.id = .blocked)
    (hagr : agrees .blocked (user.relationshipWith target.id) = true) :
    change.remote = .blocked := by
  cases h with
  | accepts _ _ hstat | requests _ _ hstat => rw [hstat] at hagr; cases hagr
  | removes hstat => rcases hstat with h | h | h <;> rw [h] at hagr <;> cases hagr
  | blocks hstat hoth =>
    revert hstat hoth hagr
    cases user.relationshipWith target.id <;> decide
  | blocksBack | leavesBlocked => rfl
  | unblocks _ hstat => exact absurd (hbloc.symm.trans hstat) (by decide)

end

theorem Decides.local_blockUser (h : Decides user target .blockUser change) :
    change.local_ = .blocked := by
  cases h <;> rfl

end Action

/-! ## Setting a side -/

namespace User

variable {user : User} {userB : String} {status : RelationshipStatus} {note : Option String}

theorem entries_withoutRelationship (user : User) (userB : String) :
    (user.withoutRelationship userB).entries =
      user.entries.filter fun relation => relation.id ≠ userB := by
  unfold withoutRelationship entries
  cases user.relations <;> rfl

@[simp] theorem withRelationship_id (user : User) (userB : String) (status : RelationshipStatus)
    (note : Option String) : (user.withRelationship userB status note).id = user.id := by
  cases status <;> rfl

theorem entries_withRelationship (hstat : status ≠ .user) :
    (user.withRelationship userB status note).entries =
      (user.entries.filter fun relation => relation.id ≠ userB) ++
        if status = .none then [] else [⟨userB, status, note⟩] := by
  rw [← entries_withoutRelationship]
  cases status with
  | none => exact (append_nil _).symm
  | user => exact absurd rfl hstat
  | friend | outgoing | incoming | blocked | blockedOther => rfl

theorem relationshipWith_withRelationship (hid : user.id ≠ userB) (hstat : status ≠ .user) :
    (user.withRelationship userB status note).relationshipWith userB = status := by
  have hfil : (user.entries.filter fun relation => relation.id ≠ userB).find?
      (fun relationship => relationship.id = userB) = none := by
    refine List.find?_eq_none.mpr fun relation hmem heq => ?_
    exact of_decide_eq_true (mem_filter.mp hmem).2 (of_decide_eq_true heq)
  unfold relationshipWith
  rw [withRelationship_id, if_neg hid, entries_withRelationship hstat, List.find?_append,
    hfil, Option.none_or]
  split_ifs with hno
  · exact hno.symm
  · simp

theorem Tidy.withRelationship (htd : user.Tidy) (hstat : status ≠ .user)
    (hnt : note.isSome → status = .incoming) : (user.withRelationship userB status note).Tidy := by
  have hents : (user.withRelationship userB status note).entries = _ :=
    entries_withRelationship hstat
  have hoths : ((user.entries.filter fun relation => relation.id ≠ userB).map
      Relationship.id).Nodup :=
    htd.nodup.sublist (List.filter_sublist.map _)
  constructor
  · rw [hents]
    split_ifs
    · rwa [append_nil]
    · rw [map_append]
      refine hoths.append (nodup_singleton _) fun id hid hsl => ?_
      obtain ⟨relation, hmem, rfl⟩ := mem_map.mp hid
      exact of_decide_eq_true (mem_filter.mp hmem).2 (mem_singleton.mp hsl)
  · intro relation hmem hsm
    rw [hents] at hmem
    rcases mem_append.mp hmem with hold | hnew
    · exact htd.note relation (mem_filter.mp hold).1 hsm
    · split_ifs at hnew
      · cases hnew
      · obtain rfl := mem_singleton.mp hnew
        exact hnt hsm

end User

namespace Store

variable {s : Store} {user target : String} {status : RelationshipStatus} {note : Option String}

def setSide (s : Store) (user target : String) (status : RelationshipStatus)
    (note : Option String) : Store :=
  (s.setRelationship user target status note).1

theorem setSide_of_get {u : User} (hg : s.users.get user = some u) :
    s.setSide user target status note =
      { s with users := s.users.insert user (u.withRelationship target status note) } := by
  unfold setSide setRelationship
  rw [hg]

theorem statusOf_of_get {u : User} (hg : s.users.get user = some u) :
    s.statusOf user target = u.relationshipWith target := by
  unfold statusOf
  rw [hg]
  rfl

theorem Holds.setRelationship_eq (hhld : s.Holds user) :
    s.setRelationship user target status note = (s.setSide user target status note, .ok ()) := by
  obtain ⟨u, hg, -⟩ := hhld
  rw [setSide_of_get hg]
  unfold setRelationship
  rw [hg]

theorem statusOf_setSide (hhld : s.Holds user) (hne : user ≠ target) (hstat : status ≠ .user) :
    (s.setSide user target status note).statusOf user target = status := by
  obtain ⟨u, hg, hid, -⟩ := hhld
  rw [setSide_of_get hg, statusOf_of_get get_insert_self]
  exact User.relationshipWith_withRelationship (by rwa [hid]) hstat

theorem statusOf_setSide_of_ne {user' target' : String} (hhld : s.Holds user) (hne : user' ≠ user) :
    (s.setSide user target status note).statusOf user' target' = s.statusOf user' target' := by
  obtain ⟨u, hg, -⟩ := hhld
  rw [setSide_of_get hg]
  unfold statusOf
  rw [get_insert, if_neg hne]

theorem Holds.setSide {id : String} (hhld : s.Holds user) (hid : s.Holds id)
    (hstat : status ≠ .user) (hnt : note.isSome → status = .incoming) :
    (s.setSide user target status note).Holds id := by
  obtain ⟨u, hg, huse, htd⟩ := hhld
  rw [setSide_of_get hg]
  by_cases heq : id = user
  · subst heq
    refine ⟨u.withRelationship target status note, ?_, ?_, htd.withRelationship hstat hnt⟩
    · rw [get_insert_self]
    · rw [User.withRelationship_id, huse]
  · obtain ⟨v, hv, hrs⟩ := hid
    refine ⟨v, ?_, hrs⟩
    rw [get_insert, if_neg heq]
    exact hv

end Store

/-! ## Where a request is -/

def Request.afterUser (request : Request) (user : User) : Program User := do
  let target ← fetchUser request.target
  let change ← check (request.action.decide user target)
  let target ← applyRelationship user target change
  finish request user target

/-- What is left when the target's side is set. -/
def Request.afterTarget (request : Request) (user target : User) (status : RelationshipStatus) :
    Program User := do
  let _ ← setRelationship user target status none
  finish request user target

/-- The copies are of the two users. -/
structure Request.Copies (request : Request) (user target : User) : Prop where
  user : user.id = request.user
  target : target.id = request.target

/-- A change that was decided on, whatever the copies were. -/
def Request.Decided (request : Request) (change : Change) : Prop :=
  ∃ user target : User, request.Copies user target ∧
    Action.Decides user target request.action change

inductive Stage (request : Request) (prog : Program User) : Prop where
  | starts (h : prog = request.body)
  | knows (user : User) (hid : user.id = request.user) (h : prog = request.afterUser user)
  | decides (user target : User) (change : Change) (hcopies : request.Copies user target)
      (hdecided : request.Decided change)
      (h : prog = (applyRelationship user target change).bind (finish request user))
  | half (user target : User) (change : Change) (hcopies : request.Copies user target)
      (hdecided : request.Decided change)
      (h : prog = request.afterTarget user target change.local_)
  | finishes (user target : User) (hcopies : request.Copies user target)
      (h : prog = finish request user target)
  | ended (result : Except Error User) (h : prog = .done result)

variable {change : Change}

/-- A process in the middle of a change has one side to set, and nobody else has. -/
structure Kept (a b : String) (sys : Requests) : Prop where
  left : sys.store.Holds a
  right : sys.store.Holds b
  between : ∀ pid process, sys.processes.get pid = some process → process.request.IsBetween a b
  stage : ∀ pid process prog, sys.processes.get pid = some process → process.prog = some prog →
    Stage process.request prog
  alone : ∀ pid pid' process process', sys.processes.get pid = some process →
    sys.processes.get pid' = some process' → ownSide process ≠ none → ownSide process' ≠ none →
      pid = pid'
  agreed : (∀ pid process, sys.processes.get pid = some process → ownSide process = none) →
    agrees (sys.store.statusOf a b) (sys.store.statusOf b a) = true
  half : ∀ pid process status, sys.processes.get pid = some process →
    ownSide process = some status →
      agrees status (sys.store.statusOf process.request.target process.request.user) = true

namespace Kept

variable {a b : String} {sys : Requests} {pid : ℕ} {process : Running} {request : Request}

section

variable (hkept : Kept a b sys) (h : request.IsBetween a b)
include hkept h

theorem holds_user : sys.store.Holds request.user := by
  rcases h with ⟨huse, -⟩ | ⟨huse, -⟩
  · rw [huse]
    exact hkept.left
  · rw [huse]
    exact hkept.right

theorem holds_target : sys.store.Holds request.target := by
  rcases h with ⟨-, htgt⟩ | ⟨-, htgt⟩
  · rw [htgt]
    exact hkept.right
  · rw [htgt]
    exact hkept.left

theorem agreed_of_none
    (hno : ∀ pid process, sys.processes.get pid = some process → ownSide process = none) :
    agrees (sys.store.statusOf request.user request.target)
      (sys.store.statusOf request.target request.user) = true := by
  rw [← h.agrees_eq]
  exact hkept.agreed hno

end

theorem stage_insert (hkept : Kept a b sys)
    (hstg : ∀ prog, process.prog = some prog → Stage process.request prog) :
    ∀ pid' process' prog, (sys.processes.insert pid process).get pid' = some process' →
      process'.prog = some prog → Stage process'.request prog := by
  intro pid' process' prog hg hpr
  rcases get_insert_cases hg with ⟨-, rfl⟩ | hoth
  · exact hstg prog hpr
  · exact hkept.stage pid' process' prog hoth hpr

theorem quiet (hkept : Kept a b sys) {store : Store} (husers : store.users = sys.store.users)
    (hbet : process.request.IsBetween a b)
    (hstg : ∀ prog, process.prog = some prog → Stage process.request prog)
    (hno : ownSide process = none)
    (hold : ∀ old, sys.processes.get pid = some old → ownSide old = none) :
    Kept a b ⟨store, sys.processes.insert pid process⟩ := by
  have hhld : ∀ id, sys.store.Holds id → store.Holds id := by
    intro id hid
    unfold Store.Holds
    rwa [husers]
  have hstat : ∀ user target, store.statusOf user target = sys.store.statusOf user target := by
    intro user target
    unfold Store.statusOf
    rw [husers]
  -- a process with a side to set is another one, and was there before
  have hbef : ∀ pid' process', (sys.processes.insert pid process).get pid' = some process' →
      ownSide process' ≠ none → sys.processes.get pid' = some process' := by
    intro pid' process' hg hsd
    rcases get_insert_cases hg with ⟨-, rfl⟩ | hoth
    · exact absurd hno hsd
    · exact hoth
  refine ⟨hhld a hkept.left, hhld b hkept.right, forall_insert hkept.between hbet,
    hkept.stage_insert hstg, ?_, ?_, ?_⟩
  · intro pid1 pid2 process1 process2 hg1 hg2 hsd1 hsd2
    exact hkept.alone pid1 pid2 process1 process2 (hbef _ _ hg1 hsd1) (hbef _ _ hg2 hsd2) hsd1 hsd2
  · intro hall
    rw [hstat, hstat]
    refine hkept.agreed fun pid' process' hg => ?_
    by_cases hpid : pid' = pid
    · subst hpid
      exact hold process' hg
    · exact hall pid' process' (by rw [get_insert, if_neg hpid]; exact hg)
  · intro pid' process' status hg hsd
    rw [hstat]
    exact hkept.half pid' process' status
      (hbef _ _ hg (by rw [hsd]; exact some_ne_none status)) hsd

variable (process) in
/-- **The target's side is set**, while nobody has set one side only. -/
theorem first (hkept : Kept a b sys) (hne : a ≠ b) (hsnd : change.Sound)
    (hoths : ∀ pid other, sys.processes.get pid = some other → ownSide other = none)
    (hbet : process.request.IsBetween a b)
    (hstg : ∀ prog, process.prog = some prog → Stage process.request prog)
    (hsd : ownSide process = some change.local_) :
    Kept a b ⟨sys.store.setSide process.request.target process.request.user change.remote
      change.note, sys.processes.insert pid process⟩ := by
  have htgt := hkept.holds_target hbet
  have hstat : change.remote ≠ .user := fun heq => by
    have hagr := hsnd.agree
    rw [heq] at hagr
    revert hagr
    cases change.local_ <;> decide
  have hsl : ∀ pid' process', (sys.processes.insert pid process).get pid' = some process' →
      ownSide process' ≠ none → pid' = pid ∧ process' = process := by
    intro pid' process' hg hsm
    rcases get_insert_cases hg with hth | hoth
    · exact hth
    · exact absurd (hoths pid' process' hoth) hsm
  refine ⟨htgt.setSide hkept.left hstat hsnd.note,
    htgt.setSide hkept.right hstat hsnd.note, forall_insert hkept.between hbet,
    hkept.stage_insert hstg, ?_, ?_, ?_⟩
  · intro pid1 pid2 process1 process2 hg1 hg2 hsd1 hsd2
    rw [(hsl _ _ hg1 hsd1).1, (hsl _ _ hg2 hsd2).1]
  · intro hall
    have hno := hall pid process get_insert_self
    rw [hsd] at hno
    cases hno
  · intro pid' process' status hg hsm
    obtain ⟨-, rfl⟩ := hsl pid' process' hg (by rw [hsm]; exact some_ne_none status)
    cases hsd.symm.trans hsm
    rw [Store.statusOf_setSide htgt (hbet.ne hne).symm hstat]
    exact hsnd.agree

/-- **The own side is set**: the change is done. -/
theorem second (hkept : Kept a b sys) (hne : a ≠ b) {old : Running} {status : RelationshipStatus}
    (hg : sys.processes.get pid = some old) (hsd : ownSide old = some status)
    (hreq : process.request = old.request)
    (hstg : ∀ prog, process.prog = some prog → Stage process.request prog)
    (hno : ownSide process = none) :
    Kept a b ⟨sys.store.setSide old.request.user old.request.target status none,
      sys.processes.insert pid process⟩ := by
  have hbet := hkept.between pid old hg
  have huse := hkept.holds_user hbet
  have hagr := hkept.half pid old status hg hsd
  have hstat : status ≠ .user := by
    rintro rfl
    cases hagr
  have hall : ∀ pid' process', (sys.processes.insert pid process).get pid' = some process' →
      ownSide process' = none := by
    intro pid' process' hg'
    by_contra hsm
    rcases get_insert_cases hg' with ⟨-, rfl⟩ | hoth
    · exact hsm hno
    · obtain rfl := hkept.alone pid pid' old process' hg hoth
        (by rw [hsd]; exact some_ne_none status) hsm
      rw [get_insert_self] at hg'
      exact hsm (some.inj hg' ▸ hno)
  have hsid : agrees ((sys.store.setSide old.request.user old.request.target status none).statusOf
        old.request.user old.request.target)
      ((sys.store.setSide old.request.user old.request.target status none).statusOf
        old.request.target old.request.user) = true := by
    rw [Store.statusOf_setSide huse (hbet.ne hne) hstat,
      Store.statusOf_setSide_of_ne huse (hbet.ne hne).symm]
    exact hagr
  refine ⟨huse.setSide hkept.left hstat (fun h => absurd h (by decide)),
    huse.setSide hkept.right hstat (fun h => absurd h (by decide)),
    forall_insert hkept.between (hreq ▸ hbet), hkept.stage_insert hstg, ?_, ?_, ?_⟩
  · intro pid1 pid2 process1 process2 hg1 _ hsd1
    exact absurd (hall pid1 process1 hg1) hsd1
  · intro _
    rw [hbet.agrees_eq]
    exact hsid
  · intro pid' process' status' hg' hsm
    rw [hall pid' process' hg'] at hsm
    cases hsm

end Kept

/-! ### The programs, call by call -/

section Programs

variable (request : Request) (user target : User)

theorem body_eq : ∃ rest, request.body = .call (.fetchUser request.user) rest ∧
    ∀ user, rest (.ok user) = request.afterUser user := ⟨_, rfl, fun _ => rfl⟩

theorem afterUser_eq : ∃ rest, request.afterUser user = .call (.fetchUser request.target) rest ∧
    (∀ target change, request.action.decide user target = .ok change →
      rest (.ok target) = (applyRelationship user target change).bind (finish request user)) ∧
    ∀ target error, request.action.decide user target = .error error →
      rest (.ok target) = .done (.error error) := by
  refine ⟨_, rfl, fun target change hdecid => ?_, fun target error hdecid => ?_⟩
  · show (check (request.action.decide user target)).bind _ = _
    rw [hdecid]
    rfl
  · show (check (request.action.decide user target)).bind _ = _
    rw [hdecid]
    rfl

theorem applyRelationship_eq (change : Change) :
    ∃ rest, (applyRelationship user target change).bind (finish request user) =
        .call (.setRelationship target.id user.id change.remote change.note) rest ∧
      rest (.ok ()) = request.afterTarget user
        (target.withRelationship user.id change.remote change.note) change.local_ := by
  refine ⟨_, rfl, ?_⟩
  exact Prog.bind_assoc (setRelationship user (target.withRelationship user.id change.remote
    change.note) change.local_ none) (fun _ => pure _) (finish request user)

theorem afterTarget_eq (status : RelationshipStatus) :
    ∃ rest, request.afterTarget user target status =
        .call (.setRelationship user.id target.id status none) rest ∧
      rest (.ok ()) = finish request user target := ⟨_, rfl, rfl⟩

theorem finish_cases : (∃ rest, finish request user target =
      .call (.deleteRespectBetween user.id target.id) rest ∧ rest () = .done (.ok target)) ∨
    finish request user target = .done (.ok target) := by
  unfold finish
  split
  · exact .inl ⟨_, rfl, rfl⟩
  · exact .inr rfl

end Programs

/-! ## Every step -/

section Steps

variable {a b : String} {sys : Requests} {pid : ℕ} {request : Request} {user target : User}

theorem ownSide_decides (hcop : request.Copies user target) (hne : request.user ≠ request.target) :
    ownSide ⟨request, some ((applyRelationship user target change).bind (finish request user))⟩ =
      none := by
  exact if_neg (by rw [hcop.target]; exact hne.symm)

theorem targetSide_decides (hcop : request.Copies user target) :
    targetSide ⟨request, some ((applyRelationship user target change).bind
      (finish request user))⟩ = some (change.remote, change.note) := by
  exact if_pos hcop.target

theorem ownSide_half {status : RelationshipStatus} (hcop : request.Copies user target) :
    ownSide ⟨request, some (request.afterTarget user target status)⟩ = some status := by
  exact if_pos hcop.user

theorem ownSide_finish (user target : User) :
    ownSide ⟨request, some (finish request user target)⟩ = none := by
  rcases finish_cases request user target with ⟨rest, heq, -⟩ | heq
  · rw [heq]
    rfl
  · rw [heq]
    rfl

/-- The process is past the own side of a block. -/
def blocked (process : Running) : Bool :=
  match process.prog with
  | some (.call (.deleteRespectBetween ..) _) | some (.done (.ok _)) => true
  | _ => false

/-- What a step of a process comes to. -/
inductive Outcome (a b : String) (sys : Requests) (pid : ℕ) (old : Running) : Requests → Prop where
  | quiet (store : Store) (prog : Program User) (husers : store.users = sys.store.users)
      (hnone : ownSide old = none) (hnone' : ownSide ⟨old.request, some prog⟩ = none)
      (hblocked : blocked ⟨old.request, some prog⟩ = true → blocked old = true)
      (hstage : Stage old.request prog) :
      Outcome a b sys pid old ⟨store, sys.processes.insert pid ⟨old.request, some prog⟩⟩
  | first (user target : User) (change : Change) (hcopies : old.request.Copies user target)
      (hdecided : old.request.Decided change)
      (hside : targetSide old = some (change.remote, change.note)) (hnone : ownSide old = none) :
      Outcome a b sys pid old
        ⟨sys.store.setSide old.request.target old.request.user change.remote change.note,
          sys.processes.insert pid
            ⟨old.request, some (old.request.afterTarget user target change.local_)⟩⟩
  | second (user target : User) (change : Change) (hcopies : old.request.Copies user target)
      (hdecided : old.request.Decided change) (hside : ownSide old = some change.local_) :
      Outcome a b sys pid old ⟨sys.store.setSide old.request.user old.request.target change.local_
        none, sys.processes.insert pid ⟨old.request, some (finish old.request user target)⟩⟩

theorem Kept.outcome (hkept : Kept a b sys) (hne : a ≠ b) {c : Call} {rest : Reply c → Program User}
    (hg : sys.processes.get pid = some ⟨request, some (.call c rest)⟩) :
    Outcome a b sys pid ⟨request, some (.call c rest)⟩ ⟨(perform pid c sys.store).1,
      sys.processes.insert pid ⟨request, some (rest (perform pid c sys.store).2)⟩⟩ := by
  have hbet : request.IsBetween a b := hkept.between pid _ hg
  have hdist := hbet.ne hne
  cases hkept.stage pid _ _ hg rfl with
  | starts h =>
    obtain ⟨rest', heq, hrs⟩ := body_eq request
    rw [heq] at h
    cases h
    obtain ⟨user, huse, hid, -⟩ := hkept.holds_user hbet
    have hrep : (perform pid (.fetchUser request.user) sys.store).2 = .ok user := by
      show okOr _ _ = _
      rw [huse]
      rfl
    rw [hrep, hrs]
    exact .quiet sys.store _ rfl rfl rfl (nofun) (.knows user hid rfl)
  | knows user hid h =>
    obtain ⟨rest', heq, hok, herr⟩ := afterUser_eq request user
    rw [heq] at h
    cases h
    obtain ⟨target, htgt, hid', -⟩ := hkept.holds_target hbet
    have hrep : (perform pid (.fetchUser request.target) sys.store).2 = .ok target := by
      show okOr _ _ = _
      rw [htgt]
      rfl
    rw [hrep]
    have hcop : request.Copies user target := ⟨hid, hid'⟩
    cases hdecid : request.action.decide user target with
    | error error =>
      rw [herr target error hdecid]
      exact .quiet sys.store _ rfl rfl rfl (nofun) (.ended _ rfl)
    | ok change =>
      rw [hok target change hdecid]
      exact .quiet sys.store _ rfl rfl (ownSide_decides hcop hdist) (nofun)
        (.decides user target change hcop ⟨user, target, hcop, Action.decides_of_decide hdecid⟩ rfl)
  | decides user target change hcop hdec h =>
    have hsd : _ = some (change.remote, change.note) := targetSide_decides hcop
    have hno : ownSide ⟨request, some ((applyRelationship user target change).bind
        (finish request user))⟩ = none := ownSide_decides hcop hdist
    obtain ⟨rest', heq, hrs⟩ := applyRelationship_eq request user target change
    rw [heq] at h hsd hno
    cases h
    have hperf : perform pid (.setRelationship target.id user.id change.remote change.note)
        sys.store = (sys.store.setSide request.target request.user change.remote change.note,
          .ok ()) := by
      rw [hcop.user, hcop.target]
      exact (hkept.holds_target hbet).setRelationship_eq
    rw [hperf, hrs]
    exact .first user _ change ⟨hcop.user, (User.withRelationship_id ..).trans hcop.target⟩
      hdec hsd hno
  | half user target change hcop hdec h =>
    have hsd : _ = some change.local_ := ownSide_half hcop
    obtain ⟨rest', heq, hrs⟩ := afterTarget_eq request user target change.local_
    rw [heq] at h hsd
    cases h
    have hperf : perform pid (.setRelationship user.id target.id change.local_ none) sys.store =
        (sys.store.setSide request.user request.target change.local_ none, .ok ()) := by
      rw [hcop.user, hcop.target]
      exact (hkept.holds_user hbet).setRelationship_eq
    rw [hperf, hrs]
    exact .second user target change hcop hdec hsd
  | finishes user target hcop h =>
    rcases finish_cases request user target with ⟨rest', heq, hrs⟩ | heq
    · rw [heq] at h
      cases h
      have hls : rest' (perform pid (.deleteRespectBetween user.id target.id) sys.store).2 =
          .done (.ok target) := hrs
      rw [hls]
      exact .quiet _ _ rfl rfl rfl (fun _ => rfl) (.ended _ rfl)
    · rw [heq] at h
      cases h
  | ended result h => cases h

end Steps

/-! ## Whole runs -/

section Runs

variable {a b : String} {s : Store} {sys : Requests} {request : Request}

theorem Kept.start (hkept : Kept a b sys) {pid : ℕ} (hfr : sys.processes.get pid = none)
    (hbet : request.IsBetween a b) :
    Kept a b ⟨sys.store, sys.processes.insert pid ⟨request, some request.body⟩⟩ := by
  refine hkept.quiet rfl hbet (fun prog hpr => ?_) rfl (fun old hold => ?_)
  · cases hpr
    exact .starts rfl
  · rw [hfr] at hold
    cases hold

theorem Timely.others {pid : ℕ} {old : Running} (htim : Timely sys (.step pid))
    (hg : sys.processes.get pid = some old) {side : RelationshipStatus × Option String}
    (hsd : targetSide old = some side) :
    (∀ pid other, sys.processes.get pid = some other → ownSide other = none) ∧
      ∃ change, old.request.decideOn sys.store = some change ∧
        (change.remote, change.note) = side := by
  obtain ⟨hoths, change, hdeci, heq⟩ := htim old hg side hsd
  exact ⟨fun pid other hoth => hoths other (mem_values.mpr ⟨pid, hoth⟩), change, hdeci, heq⟩

theorem Request.Decided.sound (h : request.Decided change) : change.Sound := by
  obtain ⟨user, target, -, hdeci⟩ := h
  exact hdeci.sound

theorem Outcome.kept (hkept : Kept a b sys) (hne : a ≠ b) {pid : ℕ} {old : Running}
    {next : Requests} (hg : sys.processes.get pid = some old) (htim : Timely sys (.step pid))
    (hout : Outcome a b sys pid old next) : Kept a b next := by
  have hbet := hkept.between pid old hg
  cases hout with
  | quiet store prog husers hno hno' _ hstg =>
    refine hkept.quiet husers hbet (fun prog' hpr => ?_) hno' (fun old' hold => ?_)
    · cases hpr
      exact hstg
    · rw [hg] at hold
      cases hold
      exact hno
  | first user target change hcop hdec hsd hno =>
    refine hkept.first ⟨old.request, some (old.request.afterTarget user target change.local_)⟩ hne
      hdec.sound (htim.others hg hsd).1 hbet (fun prog hpr => ?_)
      (ownSide_half hcop)
    cases hpr
    exact .half user target change hcop hdec rfl
  | second user target change hcop hdec hsd =>
    refine hkept.second hne hg hsd rfl (fun prog hpr => ?_) (ownSide_finish user target)
    cases hpr
    exact .finishes user target hcop rfl

/-- An event that is admitted and timely. -/
def Allowed (a b : String) (sys : Requests) (event : Event Request) : Prop :=
  Admitted a b sys event ∧ Timely sys event

theorem kept_of_run (hne : a ≠ b) (hs : SidesAgree a b s)
    {history : List (Requests × Event Request)}
    (hrun : Run Requests.exec (Allowed a b) (idle s) history sys) : Kept a b sys := by
  refine System.invariant (P := Kept a b) ?_ ?_ ?_ hrun ?_
  · intro sys pid request hadm hfr hkept
    exact hkept.start hfr hadm.1.2
  · intro sys pid request c rest hadm hg hkept
    exact (hkept.outcome hne hg).kept hkept hne hg hadm.2
  · intro sys pid request c rest hadm
    exact absurd hadm.1 id
  · exact ⟨hs.left, hs.right, (nofun), (nofun), (nofun), fun _ => hs.agree, (nofun)⟩

/-! ### A block -/

/-- The user has the other blocked, and no request of the user is about to change that. -/
structure Held (user target : String) (sys : Requests) : Prop where
  status : sys.store.statusOf user target = .blocked
  settled : ∀ pid process, sys.processes.get pid = some process → process.request.user = user →
    ownSide process = none

theorem Request.IsBetween.eq_or_eq {request' : Request} (h : request.IsBetween a b)
    (h' : request'.IsBetween a b) :
    (request'.user = request.user ∧ request'.target = request.target) ∨
      (request'.user = request.target ∧ request'.target = request.user) := by
  rcases h with ⟨huse, htgt⟩ | ⟨huse, htgt⟩ <;>
    rcases h' with ⟨huse', htgt'⟩ | ⟨huse', htgt'⟩
  · exact .inl ⟨huse'.trans huse.symm, htgt'.trans htgt.symm⟩
  · exact .inr ⟨huse'.trans htgt.symm, htgt'.trans huse.symm⟩
  · exact .inr ⟨huse'.trans htgt.symm, htgt'.trans huse.symm⟩
  · exact .inl ⟨huse'.trans huse.symm, htgt'.trans htgt.symm⟩

theorem Kept.decides_of_decideOn (hkept : Kept a b sys)
    (hbet : request.IsBetween a b) (h : request.decideOn sys.store = some change) :
    ∃ user target : User, request.Copies user target ∧
      user.relationshipWith target.id = sys.store.statusOf request.user request.target ∧
      target.relationshipWith user.id = sys.store.statusOf request.target request.user ∧
      Action.Decides user target request.action change := by
  obtain ⟨user, huse, hid, -⟩ := hkept.holds_user hbet
  obtain ⟨target, htgt, hid', -⟩ := hkept.holds_target hbet
  refine ⟨user, target, ⟨hid, hid'⟩, ?_, ?_, ?_⟩
  · rw [Store.statusOf_of_get huse, hid']
  · rw [Store.statusOf_of_get htgt, hid]
  · unfold Request.decideOn at h
    rw [huse, htgt] at h
    refine Action.decides_of_decide ?_
    revert h
    show (request.action.decide user target).toOption = some change → _
    cases request.action.decide user target with
    | error error => exact nofun
    | ok change' => exact fun h => congrArg Except.ok (some.inj h)

section Block

variable {pid : ℕ} {old : Running} {next : Requests} {request : Request}

theorem Held.outcome (hkept : Kept a b sys) (hne : a ≠ b) (hbet : request.IsBetween a b)
    (hhl : Held request.user request.target sys) (hg : sys.processes.get pid = some old)
    (htim : Timely sys (.step pid))
    (hnot : old.request ≠ { request with action := .unblockUser })
    (hout : Outcome a b sys pid old next) : Held request.user request.target next := by
  have hold := hkept.between pid old hg
  have hdist := hbet.ne hne
  have hset : ∀ {process : Running}, (process.request.user = request.user →
      ownSide process = none) → ∀ pid' process',
      (sys.processes.insert pid process).get pid' = some process' →
        process'.request.user = request.user → ownSide process' = none := by
    intro process hproc pid' process' hg' huse'
    rcases get_insert_cases hg' with ⟨-, rfl⟩ | hoth
    · exact hproc huse'
    · exact hhl.settled pid' process' hoth huse'
  cases hout with
  | quiet store prog husers hno hno' _ hstg =>
    refine ⟨?_, hset fun _ => hno'⟩
    have hstat := hhl.status
    unfold Store.statusOf at hstat ⊢
    rwa [husers]
  | first user target change hcop hdec hsd hno =>
    obtain ⟨hoths, change', hdecideOn, heq⟩ := htim.others hg hsd
    obtain ⟨u, t, hcop', hstat, hstat', hdeci⟩ := hkept.decides_of_decideOn hold hdecideOn
    rcases hbet.eq_or_eq hold with ⟨huse, htgt⟩ | ⟨huse, htgt⟩
    · -- the user itself decides on nothing but to unblock
      rw [huse, htgt, hhl.status] at hstat
      have hact := hdeci.eq_unblockUser hstat
      refine absurd ?_ hnot
      obtain ⟨oldRequest, oldProg⟩ := old
      obtain ⟨oldUser, oldTarget, oldAction⟩ := oldRequest
      simp only at huse htgt hact
      rw [huse, htgt, hact]
    · -- the other leaves the user's side blocked
      have hagr := hkept.agreed_of_none hbet hoths
      rw [hhl.status] at hagr
      rw [huse, htgt] at hstat hstat' ⊢
      have hremo : change.remote = .blocked := by
        rw [← (Prod.mk.inj heq).1]
        exact hdeci.remote_eq_blocked (hstat'.trans hhl.status) (by rwa [hstat])
      refine ⟨?_, hset fun hsl => absurd (huse.symm.trans hsl) hdist.symm⟩
      rw [hremo]
      exact Store.statusOf_setSide (hkept.holds_user hbet) hdist (by decide)
  | second user target change hcop hdec hsd =>
    rcases hbet.eq_or_eq hold with ⟨huse, htgt⟩ | ⟨huse, htgt⟩
    · have hno := hhl.settled pid old hg huse
      rw [hsd] at hno
      cases hno
    · refine ⟨?_, hset fun _ => ownSide_finish user target⟩
      rw [huse, htgt, Store.statusOf_setSide_of_ne (hkept.holds_target hbet) hdist]
      exact hhl.status

theorem Held.start {user target : String} (hhl : Held user target sys) (other : Request) :
    Held user target ⟨sys.store, sys.processes.insert pid ⟨other, some other.body⟩⟩ := by
  refine ⟨hhl.status, fun pid' process' hg huse => ?_⟩
  rcases get_insert_cases hg with ⟨-, rfl⟩ | hoth
  · rfl
  · exact hhl.settled pid' process' hoth huse

theorem Held.of_block (hkept : Kept a b sys) (hne : a ≠ b) {user target : User}
    (hg : sys.processes.get pid = some old) (hact : old.request.action = .blockUser)
    (hdec : old.request.Decided change) (hsd : ownSide old = some change.local_) :
    Held old.request.user old.request.target
      ⟨sys.store.setSide old.request.user old.request.target change.local_ none,
        sys.processes.insert pid ⟨old.request, some (finish old.request user target)⟩⟩ := by
  have hbet := hkept.between pid old hg
  have hloc : change.local_ = .blocked := by
    obtain ⟨u, t, -, hdeci⟩ := hdec
    rw [hact] at hdeci
    exact hdeci.local_blockUser
  refine ⟨?_, fun pid' process' hg' _ => ?_⟩
  · rw [hloc]
    exact Store.statusOf_setSide (hkept.holds_user hbet) (hbet.ne hne) (by decide)
  · by_contra hsm
    rcases get_insert_cases hg' with ⟨-, rfl⟩ | hoth
    · exact hsm (ownSide_finish user target)
    · obtain rfl := hkept.alone pid pid' old process' hg hoth
        (by rw [hsd]; exact some_ne_none _) hsm
      rw [get_insert_self] at hg'
      exact hsm (some.inj hg' ▸ ownSide_finish user target)

/-- The block request, and what it has come to. -/
structure Blocking (pid : ℕ) (request : Request) (sys : Requests) : Prop where
  process : ∃ process, sys.processes.get pid = some process ∧ process.request = request ∧
    (blocked process = true → Held request.user request.target sys)

variable {pid' : ℕ}

theorem Blocking.outcome (hkept : Kept a b sys) (hne : a ≠ b) (hact : request.action = .blockUser)
    (hblo : Blocking pid request sys) (hg : sys.processes.get pid' = some old)
    (htim : Timely sys (.step pid')) (hnot : old.request ≠ { request with action := .unblockUser })
    (hout : Outcome a b sys pid' old next) : Blocking pid request next := by
  obtain ⟨process, hproc, hreq, hhl⟩ := hblo.process
  have hbet : request.IsBetween a b := hreq ▸ hkept.between pid process hproc
  have hstl : blocked process = true → Held request.user request.target next := fun hbloc =>
    (hhl hbloc).outcome hkept hne hbet hg htim hnot hout
  by_cases hpid : pid = pid'
  · subst hpid
    obtain rfl : process = old := some.inj (hproc.symm.trans hg)
    subst hreq
    cases hout with
    | quiet store prog husers hno hno' hbloc hstg =>
      exact ⟨⟨⟨process.request, some prog⟩, by rw [get_insert_self], rfl,
        fun h => hstl (hbloc h)⟩⟩
    | first user target change hcop hdec hsd hno =>
      refine ⟨⟨⟨process.request, some (process.request.afterTarget user target change.local_)⟩,
        by rw [get_insert_self], rfl, fun h => ?_⟩⟩
      cases h
    | second user target change hcop hdec hsd =>
      exact ⟨⟨⟨process.request, some (finish process.request user target)⟩,
        by rw [get_insert_self], rfl,
        fun _ => Held.of_block hkept hne hg hact hdec hsd⟩⟩
  · refine ⟨⟨process, ?_, hreq, hstl⟩⟩
    cases hout <;> rw [get_insert, if_neg hpid] <;> exact hproc

theorem Blocking.start (hblo : Blocking pid request sys) (other : Request)
    (hfr : sys.processes.get pid' = none) :
    Blocking pid request ⟨sys.store, sys.processes.insert pid' ⟨other, some other.body⟩⟩ := by
  obtain ⟨process, hproc, hreq, hhl⟩ := hblo.process
  have hpid : pid ≠ pid' := by
    rintro rfl
    rw [hfr] at hproc
    cases hproc
  refine ⟨⟨process, ?_, hreq, fun hbloc => (hhl hbloc).start other⟩⟩
  rw [get_insert, if_neg hpid]
  exact hproc

theorem blocking_of_run (hne : a ≠ b) {user target : String} {first : Requests}
    (hkept : Kept a b first) (hblo : Blocking pid ⟨user, target, .blockUser⟩ first)
    {history : List (Requests × Event Request)}
    (hrun : Run Requests.exec (Allowed a b) first history sys)
    (hnot : ∀ entry ∈ history, steps entry ≠ some ⟨user, target, .unblockUser⟩) :
    Kept a b sys ∧ Blocking pid ⟨user, target, .blockUser⟩ sys := by
  have hfor : ∀ (history : List (Requests × Event Request)) (entry : Requests × Event Request),
      (∀ entry' ∈ history ++ [entry], steps entry' ≠ some ⟨user, target, .unblockUser⟩) →
        ∀ entry' ∈ history, steps entry' ≠ some ⟨user, target, .unblockUser⟩ :=
    fun history entry h entry' hmem => h entry' (mem_append_left _ hmem)
  refine System.invariant_history (P := fun history sys =>
    (∀ entry ∈ history, steps entry ≠ some ⟨user, target, .unblockUser⟩) →
      Kept a b sys ∧ Blocking pid ⟨user, target, .blockUser⟩ sys) ?_ ?_ ?_ ?_ hrun
    (fun _ => ⟨hkept, hblo⟩) hnot
  · intro history sys event _ _ ih hnot
    exact ih (hfor _ _ hnot)
  · intro history sys pid' other _ hadm hfr ih hnot
    obtain ⟨hkept, hblo⟩ := ih (hfor _ _ hnot)
    exact ⟨hkept.start hfr hadm.1.2, hblo.start other hfr⟩
  · intro history sys pid' other c rest _ hadm hg ih hnot
    obtain ⟨hkept, hblo⟩ := ih (hfor _ _ hnot)
    have hout := hkept.outcome hne hg
    have hoth : other ≠ ⟨user, target, .unblockUser⟩ := by
      intro heq
      refine hnot (sys, .step pid') (mem_append_right _ (mem_singleton.mpr rfl)) ?_
      show (sys.processes.get pid').map Process.request = _
      rw [hg]
      exact congrArg some heq
    exact ⟨hout.kept hkept hne hg hadm.2, hblo.outcome hkept hne rfl hg hadm.2 hoth hout⟩
  · intro history sys pid' other c rest _ hadm
    exact absurd hadm.1 id

end Block

end Runs

/-- **A block holds and both sides agree**, in every run of two users' timely requests about each
other. -/
theorem block_holds_and_sides_agree {a b : String} (hne : a ≠ b) {s : Store} (hs : SidesAgree a b s)
    {history : List (Requests × Event Request)} {sys : Requests}
    (hrun : Run Requests.exec (fun sys event => Admitted a b sys event ∧ Timely sys event)
      (idle s) history sys) :
    BlocksHold history sys ∧ (sys.AllEnded → SidesAgree a b sys.store) := by
  constructor
  · intro user target pid before m after answer hhistory hreturned hnot
    subst hhistory
    obtain ⟨hbefore, hstart, hafter⟩ := hrun.split_at
    have hkept : Kept a b m := kept_of_run hne hs hbefore
    -- from its start on the block is under way, or holds
    have hblocking : Blocking pid ⟨user, target, .blockUser⟩
        ⟨m.store, m.processes.insert pid ⟨⟨user, target, .blockUser⟩,
          some (Request.body ⟨user, target, .blockUser⟩)⟩⟩ :=
      ⟨⟨_, by rw [get_insert_self], rfl, fun h => by cases h⟩⟩
    have hnext : (Requests.exec m (.start pid ⟨user, target, .blockUser⟩)).1 =
        ⟨m.store, m.processes.insert pid ⟨⟨user, target, .blockUser⟩,
          some (Request.body ⟨user, target, .blockUser⟩)⟩⟩ := by
      simp only [Requests.exec, System.exec, hstart.1.1]
    rw [hnext] at hafter
    obtain ⟨process, hget, -, hheld⟩ :=
      (blocking_of_run hne (hkept.start hstart.1.1 hstart.1.2) hblocking hafter hnot).2.process
    cases hget.symm.trans (System.returned_eq_some.mp hreturned)
    exact (hheld rfl).status
  · intro hended
    have hkept := kept_of_run hne hs hrun
    refine ⟨hkept.left, hkept.right, hkept.agreed fun pid process hget => ?_⟩
    obtain ⟨result, hprog⟩ := hended pid process hget
    unfold ownSide Process.next?
    rw [hprog]

/-! ## Two users -/

def twoUsers (left right : Option (List Relationship)) : Store where
  users := ((∅ : Table String User).insert "A" ⟨"A", false, left⟩).insert "B" ⟨"B", false, right⟩
  userRespect := []

theorem sidesAgree_strangers : SidesAgree "A" "B" (twoUsers none none) := by
  have htd : ∀ id, User.Tidy ⟨id, false, none⟩ := by
    intro id
    exact ⟨List.nodup_nil, nofun⟩
  exact ⟨⟨_, rfl, rfl, htd "A"⟩, ⟨_, rfl, rfl, htd "B"⟩, rfl⟩

def add (user target : String) : Request := ⟨user, target, .addFriend none 10⟩

def block : Request := ⟨"A", "B", .blockUser⟩

def remove : Request := ⟨"B", "A", .removeFriend⟩

/-- B asks A to be friends, A blocks B, and B cannot take the request back. -/
def blockedInTurn : List (Event Request) :=
  [.start 0 (add "B" "A"), .step 0, .step 0, .step 0, .start 1 block, .step 1, .step 0, .step 1,
    .step 1, .step 1, .step 1, .start 2 remove, .step 2, .step 2]

theorem block_holds_in_turn :
    (execAll Requests.exec (idle (twoUsers none none)) blockedInTurn).store.statusOf
      "A" "B" = .blocked ∧
    SidesAgree "A" "B"
      (execAll Requests.exec (idle (twoUsers none none)) blockedInTurn).store := by
  have hrun : Run Requests.exec (fun sys event => Admitted "A" "B" sys event ∧ Timely sys event)
      (idle (twoUsers none none)) _
      (execAll Requests.exec (idle (twoUsers none none)) blockedInTurn) :=
    Run.of_admitsAll (by decide)
  obtain ⟨hblock, hagree⟩ := block_holds_and_sides_agree (by decide) sidesAgree_strangers hrun
  refine ⟨?_, hagree (System.allEnded_of_all (by decide))⟩
  exact hblock "A" "B" 1 (historyOf Requests.exec (idle (twoUsers none none))
    (blockedInTurn.take 4)) _ _ _ rfl rfl (by decide)

/-! ## Acting on an older copy -/

/-- B has fetched both users when A blocks it, and sets the two sides of its request after that. -/
def askedMeanwhile : List (Event Request) :=
  [.start 0 (add "B" "A"), .step 0, .step 0, .start 1 block, .step 1, .step 1, .step 1, .step 1,
    .step 1, .step 0, .step 0]

/-- A accepts the request of B while B takes it back. -/
def acceptedMeanwhile : List (Event Request) :=
  [.start 0 (add "A" "B"), .step 0, .step 0, .start 1 remove, .step 1, .step 1, .step 0, .step 1,
    .step 1, .step 0]

/-- B waits for an answer of A. -/
def asking : Store := twoUsers (some [⟨"B", .incoming, none⟩]) (some [⟨"A", .outgoing, none⟩])

theorem sidesAgree_asking : SidesAgree "A" "B" asking := by
  have htd : ∀ id relation, (relation : Relationship).note = none →
      User.Tidy ⟨id, false, some [relation]⟩ := by
    intro id relation hnt
    refine ⟨nodup_singleton _, fun relation' hmem hsm => ?_⟩
    rw [mem_singleton.mp hmem, hnt] at hsm
    cases hsm
  exact ⟨⟨_, rfl, rfl, htd "A" _ rfl⟩, ⟨_, rfl, rfl, htd "B" _ rfl⟩, rfl⟩

/-- **A block undone, and half a friendship.** B sets its request on the block of A, and in the end
A has B as a friend and B has nothing. -/
theorem block_undone_and_half_friends : (¬ ∀ s history sys, SidesAgree "A" "B" s →
      Run Requests.exec (Admitted "A" "B") (idle s) history sys → BlocksHold history sys) ∧
    ¬ ∀ s history sys, SidesAgree "A" "B" s →
      Run Requests.exec (Admitted "A" "B") (idle s) history sys → sys.AllEnded →
        SidesAgree "A" "B" sys.store := by
  constructor
  · intro hall
    have hblocked := hall (twoUsers none none) _
      (execAll Requests.exec (idle (twoUsers none none)) askedMeanwhile)
      sidesAgree_strangers (Run.of_admitsAll (by decide)) "A" "B" 1
      (historyOf Requests.exec (idle (twoUsers none none)) (askedMeanwhile.take 3)) _ _ _
      rfl rfl (by decide)
    exact absurd hblocked (by decide)
  · intro hall
    have hsides := hall asking _ (execAll Requests.exec (idle asking) acceptedMeanwhile)
      sidesAgree_asking (Run.of_admitsAll (by decide)) (System.allEnded_of_all (by decide))
    exact absurd hsides.agree (by decide)

end SlogaBackend.Relationships
