import SlogaBackend.Lib.Processes
import SlogaBackend.Permissions.Query

/-!
# Relationships

A relationship is stored twice, with each of the two users. A request fetches both of them, decides
on its copies what the two sides shall be, and then sets one side and the other.
-/

namespace SlogaBackend.Relationships

open Checks Permissions

inductive Error where
  | isBot
  | noEffect
  | alreadyFriends
  | alreadySentRequest
  | blocked
  | blockedByOther
  | tooManyPendingFriendRequests (max : ℕ)
  | internalError
  | notFound

/-- The entry that one user has about another. -/
structure Relationship where
  id : String
  status : RelationshipStatus
  /-- what came with a friend request -/
  note : Option String

structure User where
  id : String
  /-- whether the user is a bot -/
  bot : Bool
  relations : Option (List Relationship)

namespace User

def entries (user : User) : List Relationship := user.relations.getD []

def relationshipWith (user : User) (userB : String) : RelationshipStatus :=
  if user.id = userB then .user
  else
    match user.entries.find? fun relationship => relationship.id = userB with
    | some relationship => relationship.status
    | none => .none

def withoutRelationship (user : User) (userB : String) : User :=
  { user with relations := user.relations.map fun relations =>
      relations.filter fun relation => relation.id ≠ userB }

/-- The entry about the other is replaced, or removed if there is nothing to say. -/
def withRelationship (user : User) (userB : String) (status : RelationshipStatus)
    (note : Option String) : User :=
  match status with
  | .none | .user => user.withoutRelationship userB
  | status =>
    { user with relations := some ((user.withoutRelationship userB).entries ++
        [⟨userB, status, note⟩]) }

end User

/-! ## The store -/

structure UserRespect where
  targetId : String
  authorId : String

structure Store where
  users : Table String User
  userRespect : List UserRespect

inductive Call where
  | fetchUser (id : String)
  | setRelationship (userId targetId : String) (relationship : RelationshipStatus)
      (note : Option String)
  | deleteRespectBetween (userA userB : String)

@[reducible] def Reply : Call → Type
  | .fetchUser _ => Except Error User
  | .setRelationship .. => Except Error Unit
  | .deleteRespectBetween .. => Unit

def Store.setRelationship (s : Store) (userId targetId : String)
    (relationship : RelationshipStatus) (note : Option String) : Store × Except Error Unit :=
  match s.users.get userId with
  | some user =>
    ({ s with users := s.users.insert userId (user.withRelationship targetId relationship note) },
      .ok ())
  | none => (s, .error .notFound)

def UserRespect.isBetween (userA userB : String) (row : UserRespect) : Bool :=
  (row.targetId = userA && row.authorId = userB) || (row.targetId = userB && row.authorId = userA)

def perform : ℕ → (c : Call) → Store → Store × Reply c
  | _, .fetchUser id, s => (s, okOr (s.users.get id) .notFound)
  | _, .setRelationship userId targetId relationship note, s =>
    s.setRelationship userId targetId relationship note
  | _, .deleteRespectBetween userA userB, s =>
    ({ s with userRespect := s.userRespect.filter fun row => !row.isBetween userA userB }, ())

/-! ## The requests -/

/-- What the two sides shall be; the note lands on the target's. -/
structure Change where
  local_ : RelationshipStatus
  remote : RelationshipStatus
  note : Option String

/-- `limit` is what the user may have of outgoing requests at the time. -/
def User.addFriend (user target : User) (note : Option String) (limit : ℕ) : Except Error Change :=
  match user.relationshipWith target.id with
  | .user => .error .noEffect
  | .friend => .error .alreadyFriends
  | .outgoing => .error .alreadySentRequest
  | .blocked => .error .blocked
  | .blockedOther => .error .blockedByOther
  | .incoming => .ok ⟨.friend, .friend, none⟩
  | .none =>
    let count := user.entries.countP fun relation => relation.status = .outgoing
    if limit ≤ count then .error (.tooManyPendingFriendRequests limit)
    else .ok ⟨.outgoing, .incoming, note⟩

def User.removeFriend (user target : User) : Except Error Change :=
  match user.relationshipWith target.id with
  | .friend | .outgoing | .incoming => .ok ⟨.none, .none, none⟩
  | _ => .error .noEffect

def User.blockUser (user target : User) : Except Error Change :=
  match user.relationshipWith target.id with
  | .user | .blocked => .error .noEffect
  | .blockedOther => .ok ⟨.blocked, .blocked, none⟩
  | .none | .friend | .incoming | .outgoing => .ok ⟨.blocked, .blockedOther, none⟩

def User.unblockUser (user target : User) : Except Error Change :=
  match user.relationshipWith target.id with
  | .blocked =>
    match target.relationshipWith user.id with
    | .blocked => .ok ⟨.blockedOther, .blocked, none⟩
    | .blockedOther => .ok ⟨.none, .none, none⟩
    | _ => .error .internalError
  | _ => .error .noEffect

inductive Action where
  /-- without a note when a request is accepted -/
  | addFriend (note : Option String) (limit : ℕ)
  | removeFriend
  | blockUser
  | unblockUser
  deriving DecidableEq

/-- What a user asks about another. -/
structure Request where
  user : String
  target : String
  action : Action
  deriving DecidableEq

def checkBots (user target : User) : Except Error Unit := refuseIf (user.bot ∨ target.bot) .isBot

/-- What the request does, on these copies of the two users. -/
def Action.decide (action : Action) (user target : User) : Except Error Change :=
  match action with
  | .addFriend note limit => do
    checkBots user target
    user.addFriend target note limit
  | .removeFriend => do
    checkBots user target
    user.removeFriend target
  | .blockUser => user.blockUser target
  | .unblockUser => user.unblockUser target

abbrev Program (α : Type) := Prog Error Call Reply α

def fetchUser (id : String) : Program User := do check (← op (Call.fetchUser id))

/-- Set the side of the user, in the store and in the copy. -/
def setRelationship (user userB : User) (status : RelationshipStatus) (note : Option String) :
    Program User := do
  check (← op (Call.setRelationship user.id userB.id status note))
  return user.withRelationship userB.id status note

/-- First the target's side, then the user's own; the target is what is answered. -/
def applyRelationship (user target : User) (change : Change) : Program User := do
  let target ← setRelationship target user change.remote change.note
  let _ ← setRelationship user target change.local_ none
  return target

/-- A block takes the respects between the two off their walls. -/
def finish (request : Request) (user target : User) : Program User :=
  match request.action with
  | .blockUser => do
    op (Call.deleteRespectBetween user.id target.id)
    return target
  | _ => return target

def Request.body (request : Request) : Program User := do
  let user ← fetchUser request.user
  let target ← fetchUser request.target
  let change ← check (request.action.decide user target)
  let target ← applyRelationship user target change
  finish request user target

abbrev Requests := System Store Request Error Call Reply User

def Requests.exec : Requests → Event Request → Requests × Unit := System.exec perform Request.body

end SlogaBackend.Relationships
