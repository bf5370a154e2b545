import Mathlib.Data.Finset.Basic
import SlogaBackend.Lib.Publications

/-!
# Presence

Redis keeps a set of session ids for every user, and one set of the users that are online. A new
session is added to the first and its user to the second. Whoever takes a session away reads how
many are left, and takes the user out of the second set if that was none.

The single commands are the atomic steps; no command spans both sets.
-/

namespace SlogaBackend.Presence

/-! ## The sets -/

/-- The sets in Redis: the sessions of each user, the `ONLINE_SET`, and the sessions of the region.
A user id is the name of neither of the other keys. -/
structure Redis where
  sessions : String → Finset UInt32
  online : Finset String
  region : Finset (String × UInt32)

/-- The commands the driver sends. -/
inductive Command where
  | getSetSize (user : String)
  | addSession (user : String) (session : UInt32)
  | removeSession (user : String) (session : UInt32)
  | addOnline (user : String)
  | removeOnline (user : String)
  | addRegion (user : String) (session : UInt32)
  | removeRegion (user : String) (session : UInt32)

abbrev Reply : Command → Type
  | .getSetSize _ => Nat
  | _ => Unit

/-- The sessions of one user replaced. -/
def Redis.setSessions (s : Redis) (user : String) (sessions : Finset UInt32) : Redis :=
  { s with sessions := fun other => if other = user then sessions else s.sessions other }

def perform (_ : Nat) : (c : Command) → Redis → Redis × Reply c
  | .getSetSize user, s => (s, (s.sessions user).card)
  | .addSession user session, s => (s.setSessions user (insert session (s.sessions user)), ())
  | .removeSession user session, s => (s.setSessions user ((s.sessions user).erase session), ())
  | .addOnline user, s => ({ s with online := insert user s.online }, ())
  | .removeOnline user, s => ({ s with online := s.online.erase user }, ())
  | .addRegion user session, s => ({ s with region := insert (user, session) s.region }, ())
  | .removeRegion user session, s => ({ s with region := s.region.erase (user, session) }, ())

@[simp] theorem sessions_setSessions (s : Redis) (user other : String) (sessions : Finset UInt32) :
    (s.setSessions user sessions).sessions other =
      if other = user then sessions else s.sessions other := rfl

/-! ## The calls -/

def flagBits : UInt32 := 0b1

/-- Random data with the flags in its last bit. -/
def sessionId (random : UInt32) (flags : UInt8) : UInt32 :=
  (random &&& ~~~flagBits) ||| (flags.toUInt32 &&& flagBits)

inductive Response where
  | created (wasEmpty : Bool) (session : UInt32)
  | deleted (isEmpty : Bool)

abbrev Program := Prog Unit Command Reply Response

/-- `create_session`; `random` is what the generator draws. -/
def createSession (user : String) (flags : UInt8) (random : UInt32) : Program := do
  let size ← op (Command.getSetSize user)
  let _ ← op (Command.addSession user (sessionId random flags))
  let _ ← op (Command.addOnline user)
  let _ ← op (Command.addRegion user (sessionId random flags))
  return .created (size == 0) (sessionId random flags)

/-- What `delete_session_internal` does once the session is gone. -/
def settleOnline (user : String) : Program := do
  let size ← op (Command.getSetSize user)
  if size = 0 then
    let _ ← op (Command.removeOnline user)
    return .deleted true
  else return .deleted false

def deleteSessionInternal (user : String) (session : UInt32) (skipRegion : Bool) : Program := do
  let _ ← op (Command.removeSession user session)
  if skipRegion then settleOnline user
  else
    let _ ← op (Command.removeRegion user session)
    settleOnline user

def deleteSession (user : String) (session : UInt32) : Program :=
  deleteSessionInternal user session false

inductive Request where
  | create (user : String) (flags : UInt8) (random : UInt32)
  | delete (user : String) (session : UInt32)
  deriving DecidableEq

def Request.program : Request → Program
  | .create user flags random => createSession user flags random
  | .delete user session => deleteSession user session

abbrev Sessions := System Redis Request Unit Command Reply Response

def Sessions.exec : Sessions → Event Request → Sessions × Unit :=
  System.exec perform Request.program

/-! ## The two views -/

/-- `is_online`: a set that has become empty is no key. -/
def isOnline (s : Redis) (user : String) : Bool := (s.sessions user).card ≠ 0

def filterOnline (patched : Bool) (s : Redis) (users : List String) : List String :=
  if patched then
    match users with
    | [] => []
    | [user] => if isOnline s user then [user] else []
    | users => users.filter fun user => user ∈ s.online
  else users.filter fun user => user ∈ s.online

end SlogaBackend.Presence
