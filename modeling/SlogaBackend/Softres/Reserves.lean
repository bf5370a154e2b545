import SlogaBackend.Base
import SlogaBackend.Lib.Counters
import SlogaBackend.Lib.Processes

/-!
# Soft reserves

A sheet holds one row for every raider, with the items that the raider reserves. A sheet may cap how
many copies of an item all rows hold together. A request looks whether its items fit, writes its
row, and looks again; if they no longer fit, or the sheet was locked in the meantime, it puts the row
back that was there before.

The single calls to the store are the atomic steps.
-/

namespace SlogaBackend.Softres

open Checks

/-! ## The stored documents -/

inductive WowClass where
  | warrior | paladin | hunter | rogue | priest | shaman | mage | warlock | druid | deathKnight
  deriving DecidableEq

def WowClass.asStr : WowClass → String
  | .warrior => "warrior"
  | .paladin => "paladin"
  | .hunter => "hunter"
  | .rogue => "rogue"
  | .priest => "priest"
  | .shaman => "shaman"
  | .mage => "mage"
  | .warlock => "warlock"
  | .druid => "druid"
  | .deathKnight => "deathknight"

/-- Death Knights only exist in Wrath. -/
def WowClass.validInEdition (cls : WowClass) (edition : String) : Bool :=
  cls ≠ .deathKnight || edition = "wrath"

structure SoftResSheet where
  id : String
  channel : String
  edition : String
  raids : List String
  reservesPerUser : Nat
  perItemCap : Option Nat
  allowDuplicates : Bool
  classRestriction : Bool
  locksAt : Option Int
  hardReserves : List UInt32
  locked : Bool

def SoftResSheet.isLockedNow (sheet : SoftResSheet) (nowMs : Int) : Bool :=
  sheet.locked || sheet.locksAt.any fun t => t ≤ nowMs

structure SoftResReserveRow where
  sheet : String
  user : String
  channel : String
  characterName : String
  cls : WowClass
  items : List UInt32
  note : Option String
  plusOnes : Int
  editedAt : Int

/-- One sheet, if it is there, and its rows by their users, who make up the rest of their keys. -/
structure Store where
  sheet : Option SoftResSheet
  reserves : Table String SoftResReserveRow

/-! ## The calls -/

inductive SoftresError where
  | failedValidation
  | notFound
  | locked
  | invalidProperty
  | invalidItems
  | classRestricted
  | itemCapReached
  /-- What the permission checks answer. -/
  | refused (error : Error)

inductive Call where
  | fetchSheet
  | upsertReserve (row : SoftResReserveRow)
  /-- `upsert_reserve` of a row that was there before. -/
  | restoreReserve (row : SoftResReserveRow)
  | removeReserve (user : String)
  | fetchReserves
  | countItemReservations (item : UInt32) (excludeUser : String)

abbrev Reply : Call → Type
  | .fetchSheet => Except SoftresError SoftResSheet
  | .upsertReserve _ => Option SoftResReserveRow
  | .restoreReserve _ => Option SoftResReserveRow
  | .removeReserve _ => Option SoftResReserveRow
  | .fetchReserves => List SoftResReserveRow
  | .countItemReservations .. => Nat

/-- The copies of an item in the rows of all but one user. -/
def countItemReservations (s : Store) (item : UInt32) (excludeUser : String) : Nat :=
  ((s.reserves.values.filter fun row => row.user ≠ excludeUser).flatMap
    SoftResReserveRow.items).count item

def perform (_ : Nat) : (c : Call) → Store → Store × Reply c
  | .fetchSheet, s => (s, okOr s.sheet .notFound)
  | .upsertReserve row, s =>
    ({ s with reserves := s.reserves.insert row.user row }, s.reserves.get row.user)
  | .restoreReserve row, s =>
    ({ s with reserves := s.reserves.insert row.user row }, s.reserves.get row.user)
  | .removeReserve user, s => ({ s with reserves := s.reserves.erase user }, s.reserves.get user)
  | .fetchReserves, s => (s, s.reserves.values)
  | .countItemReservations item excludeUser, s => (s, countItemReservations s item excludeUser)

/-! ## The requests -/

structure DataSoftResReserve where
  characterName : String
  cls : WowClass
  items : List UInt32
  note : Option String

/-- What the catalog says of an item: the classes that can use it, if not all can. -/
structure CatalogItem where
  allowableClasses : Option (List String)

/-- What is looked up outside: the letters of all scripts, and the loot tables of the raids. -/
structure Catalog where
  isAlphabetic : Char → Bool
  itemInRaids : UInt32 → List String → Option CatalogItem

/-- A request on the sheet; `nowMs` is the time of its first look at the sheet, `laterMs` of the
second, `editedMs` the one in its row, and `permissions` are the checks on the channel. -/
inductive Request where
  | reserve (user channel : String) (permissions : Result Unit) (data : DataSoftResReserve)
      (nowMs editedMs laterMs : Int)
  | unreserve (user channel : String) (permissions : Result Unit) (nowMs laterMs : Int)

def Request.user : Request → String
  | .reserve user .. => user
  | .unreserve user .. => user

abbrev Program := Prog SoftresError Call Reply (List SoftResReserveRow)

/-- The checks on the data alone. -/
def DataSoftResReserve.validate (data : DataSoftResReserve) : Except SoftresError Unit := do
  refuseIf (¬(2 ≤ data.characterName.length ∧ data.characterName.length ≤ 12)) .failedValidation
  refuseIf (¬(1 ≤ data.items.length ∧ data.items.length ≤ 10)) .failedValidation
  refuseIf (data.note.any (fun note => 200 < note.length) = true) .failedValidation

/-- What an item of a request is refused for. -/
def checkItem (catalog : Catalog) (sheet : SoftResSheet) (cls : WowClass) (itemId : UInt32) :
    Except SoftresError Unit := do
  refuseIf (itemId ∈ sheet.hardReserves) .invalidItems
  let item ← okOr (catalog.itemInRaids itemId sheet.raids) .invalidItems
  refuseIf (sheet.classRestriction = true ∧
    item.allowableClasses.any (fun allowed => decide (cls.asStr ∉ allowed)) = true) .classRestricted

def validateReserveItems (catalog : Catalog) (sheet : SoftResSheet) (items : List UInt32)
    (cls : WowClass) : Except SoftresError Unit := do
  refuseIf (sheet.allowDuplicates = false ∧ ¬items.Nodup) .invalidItems
  items.forM (checkItem catalog sheet cls)

/-- The checks on the sheet that was read. -/
def checkOpen (sheet : SoftResSheet) (channel : String) (nowMs : Int) :
    Except SoftresError Unit := do
  refuseIf (sheet.channel ≠ channel) .notFound
  refuseIf (sheet.isLockedNow nowMs = true) .locked

def checkData (catalog : Catalog) (sheet : SoftResSheet) (data : DataSoftResReserve) :
    Except SoftresError Unit := do
  refuseIf (data.characterName.toList.all catalog.isAlphabetic = false) .invalidProperty
  refuseIf (data.cls.validInEdition sheet.edition = false) .invalidProperty
  refuseIf (data.items = [] ∨ sheet.reservesPerUser < data.items.length) .invalidProperty
  validateReserveItems catalog sheet data.items data.cls

/-- The items of a request, each once. -/
def distinct (items : List UInt32) : List UInt32 := (items.insertionSort (· ≤ ·)).dedup

/-- Count the copies of these items in the other rows; go on with `refused` at the first that does not
fit, and with `fits` if all do. -/
def checkCap (user : String) (items : List UInt32) (cap : Nat) (refused fits : Program) :
    List UInt32 → Program
  | [] => fits
  | item :: remaining => do
    let others ← op (Call.countItemReservations item user)
    if others + items.count item > cap then refused
    else checkCap user items cap refused fits remaining

def checkPerItemCap (sheet : SoftResSheet) (user : String) (items : List UInt32)
    (refused fits : Program) : Program :=
  match sheet.perItemCap with
  | some cap => checkCap user items cap refused fits (distinct items)
  | none => fits

/-- `publish_reserve_update`: the rows that the answer is made of. -/
def publishReserveUpdate : Program := op Call.fetchReserves

def restorePrevious (user : String) (error : SoftresError) : Option SoftResReserveRow → Program
  | some row => do
    let _ ← op (Call.restoreReserve row)
    check (.error error)
  | none => do
    let _ ← op (Call.removeReserve user)
    check (.error error)

/-- The second look at the sheet, after a row was written. -/
def recheckLock (user : String) (laterMs : Int) (previous : Option SoftResReserveRow) : Program := do
  let fetched ← op Call.fetchSheet
  match fetched with
  | .error error =>
    let _ ← op (Call.removeReserve user)
    check (.error error)
  | .ok fresh =>
    if fresh.isLockedNow laterMs then restorePrevious user .locked previous
    else publishReserveUpdate

/-- The row that a request writes. -/
def newRow (sheet : SoftResSheet) (user : String) (data : DataSoftResReserve) (editedMs : Int) :
    SoftResReserveRow where
  sheet := sheet.id
  user := user
  channel := sheet.channel
  characterName := data.characterName
  cls := data.cls
  items := data.items
  note := data.note
  plusOnes := 0
  editedAt := editedMs

def writeRow (sheet : SoftResSheet) (user : String) (data : DataSoftResReserve)
    (editedMs laterMs : Int) : Program := do
  let previous ← op (Call.upsertReserve (newRow sheet user data editedMs))
  checkPerItemCap sheet user data.items (restorePrevious user .itemCapReached previous)
    (recheckLock user laterMs previous)

def softresReserve (catalog : Catalog) (user channel : String) (permissions : Result Unit)
    (data : DataSoftResReserve) (nowMs editedMs laterMs : Int) : Program := do
  check data.validate
  check (permissions.mapError .refused)
  let fetched ← op Call.fetchSheet
  let sheet ← check fetched
  check (checkOpen sheet channel nowMs)
  check (checkData catalog sheet data)
  checkPerItemCap sheet user data.items (check (.error .itemCapReached))
    (writeRow sheet user data editedMs laterMs)

/-- What follows the removal of a row. -/
def recheckRemoved (laterMs : Int) : Option SoftResReserveRow → Program
  | some removed => do
    let fetched ← op Call.fetchSheet
    let fresh ← check fetched
    if fresh.isLockedNow laterMs then
      let _ ← op (Call.restoreReserve removed)
      check (.error .locked)
    else publishReserveUpdate
  | none => op Call.fetchReserves

def softresUnreserve (user channel : String) (permissions : Result Unit) (nowMs laterMs : Int) :
    Program := do
  check (permissions.mapError .refused)
  let fetched ← op Call.fetchSheet
  let sheet ← check fetched
  check (checkOpen sheet channel nowMs)
  let previous ← op (Call.removeReserve user)
  recheckRemoved laterMs previous

def Request.program (catalog : Catalog) : Request → Program
  | .reserve user channel permissions data nowMs editedMs laterMs =>
    softresReserve catalog user channel permissions data nowMs editedMs laterMs
  | .unreserve user channel permissions nowMs laterMs =>
    softresUnreserve user channel permissions nowMs laterMs

abbrev Sheets := System Store Request SoftresError Call Reply (List SoftResReserveRow)

def Sheets.exec (catalog : Catalog) : Sheets → Event Request → Sheets × Unit :=
  System.exec perform (Request.program catalog)

end SlogaBackend.Softres
