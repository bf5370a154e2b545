import Mathlib.Algebra.Order.BigOperators.Group.List
import SlogaBackend.Lib.Publications
import SlogaBackend.Softres.Reserves

/-!
# The cap on an item

A row that a request has just written is looked at again, and given up if an item no longer fits.
So a row counts against the cap for good only once the request has counted the item again: until
then it is *pending* for that item. What the settled rows hold stays within the cap, whatever the
order of the requests, because whoever settles an item counts all rows, the pending ones too.

A request that gives up puts back the row that was there before, and does not look again. Somebody
else may have taken the copies that it gave up in the meantime.

* `Stage`: where a request is.
* `cap_holds`: the rows hold at most the cap, in every run in which whatever is put back still is
  `Fitting`.
* `cap_exceeded`: a run in which it is not.
-/

namespace SlogaBackend.Softres

/-! ## Pending items -/

/-- A process over the sheet. -/
abbrev Raider := Process Request SoftresError Call Reply (List SoftResReserveRow)

/-- The items that the program counts from here on, if it has written its row and they fit. -/
def toCount : Program → Option (List UInt32)
  | .call (.countItemReservations item _) rest => (toCount (rest 0)).map (item :: ·)
  | .call (.upsertReserve _) _ => none
  | .done (.error _) => none
  | _ => some []

/-- The request has written its row and has still to count the item again, or is giving the row
up. -/
def pending (item : UInt32) (process : Raider) : Bool :=
  match process.request, process.prog with
  | .reserve .., some (.call (.restoreReserve _) _) => true
  | .reserve .., some (.call (.removeReserve _) _) => true
  | .reserve .., some prog => ((toCount prog).getD []).contains item
  | _, _ => false

/-- The copies of an item that a row holds for good. -/
def settledCopies (processes : Table Nat Raider) (item : UInt32) (row : SoftResReserveRow) : Int :=
  if processes.values.any fun process => process.request.user = row.user && pending item process
  then 0 else row.items.count item

/-- The row that the next call puts back. -/
def restores (process : Raider) : Option SoftResReserveRow :=
  match process.next? with
  | some (.restoreReserve row) => some row
  | _ => none

def copies (s : Store) (item : UInt32) : Nat :=
  (s.reserves.values.flatMap SoftResReserveRow.items).count item

/-- Every request is by a user of its own, and every call succeeds. -/
def Admitted (sys : Sheets) : Event Request → Prop
  | .start _ request => ∀ process ∈ sys.processes.values, process.request.user ≠ request.user
  | .step _ => True
  | .crash _ => False

/-- A row that is put back fits beside what the other rows hold for good. -/
def Fitting (sys : Sheets) : Event Request → Prop
  | .step pid => ∀ process ∈ sys.processes.get pid, ∀ row ∈ restores process,
    ∀ cap ∈ sys.store.sheet.bind SoftResSheet.perItemCap, ∀ item ∈ row.items,
      Table.total (settledCopies sys.processes item) (sys.store.reserves.erase row.user) +
        row.items.count item ≤ cap
  | _ => True

instance (sys : Sheets) : ∀ event, Decidable (Admitted sys event)
  | .start _ _ => inferInstanceAs (Decidable (∀ process ∈ _, _))
  | .step _ => inferInstanceAs (Decidable True)
  | .crash _ => inferInstanceAs (Decidable False)

instance (sys : Sheets) : ∀ event, Decidable (Fitting sys event)
  | .step _ =>
    -- the items of a row are looked through, and not all the numbers there are
    have (row : SoftResReserveRow) (cap : Nat) : Decidable (∀ item ∈ row.items,
        Table.total (settledCopies sys.processes item) (sys.store.reserves.erase row.user) +
          row.items.count item ≤ cap) := List.decidableBAll _ _
    inferInstanceAs (Decidable (∀ process ∈ _, _))
  | .start _ _ => inferInstanceAs (Decidable True)
  | .crash _ => inferInstanceAs (Decidable True)

/-! ## What the rows hold -/

section Totals

variable {t : Table String SoftResReserveRow} {f g : SoftResReserveRow → Int}

theorem total_congr (hsm : ∀ user row, t.get user = some row → f row = g row) :
    Table.total f t = Table.total g t := by
  refine congrArg List.sum (List.map_congr_left fun row hrow => ?_)
  obtain ⟨user, hg⟩ := mem_values.mp hrow
  exact hsm user row hg

theorem total_mono (hle : ∀ row, f row ≤ g row) : Table.total f t ≤ Table.total g t := by
  exact List.sum_le_sum fun row _ => hle row

theorem count_flatMap (rows : List SoftResReserveRow) (item : UInt32) :
    (((rows.flatMap SoftResReserveRow.items).count item : Nat) : Int) =
      (rows.map fun row => (row.items.count item : Int)).sum := by
  induction rows with
  | nil => rfl
  | cons row rows ih =>
    rw [List.flatMap_cons, List.count_append, Int.natCast_add, ih]
    rfl

theorem copies_eq_total (s : Store) (item : UInt32) :
    (copies s item : Int) = Table.total (fun row => (row.items.count item : Int)) s.reserves :=
  count_flatMap _ _

/-- Every row is under the user that it names. -/
def WellFormed (reserves : Table String SoftResReserveRow) : Prop :=
  ∀ user row, reserves.get user = some row → row.user = user

theorem sum_filter_user (rows : List SoftResReserveRow) (c : SoftResReserveRow → Int)
    (user : String) : ((rows.filter fun row => row.user ≠ user).map c).sum =
      (rows.map fun row => if row.user = user then 0 else c row).sum := by
  induction rows with
  | nil => rfl
  | cons row rows ih =>
    rw [List.filter_cons, map_cons, sum_cons, ← ih]
    by_cases huse : row.user = user
    · simp [huse]
    · simp [huse]

/-- **What the others hold** is what a request counts. -/
theorem countItemReservations_eq {s : Store} (hwf : WellFormed s.reserves) (item : UInt32)
    (user : String) : (countItemReservations s item user : Int) =
      Table.total (fun row => (row.items.count item : Int)) (s.reserves.erase user) := by
  have hoths : (countItemReservations s item user : Int) = Table.total
      (fun row => if row.user = user then 0 else (row.items.count item : Int)) s.reserves :=
    (count_flatMap _ _).trans (sum_filter_user _ _ _)
  have hown : Table.at_ (fun row => if row.user = user then 0 else (row.items.count item : Int))
      s.reserves user = 0 := by
    unfold Table.at_
    cases hg : s.reserves.get user with
    | none => rfl
    | some row => exact if_pos (hwf user row hg)
  have hera := Table.total_erase
    (fun row : SoftResReserveRow => if row.user = user then 0 else (row.items.count item : Int))
    s.reserves user
  rw [hown, Int.sub_zero] at hera
  rw [hoths, ← hera]
  refine total_congr fun user' row hg => if_neg ?_
  rw [get_erase] at hg
  split at hg
  · cases hg
  · rename_i hne
    rw [hwf user' row hg]
    exact hne

end Totals

/-! ## Where a request is -/

/-- What a request still has to do, on a sheet that does not change, and what its row is then. -/
inductive Stage (sheet : SoftResSheet) (cap : Nat) (reserves : Table String SoftResReserveRow) :
    Request → Program → Prop
  | fetching {request : Request} {rest : Except SoftresError SoftResSheet → Program}
      (hrest : Stage sheet cap reserves request (rest (.ok sheet))) :
      Stage sheet cap reserves request (.call .fetchSheet rest)
  | checking {user channel : String} {permissions : Result Unit} {data : DataSoftResReserve}
      {nowMs editedMs laterMs : Int} {remaining : List UInt32}
      (hchecked : ∀ item ∈ data.items, item ∈ remaining ∨ data.items.count item ≤ cap) :
      Stage sheet cap reserves (.reserve user channel permissions data nowMs editedMs laterMs)
        (checkCap user data.items cap (check (.error .itemCapReached))
          (writeRow sheet user data editedMs laterMs) remaining)
  | recounting {user channel : String} {permissions : Result Unit} {data : DataSoftResReserve}
      {nowMs editedMs laterMs : Int} {previous : Option SoftResReserveRow}
      {remaining : List UInt32}
      (hown : ∀ item ∈ data.items, data.items.count item ≤ cap)
      (hrow : reserves.get user = some (newRow sheet user data editedMs))
      (hprevious : ∀ row ∈ previous, row.user = user)
      (hnodup : remaining.Nodup) :
      Stage sheet cap reserves (.reserve user channel permissions data nowMs editedMs laterMs)
        (checkCap user data.items cap (restorePrevious user .itemCapReached previous)
          (recheckLock user laterMs previous) remaining)
  | restoring {user channel : String} {permissions : Result Unit} {data : DataSoftResReserve}
      {nowMs editedMs laterMs : Int} {error : SoftresError} {previous : Option SoftResReserveRow}
      (hprevious : ∀ row ∈ previous, row.user = user) :
      Stage sheet cap reserves (.reserve user channel permissions data nowMs editedMs laterMs)
        (restorePrevious user error previous)
  | removing {user channel : String} {permissions : Result Unit} {nowMs laterMs : Int} :
      Stage sheet cap reserves (.unreserve user channel permissions nowMs laterMs)
        (.call (.removeReserve user) (recheckRemoved laterMs))
  | returning {user channel : String} {permissions : Result Unit} {nowMs laterMs : Int}
      {error : SoftresError} {row : SoftResReserveRow} (huser : row.user = user) :
      Stage sheet cap reserves (.unreserve user channel permissions nowMs laterMs)
        (.call (.restoreReserve row) fun _ => check (.error error))
  | reading {request : Request} {rest : List SoftResReserveRow → Program}
      (hrest : ∀ rows, Stage sheet cap reserves request (rest rows)) :
      Stage sheet cap reserves request (.call .fetchReserves rest)
  | done {request : Request} (result : Except SoftresError (List SoftResReserveRow)) :
      Stage sheet cap reserves request (.done result)

variable {items : List UInt32}

variable {cap : Nat}

theorem toCount_before {user : String} {sheet : SoftResSheet}
    {data : DataSoftResReserve} {editedMs laterMs : Int} (remaining : List UInt32) :
    toCount (checkCap user items cap (check (.error .itemCapReached))
      (writeRow sheet user data editedMs laterMs) remaining) = none := by
  induction remaining with
  | nil => rfl
  | cons item remaining ih =>
    show (toCount (if 0 + items.count item > cap then _ else _)).map _ = none
    split
    · rfl
    · rw [ih]
      rfl

theorem toCount_after {user : String} {refused : Program} {laterMs : Int}
    {previous : Option SoftResReserveRow} (remaining : List UInt32)
    (hown : ∀ item, items.count item ≤ cap) :
    toCount (checkCap user items cap refused (recheckLock user laterMs previous) remaining) =
      some remaining := by
  induction remaining with
  | nil => rfl
  | cons item remaining ih =>
    show (toCount (if 0 + items.count item > cap then _ else _)).map _ = _
    have hft := hown item
    rw [if_neg (by omega), ih]
    rfl

variable {sheet : SoftResSheet} {cap : Nat} {reserves reserves' : Table String SoftResReserveRow}
  {request : Request} {prog : Program}

theorem Stage.frame (hstg : Stage sheet cap reserves request prog)
    (hsm : reserves'.get request.user = reserves.get request.user) :
    Stage sheet cap reserves' request prog := by
  induction hstg with
  | fetching _ ih => exact .fetching (ih hsm)
  | checking hchec => exact .checking hchec
  | recounting hown hrow hprev hnod => exact .recounting hown (hsm.trans hrow) hprev hnod
  | restoring hprev => exact .restoring hprev
  | removing => exact .removing
  | returning huse => exact .returning huse
  | reading _ ih => exact .reading fun rows => ih rows hsm
  | done result => exact .done result

theorem count_le_of_items (hown : ∀ item ∈ items, items.count item ≤ cap)
    (item : UInt32) : items.count item ≤ cap := by
  by_cases hmem : item ∈ items
  · exact hown item hmem
  · rw [List.count_eq_zero_of_not_mem hmem]
    exact Nat.zero_le cap

theorem mem_distinct {item : UInt32} : item ∈ distinct items ↔ item ∈ items := by
  unfold distinct
  rw [mem_dedup, List.mem_insertionSort]

theorem stage_program (catalog : Catalog) (hcap : sheet.perItemCap = some cap)
    (reserves : Table String SoftResReserveRow) (request : Request) :
    Stage sheet cap reserves request (request.program catalog) := by
  cases request with
  | reserve user channel permissions data nowMs editedMs laterMs =>
    show Stage _ _ _ _ (softresReserve catalog user channel permissions data nowMs editedMs laterMs)
    unfold softresReserve
    cases data.validate with
    | error e => exact .done _
    | ok _ =>
      cases permissions.mapError SoftresError.refused with
      | error e => exact .done _
      | ok _ =>
        refine .fetching ?_
        show Stage _ _ _ _ ((check (checkOpen sheet channel nowMs)).bind fun _ =>
          (check (checkData catalog sheet data)).bind fun _ =>
            checkPerItemCap sheet user data.items (check (.error .itemCapReached))
              (writeRow sheet user data editedMs laterMs))
        cases checkOpen sheet channel nowMs with
        | error e => exact .done _
        | ok _ =>
          cases checkData catalog sheet data with
          | error e => exact .done _
          | ok _ =>
            unfold checkPerItemCap
            rw [hcap]
            exact .checking fun item hit => .inl (mem_distinct.mpr hit)
  | unreserve user channel permissions nowMs laterMs =>
    show Stage _ _ _ _ (softresUnreserve user channel permissions nowMs laterMs)
    unfold softresUnreserve
    cases permissions.mapError SoftresError.refused with
    | error e => exact .done _
    | ok _ =>
      refine .fetching ?_
      show Stage _ _ _ _ ((check (checkOpen sheet channel nowMs)).bind fun _ =>
        (op (Call.removeReserve user)).bind (recheckRemoved laterMs))
      cases checkOpen sheet channel nowMs with
      | error e => exact .done _
      | ok _ => exact .removing

/-! ## One call -/

section Call

variable {s : Store} (pid : Nat) {c : Call} {rest : Reply c → Program}

theorem reserves_next (hstg : Stage sheet cap s.reserves request (.call c rest)) :
    (perform pid c s).1.reserves = s.reserves ∨ (∃ row, row.user = request.user ∧
        (perform pid c s).1.reserves = s.reserves.insert request.user row) ∨
      (perform pid c s).1.reserves = s.reserves.erase request.user := by
  generalize hpr : Prog.call c rest = prog at hstg
  cases hstg with
  | checking hchec =>
    rename_i user _ _ data _ editedMs _ remaining
    cases remaining with
    | nil =>
      cases hpr
      exact .inr (.inl ⟨newRow sheet user data editedMs, rfl, rfl⟩)
    | cons item remaining =>
      cases hpr
      exact .inl rfl
  | recounting hown hrow hprev hnod =>
    rename_i remaining
    cases remaining with
    | nil | cons item remaining =>
      cases hpr
      exact .inl rfl
  | restoring hprev =>
    rename_i user _ _ _ _ _ _ _ previous
    cases previous with
    | none =>
      cases hpr
      exact .inr (.inr rfl)
    | some row =>
      cases hpr
      have huse : row.user = user := hprev row rfl
      refine .inr (.inl ⟨row, huse, ?_⟩)
      rw [← huse]
      rfl
  | removing =>
    cases hpr
    exact .inr (.inr rfl)
  | returning huse =>
    rename_i row
    cases hpr
    refine .inr (.inl ⟨row, huse, ?_⟩)
    rw [← huse]
    rfl
  | done result => cases hpr
  | _ =>
    cases hpr
    exact .inl rfl

variable {row : SoftResReserveRow} {item : UInt32}

theorem restored_user {rest : Option SoftResReserveRow → Program}
    (hstg : Stage sheet cap reserves request (.call (.restoreReserve row) rest)) :
    row.user = request.user := by
  generalize hpr : (.call (.restoreReserve row) rest : Program) = prog at hstg
  cases hstg with
  | checking hchec | recounting hown hrow hprev hnod =>
    rename_i remaining
    cases remaining <;> cases hpr
  | restoring hprev =>
    rename_i previous
    cases previous with
    | none => cases hpr
    | some row' =>
      cases hpr
      exact hprev row rfl
  | returning huse =>
    cases hpr
    exact huse
  | _ => cases hpr

theorem stage_next (hwf : WellFormed s.reserves) (hshe : s.sheet = some sheet)
    (hcap : sheet.perItemCap = some cap)
    (hstg : Stage sheet cap s.reserves request (.call c rest)) :
    Stage sheet cap (perform pid c s).1.reserves request (rest (perform pid c s).2) := by
  generalize hpr : Prog.call c rest = prog at hstg
  cases hstg with
  | fetching hrs =>
    rename_i rest'
    cases hpr
    show Stage _ _ s.reserves _ (rest' (Checks.okOr s.sheet .notFound))
    rw [hshe]
    exact hrs
  | checking hchec =>
    rename_i user _ _ data _ _ _ remaining
    cases remaining with
    | nil =>
      cases hpr
      have hown : ∀ item ∈ data.items, data.items.count item ≤ cap := fun item hit =>
        (hchec item hit).resolve_left not_mem_nil
      have hprev : ∀ row ∈ s.reserves.get user, row.user = user := fun row hg => hwf user row hg
      unfold checkPerItemCap
      rw [hcap]
      refine .recounting hown ?_ hprev (List.nodup_dedup _)
      exact get_insert_self
    | cons item remaining =>
      cases hpr
      show Stage _ _ s.reserves _ (if _ > cap then _ else _)
      split
      · exact .done _
      · refine .checking fun other hoth => ?_
        rcases hchec other hoth with hmem | hle
        · rcases mem_cons.mp hmem with rfl | hmem
          · exact .inr (by omega)
          · exact .inl hmem
        · exact .inr hle
  | recounting hown hrow hprev hnod =>
    rename_i laterMs _ remaining
    cases remaining with
    | nil =>
      cases hpr
      show Stage _ _ s.reserves _ (match Checks.okOr s.sheet SoftresError.notFound with
        | .error error => _ | .ok fresh => _)
      rw [hshe]
      show Stage _ _ _ _ (if sheet.isLockedNow laterMs then _ else _)
      split
      · exact .restoring hprev
      · exact .reading fun rows => .done _
    | cons item remaining =>
      cases hpr
      show Stage _ _ s.reserves _ (if _ > cap then _ else _)
      split
      · exact .restoring hprev
      · exact .recounting hown hrow hprev (nodup_cons.mp hnod).2
  | restoring hprev =>
    rename_i previous
    cases previous with
    | none | some row =>
      cases hpr
      exact .done _
  | removing =>
    rename_i user _ _ _ laterMs
    cases hpr
    show Stage _ _ _ _ (recheckRemoved laterMs (s.reserves.get user))
    cases hg : s.reserves.get user with
    | none => exact .reading fun rows => .done _
    | some removed =>
      refine .fetching ?_
      show Stage _ _ _ _ (if sheet.isLockedNow laterMs then _ else _)
      split
      · exact .returning (hwf user removed hg)
      · exact .reading fun rows => .done _
  | returning huse =>
    cases hpr
    exact .done _
  | reading hrs =>
    cases hpr
    exact hrs _
  | done result => cases hpr

/-- The copies of an item that the row of a process holds for good. -/
def own (item : UInt32) (process : Raider) : Option SoftResReserveRow → Int
  | some row => if pending item process then 0 else row.items.count item
  | none => 0

theorem own_some (item : UInt32) (process : Raider) (row : SoftResReserveRow) :
    own item process (some row) =
      if pending item process then 0 else (row.items.count item : Int) := rfl

theorem own_nonneg (item : UInt32) (process : Raider) (row : Option SoftResReserveRow) :
    0 ≤ own item process row := by
  cases row with
  | none => exact Int.le_refl 0
  | some row =>
    rw [own_some]
    split
    · exact Int.le_refl 0
    · exact Int.natCast_nonneg _

theorem own_of_pending {process : Raider} (hpend : pending item process = true)
    (row : Option SoftResReserveRow) : own item process row = 0 := by
  cases row with
  | none => rfl
  | some row => exact if_pos hpend

theorem own_le {process process' : Raider} (hset : pending item process = false)
    (row : Option SoftResReserveRow) : own item process' row ≤ own item process row := by
  cases row with
  | none => exact Int.le_refl 0
  | some row =>
    rw [own_some, own_some, hset, if_neg false_ne_true]
    split
    · exact Int.natCast_nonneg _
    · exact Int.le_refl _

theorem own_le_count (item : UInt32) (process : Raider) (row : SoftResReserveRow) :
    own item process (some row) ≤ row.items.count item := by
  rw [own_some]
  split
  · exact Int.natCast_nonneg _
  · exact Int.le_refl _

theorem own_of_not_mem (hmem : item ∉ row.items) (process : Raider) :
    own item process (some row) = 0 := by
  rw [own_some, List.count_eq_zero_of_not_mem hmem]
  exact ite_self _

/-- Whoever reads is not giving up a row. -/
theorem not_pending_of_read (hc : c = .fetchSheet ∨ c = .fetchReserves) :
    pending item ⟨request, some (.call c rest)⟩ = false := by
  rcases hc with rfl | rfl <;> cases request <;> rfl

section Pending

variable {user channel : String} {permissions : Result Unit} {data : DataSoftResReserve}
  {nowMs editedMs laterMs : Int} {item : UInt32} {prog : Program}

theorem not_pending (hcnt : toCount prog ≠ some [])
    (hls : ((toCount prog).getD []).contains item = false) :
    pending item ⟨.reserve user channel permissions data nowMs editedMs laterMs, some prog⟩ =
      false := by
  cases prog with
  | done result => exact hls
  | call c rest =>
    cases c with
    | restoreReserve row | removeReserve user => exact absurd rfl hcnt
    | _ => exact hls

theorem not_pending_of_before (hcnt : toCount prog = none) :
    pending item ⟨.reserve user channel permissions data nowMs editedMs laterMs, some prog⟩ =
      false :=
  not_pending (by rw [hcnt]; nofun) (by rw [hcnt]; rfl)

theorem pending_of_mem {items : List UInt32} (hcnt : toCount prog = some items)
    (hmem : item ∈ items) :
    pending item ⟨.reserve user channel permissions data nowMs editedMs laterMs, some prog⟩ =
      true := by
  have hls : ((toCount prog).getD []).contains item = true := by
    rw [hcnt]
    exact contains_iff_mem.mpr hmem
  cases prog with
  | done result => exact hls
  | call c rest =>
    cases c with
    | restoreReserve row | removeReserve user => rfl
    | _ => exact hls

theorem not_pending_of_counted {other : UInt32} {items : List UInt32}
    (hcnt : toCount prog = some (other :: items)) (hmem : item ∉ other :: items) :
    pending item ⟨.reserve user channel permissions data nowMs editedMs laterMs, some prog⟩ =
      false := by
  refine not_pending (by rw [hcnt]; nofun) ?_
  rw [hcnt]
  exact eq_false_iff.mpr fun hcon => hmem (contains_iff_mem.mp hcon)

theorem pending_restorePrevious (error : SoftresError) (previous : Option SoftResReserveRow) :
    pending item ⟨.reserve user channel permissions data nowMs editedMs laterMs,
      some (restorePrevious user error previous)⟩ = true := by
  cases previous <;> rfl

end Pending

variable {process : Raider} {others old : Int}

theorem own_removed (hold : 0 ≤ old) (user : String) :
    own item process ((perform pid (.removeReserve user) s).1.reserves.get user) ≤ old := by
  have hrow : (perform pid (.removeReserve user) s).1.reserves.get user = none :=
    (get_erase _ _ _).trans (if_pos rfl)
  rw [hrow]
  exact hold

theorem own_restored (hold : 0 ≤ old)
    (hfit : item ∈ row.items → others + row.items.count item ≤ cap) :
    own item process ((perform pid (.restoreReserve row) s).1.reserves.get row.user) ≤ old ∨
      others + own item process
        ((perform pid (.restoreReserve row) s).1.reserves.get row.user) ≤ cap := by
  have hrow : (perform pid (.restoreReserve row) s).1.reserves.get row.user = some row :=
    get_insert_self
  rw [hrow]
  by_cases hmem : item ∈ row.items
  · have hcnt := own_le_count item process row
    have hrm := hfit hmem
    exact .inr (by omega)
  · rw [own_of_not_mem hmem]
    exact .inl hold

/-- **One call**: the row of its user holds no more for good than before, or there is room for
what it holds. -/
theorem own_next (hcap : sheet.perItemCap = some cap)
    (hstg : Stage sheet cap s.reserves request (.call c rest)) {others : Int}
    (hoths : others ≤ countItemReservations s item request.user)
    (hfit : ∀ row, c = .restoreReserve row → item ∈ row.items →
      others + row.items.count item ≤ cap) : own item ⟨request, some (rest (perform pid c s).2)⟩
        ((perform pid c s).1.reserves.get request.user) ≤
        own item ⟨request, some (.call c rest)⟩ (s.reserves.get request.user) ∨
      others + own item ⟨request, some (rest (perform pid c s).2)⟩
        ((perform pid c s).1.reserves.get request.user) ≤ cap := by
  have hold := own_nonneg item ⟨request, some (.call c rest)⟩ (s.reserves.get request.user)
  generalize hpr : Prog.call c rest = prog at hstg
  cases hstg with
  | fetching hrs =>
    cases hpr
    exact .inl (own_le (not_pending_of_read (.inl rfl)) _)
  | checking hchec =>
    rename_i user channel permissions data nowMs editedMs laterMs remaining
    cases remaining with
    | nil =>
      cases hpr
      refine .inl (Int.le_trans (Int.le_of_eq ?_) hold)
      have hrow : (perform pid (.upsertReserve (newRow sheet user data editedMs)) s).1.reserves.get
          user = some (newRow sheet user data editedMs) :=
        get_insert_self
      show own item _ (Table.get (perform pid _ s).1.reserves user) = 0
      rw [hrow]
      by_cases hmem : item ∈ data.items
      · refine own_of_pending ?_ _
        have hown : ∀ other ∈ data.items, data.items.count other ≤ cap := fun other hoth =>
          (hchec other hoth).resolve_left not_mem_nil
        have hnx : ∀ previous, checkPerItemCap sheet user data.items
            (restorePrevious user .itemCapReached previous) (recheckLock user laterMs previous) =
              checkCap user data.items cap (restorePrevious user .itemCapReached previous)
                (recheckLock user laterMs previous) (distinct data.items) := by
          intro previous
          unfold checkPerItemCap
          rw [hcap]
        show pending item ⟨_, some (checkPerItemCap _ _ _ _ _)⟩ = true
        rw [hnx]
        exact pending_of_mem (toCount_after _ (count_le_of_items hown)) (mem_distinct.mpr hmem)
      · exact own_of_not_mem hmem _
    | cons other remaining =>
      have hbef : pending item ⟨.reserve user channel permissions data nowMs editedMs laterMs,
          some (Prog.call c rest)⟩ = false := by
        rw [hpr]
        exact not_pending_of_before (toCount_before _)
      cases hpr
      exact .inl (own_le hbef _)
  | recounting hown hrow hprev hnod =>
    rename_i user channel permissions data nowMs editedMs laterMs previous remaining
    cases remaining with
    | nil =>
      cases hpr
      exact .inl (own_le (not_pending_of_read (.inl rfl)) _)
    | cons other remaining =>
      have hcou : ∀ rest', toCount (checkCap user data.items cap
          (restorePrevious user .itemCapReached previous) (recheckLock user laterMs previous)
          rest') = some rest' := fun rest' => toCount_after rest' (count_le_of_items hown)
      have hbef : item ∉ other :: remaining →
          pending item ⟨.reserve user channel permissions data nowMs editedMs laterMs,
            some (Prog.call c rest)⟩ = false := fun hmem => by
        rw [hpr]
        exact not_pending_of_counted (hcou _) hmem
      cases hpr
      show own item ⟨_, some (if countItemReservations s other user + data.items.count other > cap
          then _ else _)⟩ (s.reserves.get user) ≤ _ ∨ _ + own item ⟨_, some (if
            countItemReservations s other user + data.items.count other > cap then _ else _)⟩
          (s.reserves.get user) ≤ _
      split
      · rw [own_of_pending (pending_restorePrevious _ _)]
        exact .inl hold
      · by_cases hmem : item ∈ remaining
        · rw [own_of_pending (pending_of_mem (hcou remaining) hmem)]
          exact .inl hold
        · by_cases hit : item = other
          · -- the item is counted among all rows, the pending ones too
            subst hit
            rw [hrow]
            have hcnt := own_le_count item ⟨.reserve user channel permissions data nowMs editedMs
              laterMs, some (checkCap user data.items cap (restorePrevious user .itemCapReached
                previous) (recheckLock user laterMs previous) remaining)⟩
              (newRow sheet user data editedMs)
            have hoths' : others ≤ countItemReservations s item user := hoths
            have hite : (newRow sheet user data editedMs).items = data.items := rfl
            rw [hite] at hcnt
            exact .inr (by omega)
          · refine .inl (own_le (hbef ?_) _)
            exact fun hin => (mem_cons.mp hin).elim hit hmem
  | restoring hprev =>
    rename_i previous
    cases previous with
    | none =>
      cases hpr
      exact .inl (own_removed pid hold _)
    | some row =>
      cases hpr
      obtain rfl : row.user = _ := hprev row rfl
      exact own_restored pid hold (hfit row rfl)
  | removing =>
    cases hpr
    exact .inl (own_removed pid hold _)
  | returning huse =>
    cases hpr
    subst huse
    exact own_restored pid hold (hfit _ rfl)
  | reading hrs =>
    cases hpr
    exact .inl (own_le (not_pending_of_read (.inr rfl)) _)
  | done result => cases hpr

end Call

/-! ## Interleavings -/

section Interleavings

variable {processes : Table Nat Raider} {pid : Nat} {process process' : Raider} {item : UInt32}

theorem any_values {P : Raider → Bool} : processes.values.any P = true ↔
    ∃ pid process, processes.get pid = some process ∧ P process = true := by
  rw [any_eq_true]
  constructor
  · rintro ⟨process, hmem, hP⟩
    obtain ⟨pid, hg⟩ := mem_values.mp hmem
    exact ⟨pid, process, hg, hP⟩
  · rintro ⟨pid, process, hg, hP⟩
    exact ⟨process, mem_values.mpr ⟨pid, hg⟩, hP⟩

/-- No two requests are by one user. -/
def Distinct (processes : Table Nat Raider) : Prop :=
  ∀ pid pid' process process', processes.get pid = some process →
    processes.get pid' = some process' → process.request.user = process'.request.user → pid = pid'

theorem settledCopies_own (hdist : Distinct processes) (hg : processes.get pid = some process)
    {row : SoftResReserveRow} (huse : row.user = process.request.user) :
    settledCopies processes item row = own item process (some row) := by
  have hany : (processes.values.any fun process => process.request.user = row.user &&
      pending item process) = pending item process := by
    refine Bool.eq_iff_iff.mpr (any_values.trans ?_)
    constructor
    · rintro ⟨pid', found, hfnd, hpend⟩
      obtain ⟨hsm, hpend⟩ := (and_eq_true _ _).mp hpend
      obtain rfl := hdist pid pid' process found hg hfnd
        (huse.symm.trans (of_decide_eq_true hsm).symm)
      cases hg.symm.trans hfnd
      exact hpend
    · intro hpend
      refine ⟨pid, process, hg, (and_eq_true _ _).mpr ⟨decide_eq_true huse.symm, hpend⟩⟩
  unfold settledCopies
  rw [hany]
  rfl

theorem settledCopies_insert
    (hold : ∀ old, processes.get pid = some old → old.request.user = process'.request.user)
    {row : SoftResReserveRow} (huse : row.user ≠ process'.request.user) :
    settledCopies (processes.insert pid process') item row = settledCopies processes item row := by
  have hany : ((processes.insert pid process').values.any fun process =>
      process.request.user = row.user && pending item process) = processes.values.any fun process =>
          process.request.user = row.user && pending item process := by
    refine Bool.eq_iff_iff.mpr (any_values.trans (Iff.trans ?_ any_values.symm))
    constructor
    · rintro ⟨pid', found, hfnd, hpend⟩
      rcases get_insert_cases hfnd with ⟨-, rfl⟩ | hbef
      · have hsm := of_decide_eq_true ((and_eq_true _ _).mp hpend).1
        exact absurd hsm.symm huse
      · exact ⟨pid', found, hbef, hpend⟩
    · rintro ⟨pid', found, hfnd, hpend⟩
      refine ⟨pid', found, ?_, hpend⟩
      rw [get_insert_of_ne]
      · exact hfnd
      · rintro rfl
        have hsm := of_decide_eq_true ((and_eq_true _ _).mp hpend).1
        exact huse (hsm.symm.trans (hold found hfnd))
  unfold settledCopies
  rw [hany]

theorem total_eq_own {reserves reserves' : Table String SoftResReserveRow} (user : String)
    {f : SoftResReserveRow → Int}
    (hnx : reserves' = reserves ∨ (∃ row, reserves' = reserves.insert user row) ∨
      reserves' = reserves.erase user) :
    Table.total f reserves' = Table.total f (reserves.erase user) + Table.at_ f reserves' user := by
  rcases hnx with rfl | ⟨row, rfl⟩ | rfl
  · rw [Table.total_erase]
    omega
  · have hat : Table.at_ f (reserves.insert user row) user = f row := by
      unfold Table.at_
      rw [get_insert_self]
      rfl
    rw [Table.total_insert, Table.total_erase, hat]
  · have hat : Table.at_ f (reserves.erase user) user = 0 := by
      unfold Table.at_
      rw [get_erase, if_pos rfl]
      rfl
    rw [hat, Int.add_zero]

theorem at_settledCopies (item : UInt32) {reserves : Table String SoftResReserveRow} (hwf : WellFormed reserves)
    (hdist : Distinct processes) (hg : processes.get pid = some process) :
    Table.at_ (settledCopies processes item) reserves process.request.user =
      own item process (reserves.get process.request.user) := by
  unfold Table.at_
  cases hrow : reserves.get process.request.user with
  | none => rfl
  | some row => exact settledCopies_own hdist hg (hwf _ row hrow)

theorem settledCopies_le (processes : Table Nat Raider) (item : UInt32) (row : SoftResReserveRow) :
    settledCopies processes item row ≤ row.items.count item := by
  unfold settledCopies
  split
  · exact Int.natCast_nonneg _
  · exact Int.le_refl _

end Interleavings

/-- What holds between two steps. -/
structure Kept (sheet : SoftResSheet) (cap : Nat) (sys : Sheets) : Prop where
  fixed : sys.store.sheet = some sheet
  wf : WellFormed sys.store.reserves
  stage : ∀ pid request prog, sys.processes.get pid = some ⟨request, some prog⟩ →
    Stage sheet cap sys.store.reserves request prog
  distinct : Distinct sys.processes
  /-- What the rows hold for good is within the cap. -/
  within : ∀ item, Table.total (settledCopies sys.processes item) sys.store.reserves ≤ cap

section Kept

variable {sheet : SoftResSheet} {cap : Nat} {sys : Sheets} {pid : Nat} {request : Request}

theorem not_pending_program (catalog : Catalog) (item : UInt32) (request : Request) :
    pending item ⟨request, some (request.program catalog)⟩ = false := by
  cases request with
  | unreserve user channel permissions nowMs laterMs => rfl
  | reserve user channel permissions data nowMs editedMs laterMs =>
    show pending item ⟨_, some (softresReserve catalog user channel permissions data nowMs editedMs
      laterMs)⟩ = false
    unfold softresReserve
    cases data.validate with
    | error e => rfl
    | ok _ =>
      cases permissions.mapError SoftresError.refused with
      | error e | ok _ => rfl

theorem Kept.start (catalog : Catalog) (hcap : sheet.perItemCap = some cap)
    (hkp : Kept sheet cap sys) (hadmi : Admitted sys (.start pid request))
    (hfr : sys.processes.get pid = none) : Kept sheet cap ⟨sys.store, sys.processes.insert pid
      ⟨request, some (request.program catalog)⟩⟩ := by
  have hnew : ∀ {pid' found}, sys.processes.get pid' = some found →
      found.request.user ≠ request.user := fun hfnd =>
    hadmi _ (mem_values.mpr ⟨_, hfnd⟩)
  have hdist : Distinct (sys.processes.insert pid ⟨request, some (request.program catalog)⟩) := by
    intro pid' pid'' found found' hfnd hfnd' hsm
    rcases get_insert_cases hfnd with ⟨hpid, rfl⟩ | hbef
    · rcases get_insert_cases hfnd' with ⟨hpid', -⟩ | hbef'
      · exact hpid.trans hpid'.symm
      · exact absurd hsm.symm (hnew hbef')
    · rcases get_insert_cases hfnd' with ⟨-, rfl⟩ | hbef'
      · exact absurd hsm (hnew hbef)
      · exact hkp.distinct pid' pid'' found found' hbef hbef' hsm
  refine ⟨hkp.fixed, hkp.wf, fun pid' request' prog hg => ?_, hdist, fun item => ?_⟩
  · rcases get_insert_cases hg with ⟨-, heq⟩ | hbef
    · injection heq with hreq hpr
      rw [hreq, some.inj hpr]
      exact stage_program catalog hcap _ request
    · exact hkp.stage pid' request' prog hbef
  · refine Int.le_trans (Int.le_of_eq ?_) (hkp.within item)
    refine total_congr fun user row hrow => ?_
    by_cases huse : row.user = request.user
    · -- the row of this user was settled, and still is
      have hsl : (sys.processes.insert pid ⟨request, some (request.program catalog)⟩).get pid =
          some ⟨request, some (request.program catalog)⟩ := by
        rw [get_insert_self]
      rw [settledCopies_own hdist hsl huse, own_some, not_pending_program]
      have hno : (sys.processes.values.any fun process =>
          process.request.user = row.user && pending item process) = false := by
        refine eq_false_iff.mpr fun hany => ?_
        obtain ⟨pid', found, hfnd, hpend⟩ := any_values.mp hany
        have hsm := of_decide_eq_true ((and_eq_true _ _).mp hpend).1
        exact hnew hfnd (hsm.trans huse)
      unfold settledCopies
      rw [hno]
    · refine settledCopies_insert (fun old hold => ?_) huse
      rw [hfr] at hold
      cases hold

theorem sheet_next {s : Store} {c : Call} : (perform pid c s).1.sheet = s.sheet := by
  cases c <;> rfl

theorem Kept.call (hcap : sheet.perItemCap = some cap) (hkp : Kept sheet cap sys) {c : Call}
    {rest : Reply c → Program} (hg : sys.processes.get pid = some ⟨request, some (.call c rest)⟩)
    (hfitt : Fitting sys (.step pid)) :
    Kept sheet cap ⟨(perform pid c sys.store).1, sys.processes.insert pid
      ⟨request, some (rest (perform pid c sys.store).2)⟩⟩ := by
  have hstg := hkp.stage pid request _ hg
  have hrw := reserves_next pid hstg
  have hsl : (sys.processes.insert pid ⟨request, some (rest (perform pid c sys.store).2)⟩).get
      pid = some ⟨request, some (rest (perform pid c sys.store).2)⟩ := by
    rw [get_insert_self]
  have hfram : ∀ {user}, user ≠ request.user →
      (perform pid c sys.store).1.reserves.get user = sys.store.reserves.get user := by
    intro user huse
    rcases hrw with hsm | ⟨row, -, hrow⟩ | hrow
    · rw [hsm]
    · rw [hrow, get_insert, if_neg huse]
    · rw [hrow, get_erase, if_neg huse]
  have hwf : WellFormed (perform pid c sys.store).1.reserves := by
    intro user row hrow
    rcases hrw with hsm | ⟨row', huse', hrow'⟩ | hrow'
    · rw [hsm] at hrow
      exact hkp.wf user row hrow
    · rw [hrow', get_insert] at hrow
      split at hrow
      · rename_i huse
        rw [← some.inj hrow, huse', huse]
      · exact hkp.wf user row hrow
    · rw [hrow', get_erase] at hrow
      split at hrow
      · cases hrow
      · exact hkp.wf user row hrow
  have hdist : Distinct (sys.processes.insert pid
      ⟨request, some (rest (perform pid c sys.store).2)⟩) := by
    have hask : ∀ {pid' found}, (sys.processes.insert pid
        ⟨request, some (rest (perform pid c sys.store).2)⟩).get pid' = some found →
          ∃ old, sys.processes.get pid' = some old ∧ old.request = found.request := by
      intro pid' found hfnd
      rcases get_insert_cases hfnd with ⟨rfl, rfl⟩ | hbef
      · exact ⟨_, hg, rfl⟩
      · exact ⟨found, hbef, rfl⟩
    intro pid' pid'' found found' hfnd hfnd' hsm
    obtain ⟨old, hold, hreq⟩ := hask hfnd
    obtain ⟨old', hold', hreq'⟩ := hask hfnd'
    refine hkp.distinct pid' pid'' old old' hold hold' ?_
    rw [hreq, hreq']
    exact hsm
  refine ⟨sheet_next.trans hkp.fixed, hwf, fun pid' request' prog hg' => ?_, hdist, fun item => ?_⟩
  · by_cases hpid : pid' = pid
    · subst hpid
      rw [hsl] at hg'
      injection hg' with heq
      injection heq with hreq hpr
      rw [← hreq, ← some.inj hpr]
      exact stage_next _ hkp.wf hkp.fixed hcap hstg
    · rw [get_insert_of_ne hpid] at hg'
      refine (hkp.stage pid' request' prog hg').frame (hfram fun hsm => hpid ?_)
      exact hkp.distinct pid' pid _ _ hg' hg hsm
  · have hbef := total_eq_own request.user (f := settledCopies sys.processes item)
      (.inl (rfl : sys.store.reserves = sys.store.reserves))
    have haft := total_eq_own request.user (f := settledCopies (sys.processes.insert pid
      ⟨request, some (rest (perform pid c sys.store).2)⟩) item)
      (hrw.imp_right (Or.imp_left fun ⟨row, hrow⟩ => ⟨row, hrow.2⟩))
    have hsm : Table.total (settledCopies (sys.processes.insert pid
        ⟨request, some (rest (perform pid c sys.store).2)⟩) item)
          (sys.store.reserves.erase request.user) =
        Table.total (settledCopies sys.processes item) (sys.store.reserves.erase request.user) := by
      refine total_congr fun user row hrow => settledCopies_insert (fun old hold => ?_) ?_
      · rw [some.inj (hold.symm.trans hg)]
      · rw [get_erase] at hrow
        split at hrow
        · cases hrow
        · rename_i hne
          rw [hkp.wf user row hrow]
          exact hne
    have hold := at_settledCopies item hkp.wf hkp.distinct hg
    have hnew := at_settledCopies item hwf hdist hsl
    have hwit := hkp.within item
    have hoths : Table.total (settledCopies sys.processes item)
        (sys.store.reserves.erase request.user) ≤
          countItemReservations sys.store item request.user := by
      rw [countItemReservations_eq hkp.wf]
      exact total_mono fun row => settledCopies_le _ _ row
    have hown := own_next pid hcap hstg hoths fun row hrow hmem => by
      subst hrow
      have hft := hfitt _ hg row rfl cap (by rw [hkp.fixed]; exact hcap) item hmem
      rw [restored_user hstg] at hft
      exact hft
    rw [haft, hsm, hnew]
    rw [hbef, hold] at hwit
    rcases hown with hles | hrm
    · exact Int.le_trans (Int.add_le_add_left hles _) hwit
    · exact hrm

end Kept

/-! ## The cap -/

theorem kept_idle {s : Store} {sheet : SoftResSheet} (hshe : s.sheet = some sheet)
    (hwf : WellFormed s.reserves) (hwit : ∀ item, copies s item ≤ cap) :
    Kept sheet cap (idle s) where
  fixed := hshe
  wf := hwf
  stage _ _ _ hg := nomatch hg
  distinct _ _ _ _ hg := nomatch hg
  within item := by
    refine Int.le_trans (total_mono fun row => settledCopies_le _ _ row) ?_
    rw [← copies_eq_total]
    exact Int.ofNat_le.mpr (hwit item)

/-- **The rows hold at most the cap when all requests have finished**, in every run in which a row
that is put back still fits. -/
theorem cap_holds (catalog : Catalog) {s : Store} {sheet : SoftResSheet} {cap : Nat}
    (hsheet : s.sheet = some sheet) (hcap : sheet.perItemCap = some cap)
    (hwf : WellFormed s.reserves) (hwithin : ∀ item, copies s item ≤ cap)
    {history : List (Sheets × Event Request)} {sys : Sheets}
    (hrun : Run (Sheets.exec catalog) (fun sys event => Admitted sys event ∧ Fitting sys event)
      (idle s) history sys) (hfinished : sys.AllEnded) (item : UInt32) :
    copies sys.store item ≤ cap := by
  have hkept : Kept sheet cap sys := System.invariant (P := Kept sheet cap)
    (fun _ _ _ hadm hfree hkept => hkept.start catalog hcap hadm.1 hfree)
    (fun _ _ _ _ _ hadm hget hkept => hkept.call hcap hget hadm.2)
    (fun _ _ _ _ _ hadm _ _ => hadm.1.elim) hrun (kept_idle hsheet hwf hwithin)
  have hsettled : ∀ row, settledCopies sys.processes item row = row.items.count item := by
    intro row
    have hnone : (sys.processes.values.any fun process =>
        process.request.user = row.user && pending item process) = false := by
      refine eq_false_iff.mpr fun hany => ?_
      obtain ⟨pid, ⟨request, prog⟩, hget, hpending⟩ := any_values.mp hany
      obtain ⟨result, hdone⟩ := hfinished pid _ hget
      have hprog : prog = some (.done result) := hdone
      subst hprog
      have hpending' := ((and_eq_true _ _).mp hpending).2
      cases request <;> cases result <;> exact absurd hpending' false_ne_true
    unfold settledCopies
    rw [hnone]
    rfl
  have hwithin := hkept.within item
  rw [total_congr fun _ row _ => hsettled row, ← copies_eq_total] at hwithin
  exact Int.ofNat_le.mp hwithin

/-! ## A row that no longer fits -/

/-- A sheet that caps every item at one copy. -/
def cappedSheet : SoftResSheet where
  id := "S"
  channel := "C"
  edition := "classic"
  raids := ["mc"]
  reservesPerUser := 2
  perItemCap := some 1
  allowDuplicates := false
  classRestriction := false
  locksAt := none
  hardReserves := []
  locked := false

/-- Every item is in the loot tables, and all can use it. -/
def openCatalog : Catalog where
  isAlphabetic := Char.isAlpha
  itemInRaids _ _ := some ⟨none⟩

def reserveOf (user : String) (items : List UInt32) : Request :=
  .reserve user "C" (.ok ()) ⟨"Raider", .mage, items, none⟩ 0 0 0

/-- One raider holds the item 1. -/
def oneReserved : Store where
  sheet := some cappedSheet
  reserves := (∅ : Table String SoftResReserveRow).insert "A"
    ⟨"S", "A", "C", "Raider", .mage, [1], none, 0, 0⟩

theorem oneReserved_wellFormed : WellFormed oneReserved.reserves := by
  intro user row hg
  have hcas : (if user = "A" then some _ else none) = some row := (get_insert _ _ _ _).symm.trans hg
  split at hcas
  · rename_i huse
    rw [← some.inj hcas, huse]
  · cases hcas

theorem oneReserved_within (item : UInt32) : copies oneReserved item ≤ 1 := by
  exact List.count_le_length

/-- Two raiders change to the same item, and both give up. -/
def bothGiveUp : List (Event Request) :=
  [.start 0 (reserveOf "A" [2]), .step 0, .step 0, .start 1 (reserveOf "B" [2]), .step 1, .step 1,
    .step 0, .step 1, .step 0, .step 1, .step 0, .step 1]

theorem cap_holds_both_give_up :
    copies (execAll (Sheets.exec openCatalog) (idle oneReserved) bothGiveUp).store 2 ≤
      1 := by
  have hrun : Run (Sheets.exec openCatalog)
      (fun sys event => Admitted sys event ∧ Fitting sys event) (idle oneReserved) _
      (execAll (Sheets.exec openCatalog) (idle oneReserved) bothGiveUp) :=
    Run.of_admitsAll (by decide)
  exact cap_holds openCatalog rfl rfl oneReserved_wellFormed oneReserved_within hrun
    (System.allEnded_of_all (by decide)) 2

/-- While the first raider has changed to the item 2, the item 1 is taken by a third one; the first
one then finds the item 2 taken by the second, and puts its old row back. -/
def takenMeanwhile : List (Event Request) :=
  [.start 0 (reserveOf "A" [2]), .step 0, .step 0, .start 1 (reserveOf "B" [2]), .step 1, .step 1,
    .step 0, .step 1, .start 2 (reserveOf "D" [1]), .step 2, .step 2, .step 2, .step 2, .step 2,
    .step 2, .step 0, .step 0, .step 1, .step 1, .step 1]

/-- An item can end up reserved more often than the cap says. -/
theorem cap_exceeded : ¬∀ (catalog : Catalog) (s : Store) (sheet : SoftResSheet) (cap : Nat)
    (history : List (Sheets × Event Request)) (sys : Sheets), s.sheet = some sheet →
      sheet.perItemCap = some cap → WellFormed s.reserves → (∀ item, copies s item ≤ cap) →
        Run (Sheets.exec catalog) Admitted (idle s) history sys → sys.AllEnded →
          ∀ item, copies sys.store item ≤ cap := by
  intro hall
  have hcopies := hall openCatalog oneReserved cappedSheet 1 _
    (execAll (Sheets.exec openCatalog) (idle oneReserved) takenMeanwhile) rfl rfl
    oneReserved_wellFormed oneReserved_within (Run.of_admitsAll (by decide))
    (System.allEnded_of_all (by decide)) 1
  exact absurd hcopies (by decide)

end SlogaBackend.Softres
