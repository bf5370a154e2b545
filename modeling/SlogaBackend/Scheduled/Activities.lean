import SlogaBackend.Scheduled.Delivery

/-!
# What an instance has in hand

Between two calls an instance of the task or a request has something in hand: rows it has read, a row
it is scheduling, a row it is delivering, attachments it is going to release. `Activity` says what,
`Turn` what a call and its answer change about it, and `Stage` which programs are left for an
activity. `Stage.next` connects them: whatever a call is answered, the activity turns, possibly gives
the delivery up, and the rest of the program is left for what comes out.
-/

namespace SlogaBackend.Scheduled

open Files

variable {act : Activity}

@[ext]
structure Activity where
  /-- rows it has read and may claim or cancel -/
  hand : List ScheduledMessage := []
  /-- the row it is scheduling, and the attachments claimed for it -/
  drafting : Option (String × List String) := none
  /-- the row it is delivering, and the attachments that were found in order -/
  delivering : Option (ScheduledMessage × List String) := none
  /-- the attachments it is going to release, by row -/
  owed : List (String × List String) := []
  /-- the row it is going to mark as sent or failed -/
  closing : Option String := none

namespace Activity

/-- To release the attachments of a row, if there are any, and then what there was. -/
def owing (act : Activity) (id : String) (ids : List String) : Activity :=
  if ids = [] then act else { act with owed := (id, ids) :: act.owed }

def owingAll (act : Activity) : List ScheduledMessage → Activity
  | [] => act
  | row :: rows => (act.owingAll rows).owing row.id row.attachments

section

variable (act : Activity) (id : String) (ids : List String)

@[simp] theorem owing_hand : (act.owing id ids).hand = act.hand := by
  unfold owing
  split <;> rfl

@[simp] theorem owing_drafting : (act.owing id ids).drafting = act.drafting := by
  unfold owing
  split <;> rfl

@[simp] theorem owing_delivering : (act.owing id ids).delivering = act.delivering := by
  unfold owing
  split <;> rfl

@[simp] theorem owing_closing : (act.owing id ids).closing = act.closing := by
  unfold owing
  split <;> rfl

end

theorem mem_owing {id : String} {ids : List String} {debt : String × List String}
    (h : debt ∈ (act.owing id ids).owed) : debt ∈ act.owed ∨ debt = (id, ids) ∧ ids ≠ [] := by
  unfold owing at h
  split at h
  · exact .inl h
  · exact (mem_cons.mp h).elim (fun heq => .inr ⟨heq, ‹_›⟩) .inl

section

variable (act : Activity) (rows : List ScheduledMessage)

@[simp] theorem owingAll_hand : (act.owingAll rows).hand = act.hand := by
  induction rows with
  | nil => rfl
  | cons row rows ih => rw [owingAll, owing_hand, ih]

@[simp] theorem owingAll_drafting : (act.owingAll rows).drafting = act.drafting := by
  induction rows with
  | nil => rfl
  | cons row rows ih => rw [owingAll, owing_drafting, ih]

@[simp] theorem owingAll_delivering : (act.owingAll rows).delivering = act.delivering := by
  induction rows with
  | nil => rfl
  | cons row rows ih => rw [owingAll, owing_delivering, ih]

@[simp] theorem owingAll_closing : (act.owingAll rows).closing = act.closing := by
  induction rows with
  | nil => rfl
  | cons row rows ih => rw [owingAll, owing_closing, ih]

end

theorem mem_owingAll {rows : List ScheduledMessage}
    {debt : String × List String} (h : debt ∈ (act.owingAll rows).owed) :
    debt ∈ act.owed ∨ ∃ row ∈ rows, debt = (row.id, row.attachments) ∧ row.attachments ≠ [] := by
  induction rows with
  | nil => exact .inl h
  | cons row rows ih =>
    rcases mem_owing h with hold | ⟨heq, hne⟩
    · refine (ih hold).imp_right ?_
      rintro ⟨row', hmem, hrow'⟩
      exact ⟨row', mem_cons_of_mem _ hmem, hrow'⟩
    · exact .inr ⟨row, mem_cons_self, heq, hne⟩

inductive GivesUp : Activity → Activity → Prop where
  | keeps (act : Activity) : GivesUp act act
  | fails (hand : List ScheduledMessage) (row : ScheduledMessage) (ids : List String) :
      GivesUp { hand, delivering := some (row, ids) }
        { Activity.owing { hand } row.id row.attachments with closing := some row.id }

end Activity

/-- The calls that mark a claimed row as finished. -/
inductive Closes : Call → String → Prop where
  | sent (fate : Fate) (id : String) : Closes (.markScheduledMessageSent fate id) id
  | failed (id reason : String) : Closes (.markScheduledMessageFailed id reason) id

/-- What a call and its answer change. -/
inductive Turn : Activity → (c : Call) → Reply c → Activity → Prop where
  | fetchesDue (nowMs : Int) (due : List ScheduledMessage) :
      Turn {} (.fetchDueScheduledMessages nowMs) due { hand := due }
  | claims (row : ScheduledMessage) (rows : List ScheduledMessage) :
      Turn { hand := row :: rows } (.claimScheduledMessage row.id) true
        { hand := rows, delivering := some (row, []) }
  | passes (row : ScheduledMessage) (rows : List ScheduledMessage) :
      Turn { hand := row :: rows } (.claimScheduledMessage row.id) false { hand := rows }
  | fetches (hand : List ScheduledMessage) (row : ScheduledMessage) (ids : List String)
      (attachmentId : String) (file : File) (hmem : attachmentId ∈ row.attachments)
      (hdeleted : file.deleted.getD false = false) :
      Turn { hand, delivering := some (row, ids) } (.fetchAttachment "attachments" attachmentId)
        (.ok file) { hand, delivering := some (row, ids ++ [attachmentId]) }
  | misses (act : Activity) (tag fileId : String) (fetched : Except Error File) :
      Turn act (.fetchAttachment tag fileId) fetched act
  | retargets (act : Activity) (id newParentId : String) (retargeted : Except Error Unit) :
      Turn act (.retargetAttachment id newParentId) retargeted act
  | delivers (hand : List ScheduledMessage) (row : ScheduledMessage) (message : Message)
      (hnonce : message.nonce = some row.id) (hids : message.attachmentIds = row.attachments) :
      Turn { hand, delivering := some (row, row.attachments) } (.insertMessage message) (.ok ())
        { hand, closing := some row.id }
  | isRefused (act : Activity) (message : Message) (error : Error) :
      Turn act (.insertMessage message) (.error error) act
  | closes {c : Call} (act : Activity) (id : String) (hc : Closes c id) (answer : Reply c) :
      Turn { act with closing := some id } c answer { act with closing := none }
  | releases (act : Activity) (id : String) (ids : List String) (answer : Except Error Unit) :
      Turn { act with owed := (id, ids) :: act.owed } (.markAttachmentsAsDeleted ids) answer act
  | sweeps (cutoffMs : Int) (removed : List ScheduledMessage) :
      Turn {} (.deleteFinishedScheduledMessagesBefore cutoffMs) removed
        (Activity.owingAll {} (removed.filter (·.status == .sending)))
  | cancelsForChannel (channel : String) (removed : List ScheduledMessage) :
      Turn {} (.deleteScheduledMessagesForChannel channel) removed (Activity.owingAll {} removed)
  | cancelsForServer (server : String) (removed : List ScheduledMessage) :
      Turn {} (.deleteScheduledMessagesForServer server) removed (Activity.owingAll {} removed)
  | looksUp (id : String) (row : ScheduledMessage) :
      Turn {} (.fetchScheduledMessage id) (.ok row) { hand := [row] }
  | finds (id : String) (fetched : Except Error ScheduledMessage) :
      Turn {} (.fetchScheduledMessage id) fetched {}
  | cancels (row : ScheduledMessage) :
      Turn { hand := [row] } (.deleteScheduledMessageIfPending row.id) true
        (Activity.owing {} row.id row.attachments)
  | isTooLate (row : ScheduledMessage) :
      Turn { hand := [row] } (.deleteScheduledMessageIfPending row.id) false {}
  | uses (id : String) (ids : List String) (attachmentId tag uploaderId : String) (file : File) :
      Turn { drafting := some (id, ids) }
        (.findAndUseAttachment attachmentId tag ⟨.message, id⟩ uploaderId) (.ok file)
        { drafting := some (id, ids ++ [attachmentId]) }
  | cannotUse (id : String) (ids : List String) (attachmentId tag uploaderId : String)
      (error : Error) :
      Turn { drafting := some (id, ids) }
        (.findAndUseAttachment attachmentId tag ⟨.message, id⟩ uploaderId) (.error error)
        (Activity.owing {} id ids)
  | inserts (row : ScheduledMessage) (hpending : row.status = .pending) :
      Turn { drafting := some (row.id, row.attachments) } (.insertScheduledMessage row) (.ok ()) {}
  | cannotInsert (row : ScheduledMessage) (error : Error) :
      Turn { drafting := some (row.id, row.attachments) } (.insertScheduledMessage row)
        (.error error) (Activity.owing {} row.id row.attachments)

/-! ## Stages -/

/-- The rest of a pass, from some of the due rows on. -/
def restOfTick (r : Tick) (rows : List ScheduledMessage) : Program Unit :=
  (settleDue r rows).bind fun _ => sweep r

/-- A delivery with what follows it. -/
def andConclude (r : Tick) (row : ScheduledMessage) (rows : List ScheduledMessage)
    (delivery : Program (Except String Unit)) : Program Unit :=
  delivery.bind fun delivered => (conclude r row delivered).bind fun _ => restOfTick r rows

/-- The programs that are left for an activity. -/
inductive Stage : Program Unit → Activity → Prop where
  | ended (result : Except Error Unit) : Stage (.done result) {}
  | closing {c : Call} {rest : Reply c → Program Unit} {act : Activity} (id : String)
      (hc : Closes c id) (hnone : act.closing = none) (hidle : act.delivering = none) (hrest : ∀ answer, Stage (rest answer) act) :
      Stage (.call c rest) { act with closing := some id }
  | releasing {id : String} {ids : List String}
      {rest : Reply (.markAttachmentsAsDeleted ids) → Program Unit} {act : Activity}
      (hidle : act.delivering = none) (hrest : ∀ answer, Stage (rest answer) act) :
      Stage (.call (.markAttachmentsAsDeleted ids) rest) { act with owed := (id, ids) :: act.owed }
  | ticking {prog : Program Unit} (r : Tick) (hprog : prog = tick r) : Stage prog {}
  | visiting {prog : Program Unit} (r : Tick) (rows : List ScheduledMessage)
      (hprog : prog = restOfTick r rows) : Stage prog { hand := rows }
  | handing {prog : Program Unit} (r : Tick) (row : ScheduledMessage)
      (rows : List ScheduledMessage) (resolved : List File) (attachmentId : String)
      (rest : List String)
      (hattachments : row.attachments = resolved.map File.id ++ attachmentId :: rest)
      (hprog : prog = andConclude r row rows
        ((handOver row (r.circumstances row.id).messageId resolved (attachmentId :: rest)).bind
          (createFromApi r row))) :
      Stage prog { hand := rows, delivering := some (row, resolved.map File.id) }
  | retargeting {prog : Program Unit} (r : Tick) (row : ScheduledMessage)
      (rows : List ScheduledMessage) (resolved : List File) (file : File) (rest : List String)
      (hattachments : row.attachments = (resolved ++ [file]).map File.id ++ rest)
      (hprog : prog = andConclude r row rows
        (Prog.bind (Prog.bind (op (Call.retargetAttachment file.id
          (r.circumstances row.id).messageId)) fun retargeted => whenRetargeted retargeted
            (handOver row (r.circumstances row.id).messageId
              (resolved ++ [retarget (r.circumstances row.id).messageId file]) rest))
          (createFromApi r row))) :
      Stage prog { hand := rows, delivering := some (row, (resolved ++ [file]).map File.id) }
  | inserting {prog : Program Unit} (r : Tick) (row : ScheduledMessage)
      (rows : List ScheduledMessage) (message : Message)
      (hnonce : message.nonce = some row.id) (hids : message.attachmentIds = row.attachments)
      (hprog : prog = andConclude r row rows (Prog.bind (op (Call.insertMessage message))
        fun inserted => pure (sendResult r inserted))) :
      Stage prog { hand := rows, delivering := some (row, row.attachments) }
  | cancellingChannel {prog : Program Unit} (channel : String)
      (hprog : prog = cancelAllForChannel channel) : Stage prog {}
  | cancellingServer {prog : Program Unit} (server : String)
      (hprog : prog = cancelAllForServer server) : Stage prog {}
  | lookingUp {prog : Program Unit} (r : CancelRequest)
      (hprog : prog = scheduledMessageDelete r) : Stage prog {}
  | cancelling {prog : Program Unit} (row : ScheduledMessage) (hprog : prog = cancelRow row) :
      Stage prog { hand := [row] }
  | claiming {prog : Program Unit} (r : ScheduleRequest) (claimed rest : List String)
      (hattachments : r.row.attachments = claimed ++ rest)
      (hprog : prog = (claimAttachments r claimed rest).bind (insertRow r)) :
      Stage prog { drafting := some (r.rowId, claimed) }

theorem checkAttachment_eq_ok {row : ScheduledMessage} {fetched : Except Error File} {file : File}
    (h : checkAttachment row fetched = .ok file) :
    fetched = .ok file ∧ file.deleted.getD false = false := by
  unfold checkAttachment at h
  split at h
  · cases h
  · split at h
    · cases h
      exact ⟨rfl, ‹_ ∧ _›.2⟩
    · cases h

namespace Stage

open Activity

section

variable {k : Unit → Program Unit} {act : Activity} (hidle : act.delivering = none)
  (hk : Stage (k ()) act)
include hidle hk

theorem releaseAttachments (id : String) (ids : List String) :
    Stage ((Scheduled.releaseAttachments ids).bind k) (act.owing id ids) := by
  unfold Scheduled.releaseAttachments owing
  split
  · exact hk
  · exact releasing hidle fun _ => hk

theorem releaseAll (rows : List ScheduledMessage) :
    Stage ((Scheduled.releaseAll rows).bind k) (act.owingAll rows) := by
  induction rows with
  | nil => exact hk
  | cons row rows ih =>
    rw [show (Scheduled.releaseAll (row :: rows)).bind k =
      (Scheduled.releaseAttachments row.attachments).bind fun _ =>
        (Scheduled.releaseAll rows).bind k from Prog.bind_assoc _ _ _]
    exact releaseAttachments (by rw [owingAll_delivering, hidle]) ih row.id row.attachments

end

theorem releaseAll_self (rows : List ScheduledMessage) :
    Stage (Scheduled.releaseAll rows) (owingAll {} rows) := by
  have h : Stage ((Scheduled.releaseAll rows).bind pure) (owingAll {} rows) :=
    releaseAll rfl (ended (.ok ())) rows
  rwa [Prog.bind_pure] at h

theorem releaseAttachments_error (hact : act = {}) (error : Error) (id : String)
    (ids : List String) :
    Stage ((Scheduled.releaseAttachments ids).bind fun _ => check (.error error))
      (act.owing id ids) := by
  subst hact
  exact releaseAttachments rfl (ended _) id ids

section

variable (r : Tick) (row : ScheduledMessage) (rows : List ScheduledMessage)

theorem fail (reason : String) : Stage ((Scheduled.fail row reason).bind fun _ => restOfTick r rows)
      { owing { hand := rows } row.id row.attachments with closing := some row.id } := by
  refine closing row.id (.failed row.id reason) (owing_closing _ _ _) (owing_delivering _ _ _) fun _ => ?_
  exact releaseAttachments rfl (visiting r rows rfl) row.id row.attachments

theorem gaveUp (ids : List String) (reason : String) : ∃ act,
      GivesUp { hand := rows, delivering := some (row, ids) } act ∧
        Stage (andConclude r row rows (.done (.ok (.error reason)))) act :=
  ⟨_, .fails rows row ids, fail r row rows reason⟩

theorem create (resolved : List File) (hatt : row.attachments = resolved.map File.id) : ∃ act,
      GivesUp { hand := rows, delivering := some (row, resolved.map File.id) } act ∧
        Stage (andConclude r row rows (createFromApi r row (.ok resolved))) act := by
  rw [← hatt]
  have hids : (messageOf r row resolved).attachmentIds = row.attachments := by
    rw [hatt]
    unfold messageOf Message.attachmentIds
    split
    · rename_i hnil
      rw [hnil, Option.getD_none]
    · rw [getD_some]
  cases hcreat : (r.circumstances row.id).created with
  | error error =>
    have hpr : createFromApi r row (.ok resolved) =
        .done (.ok (.error (couldNotBeSent r error))) := by
      unfold createFromApi
      simp only [hcreat]
      rfl
    rw [hpr]
    exact gaveUp r row rows row.attachments _
  | ok _ =>
    refine ⟨_, .keeps _, inserting r row rows (messageOf r row resolved) rfl hids ?_⟩
    unfold createFromApi
    simp only [hcreat]
    rfl

theorem handOver (resolved : List File) (rest : List String)
    (hatt : row.attachments = resolved.map File.id ++ rest) : ∃ act,
      GivesUp { hand := rows, delivering := some (row, resolved.map File.id) } act ∧
        Stage (andConclude r row rows
          ((Scheduled.handOver row (r.circumstances row.id).messageId resolved rest).bind
            (createFromApi r row))) act := by
  cases rest with
  | nil => exact create r row rows resolved (by rw [hatt, append_nil])
  | cons attachmentId rest =>
    exact ⟨_, .keeps _, handing r row rows resolved attachmentId rest hatt rfl⟩

theorem settle : ∃ act, GivesUp { hand := rows, delivering := some (row, []) } act ∧
      Stage ((Scheduled.settle r row).bind fun _ => restOfTick r rows) act := by
  unfold Scheduled.settle
  split
  · exact ⟨_, .fails rows row [], fail r row rows _⟩
  · rw [show ((deliver r row >>= fun delivered => conclude r row delivered).bind
        fun _ => restOfTick r rows) = andConclude r row rows (deliver r row) from
      Prog.bind_assoc _ _ _]
    unfold deliver
    cases checkDelivery r row with
    | error reason => exact gaveUp r row rows [] reason
    | ok _ => exact handOver r row rows [] row.attachments rfl

end

end Stage

/-! ## Starting, and delivering -/

theorem Stage.start (request : Request) : Stage (body request) {} ∨
    ∃ id, request.rowId? = some id ∧ Stage (body request) { drafting := some (id, []) } := by
  cases request with
  | schedule r =>
    cases href : r.refused with
    | some error =>
      refine .inl ?_
      simp only [body, messageSchedule, href]
      exact ended _
    | none =>
      refine .inr ⟨r.rowId, rfl, claiming r [] r.row.attachments rfl ?_⟩
      simp only [body, messageSchedule, href]
      rfl
  | cancel r => exact .inl (lookingUp r rfl)
  | cancelChannel channel => exact .inl (cancellingChannel channel rfl)
  | cancelServer server => exact .inl (cancellingServer server rfl)
  | tick r => exact .inl (ticking r rfl)

/-- Whether a call of a delivery is about an attachment. -/
def Call.handles (c : Call) (attachmentId : String) : Bool :=
  match c with
  | .fetchAttachment _ fileId => fileId == attachmentId
  | .retargetAttachment id _ => id == attachmentId
  | .insertMessage message => message.attachmentIds.contains attachmentId
  | _ => false

/-- **The next call of a delivery is about one of the attachments.** -/
theorem Stage.handles {prog : Program Unit} (hstg : Stage prog act)
    {row : ScheduledMessage} {ids : List String} (hdel : act.delivering = some (row, ids))
    (hne : row.attachments ≠ []) :
    ∃ c rest, prog = .call c rest ∧ ∃ id ∈ row.attachments, c.handles id = true := by
  cases hstg with
  | closing id hc hno hidle hrs | releasing hidle hrs =>
    rw [hidle] at hdel
    cases hdel
  | handing r row rows resolved attachmentId rest hatt hpr =>
    cases hdel
    refine ⟨_, _, hpr, attachmentId, ?_, beq_self_eq_true _⟩
    rw [hatt]
    exact mem_append_right _ mem_cons_self
  | retargeting r row rows resolved file rest hatt hpr =>
    cases hdel
    refine ⟨_, _, hpr, file.id, ?_, beq_self_eq_true _⟩
    rw [hatt, map_append]
    exact mem_append_left _ (mem_append_right _ mem_cons_self)
  | inserting r row rows message hnon hids hpr =>
    cases hdel
    obtain ⟨id, hmem⟩ := List.exists_mem_of_ne_nil _ hne
    refine ⟨_, _, hpr, id, hmem, ?_⟩
    show message.attachmentIds.contains id = true
    rw [hids]
    exact contains_iff_mem.mpr hmem
  | _ => cases hdel

/-! ## One call -/

/-- What a store that keeps its files under their ids answers. -/
def Faithful : (c : Call) → Reply c → Prop
  | .fetchAttachment _ fileId, .ok file => file.id = fileId
  | _, _ => True

/-- **A call turns the activity**, and may be the end of the delivery; the rest of the program is
left for what comes out. -/
theorem Stage.next {c : Call} {rest : Reply c → Program Unit}
    (hstg : Stage (.call c rest) act) (answer : Reply c) (hfait : Faithful c answer) :
    ∃ act' act'', Turn act c answer act' ∧ act'.GivesUp act'' ∧ Stage (rest answer) act'' := by
  -- most calls are not the end of a delivery
  have hkp : ∀ {act'}, Turn act c answer act' → Stage (rest answer) act' →
      ∃ act' act'', Turn act c answer act' ∧ act'.GivesUp act'' ∧ Stage (rest answer) act'' :=
    fun htr hrs => ⟨_, _, htr, .keeps _, hrs⟩
  cases hstg with
  | @closing _ _ act id hc hno _ hrs =>
    refine hkp (.closes act id hc answer) ?_
    rw [← hno]
    exact hrs answer
  | releasing _ hrs => exact hkp (.releases _ _ _ answer) (hrs answer)
  | ticking r hpr =>
    cases hpr
    exact hkp (.fetchesDue r.now answer) (visiting r answer rfl)
  | visiting r rows hpr =>
    cases rows with
    | nil =>
      cases hpr
      exact hkp (.sweeps _ answer) (releaseAll_self _)
    | cons row rows =>
      cases hpr
      cases answer with
      | false => exact hkp (.passes row rows) (visiting r rows rfl)
      | true =>
        obtain ⟨act, hgiv, hstg⟩ := settle r row rows
        refine ⟨_, act, .claims row rows, hgiv, ?_⟩
        rw [show restOfTick r rows = (settleDue r rows).bind fun _ => sweep r from rfl,
          ← Prog.bind_assoc] at hstg
        exact hstg
  | handing r row rows resolved attachmentId rest hatt hpr =>
    cases hpr
    cases hchk : checkAttachment row answer with
    | error reason =>
      obtain ⟨act, hgiv, hstg⟩ := gaveUp r row rows (resolved.map File.id) reason
      refine ⟨_, act, .misses _ _ _ answer, hgiv, ?_⟩
      simp only [Prog.bind, hchk]
      exact hstg
    | ok file =>
      obtain ⟨rfl, hdele⟩ := checkAttachment_eq_ok hchk
      obtain rfl : file.id = attachmentId := hfait
      have hmem : file.id ∈ row.attachments := by
        rw [hatt]
        exact mem_append_right _ mem_cons_self
      have hids : resolved.map File.id ++ [file.id] = (resolved ++ [file]).map File.id := by
        rw [map_append]
        rfl
      have hspl : row.attachments = (resolved ++ [file]).map File.id ++ rest := by
        rw [hatt, ← hids, append_assoc, List.singleton_append]
      refine hkp (.fetches rows row _ file.id file hmem hdele) ?_
      rw [hids]
      refine retargeting r row rows resolved file rest hspl ?_
      simp only [Prog.bind, hchk]
      rfl
  | retargeting r row rows resolved file rest hatt hpr =>
    cases hpr
    cases answer with
    | error error =>
      obtain ⟨act, hgiv, hstg⟩ := gaveUp r row rows ((resolved ++ [file]).map File.id)
        "an attachment could not be attached"
      exact ⟨_, act, .retargets _ _ _ _, hgiv, hstg⟩
    | ok _ =>
      have hids : (resolved ++ [retarget (r.circumstances row.id).messageId file]).map File.id =
          (resolved ++ [file]).map File.id := by
        rw [map_append, map_append]
        rfl
      obtain ⟨act, hgiv, hstg⟩ := handOver r row rows
        (resolved ++ [retarget (r.circumstances row.id).messageId file]) rest
        (by rw [hids]; exact hatt)
      rw [hids] at hgiv
      exact ⟨_, act, .retargets _ _ _ _, hgiv, hstg⟩
  | inserting r row rows message hnon hids hpr =>
    cases hpr
    cases answer with
    | error error =>
      obtain ⟨act, hgiv, hstg⟩ := gaveUp r row rows row.attachments (couldNotBeSent r error)
      exact ⟨_, act, .isRefused _ _ error, hgiv, hstg⟩
    | ok _ =>
      refine hkp (.delivers rows row message hnon hids) ?_
      exact closing row.id (.sent _ row.id) rfl rfl fun _ => visiting r rows rfl
  | cancellingChannel channel hpr =>
    cases hpr
    exact hkp (.cancelsForChannel channel answer) (releaseAll_self _)
  | cancellingServer server hpr =>
    cases hpr
    exact hkp (.cancelsForServer server answer) (releaseAll_self _)
  | lookingUp r hpr =>
    cases hpr
    cases answer with
    | error error => exact hkp (.finds r.id _) (ended _)
    | ok row =>
      by_cases hown : row.channel ≠ r.target ∨ row.author ≠ r.user
      · refine hkp (.finds r.id _) ?_
        show Stage (cancelFetched r (.ok row)) {}
        simp only [cancelFetched]
        rw [if_pos hown]
        exact ended _
      · refine hkp (.looksUp r.id row) ?_
        show Stage (cancelFetched r (.ok row)) { hand := [row] }
        simp only [cancelFetched]
        rw [if_neg hown]
        exact cancelling row rfl
  | cancelling row hpr =>
    cases hpr
    cases answer with
    | false => exact hkp (.isTooLate row) (ended _)
    | true =>
      have hstg : Stage ((Scheduled.releaseAttachments row.attachments).bind pure)
          (Activity.owing {} row.id row.attachments) :=
        releaseAttachments rfl (ended (.ok ())) row.id row.attachments
      rw [Prog.bind_pure] at hstg
      exact hkp (.cancels row) hstg
  | claiming r claimed rest' hatt hpr =>
    cases rest' with
    | nil =>
      cases hpr
      obtain rfl : r.row.attachments = claimed := by rw [hatt, append_nil]
      cases answer with
      | ok _ => exact hkp (.inserts r.row rfl) (ended _)
      | error error =>
        exact hkp (.cannotInsert r.row error) (releaseAttachments_error rfl error _ _)
    | cons attachmentId rest' =>
      cases hpr
      cases answer with
      | ok file =>
        refine hkp (.uses r.rowId claimed attachmentId _ _ file) ?_
        exact claiming r _ rest' (by rw [hatt, append_assoc]; rfl) rfl
      | error error =>
        refine hkp (.cannotUse r.rowId claimed attachmentId _ _ error) ?_
        have hstg := releaseAttachments_error rfl error r.rowId claimed
        rw [show ((Scheduled.releaseAttachments claimed).bind fun _ =>
            (check (.error error) : Program Unit)) =
          ((Scheduled.releaseAttachments claimed).bind fun _ =>
            (check (.error error) : Program (List String))).bind (insertRow r) from
          (Prog.bind_assoc (Scheduled.releaseAttachments claimed)
            (fun _ => (check (.error error) : Program (List String))) (insertRow r)).symm] at hstg
        exact hstg

end SlogaBackend.Scheduled
