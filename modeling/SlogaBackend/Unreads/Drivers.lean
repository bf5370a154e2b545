import SlogaBackend.Unreads.Mongo

/-!
# The two drivers of unread rows

The Reference driver keeps the rows in memory and the Mongo driver in a collection. They were
written with different operators: where one replaces the mentions the other appends, where one
clears them the other pulls those up to a message, and where one makes a row for every user the
other updates the rows that match, or inserts one row for all.

What a row shows is its pointer and its mentions, a missing list being empty. For each write
both drivers are computed to a function of what was shown before, and so is the condition under
which the two functions agree (`UnreadWrite.Meets`). It is exact: over every sequence of writes
on existing channels the drivers agree throughout if and only if each write meets its condition
(`drivers_agree_iff`).
-/

namespace SlogaBackend.Unreads

/-! ## The Reference driver -/

structure ReferenceDb where
  channels : Collection ChannelDocument.id
  channelUnreads : UnreadRows

namespace ReferenceDb

/-- A channel that is gone has its rows discarded. -/
def discard (db : ReferenceDb) (channel : String) : ReferenceDb :=
  { db with channelUnreads := deleteWhere db.channelUnreads fun row => row.id.channel == channel }

def acknowledgeMessage (db : ReferenceDb) (channel user message : String) :
    ReferenceDb × Option ChannelUnread :=
  match db.channels.findOne channel with
  | none => (db.discard channel, none)
  | some _ =>
    let rows := match db.channelUnreads.findOne (unreadKey channel user) with
      | some unread =>
        db.channelUnreads.put { unread with mentions := none, lastId := some message }
      | none => db.channelUnreads.put ⟨unreadKey channel user, some message, none⟩
    ({ db with channelUnreads := rows }, rows.findOne (unreadKey channel user))

def acknowledgeChannels (db : ReferenceDb) (currentTime user : String) (channels : List String) :
    ReferenceDb :=
  channels.foldl (fun db channel => (db.acknowledgeMessage channel user currentTime).1) db

/-- The mentions of a row are replaced, or a row is made for them. -/
def replaceMentions (rows : UnreadRows) (channel : String) (messages : List String)
    (user : String) : UnreadRows :=
  match rows.findOne (unreadKey channel user) with
  | some unread => rows.put { unread with mentions := some messages }
  | none => rows.put ⟨unreadKey channel user, none, some messages⟩

def addMentionToUnread (db : ReferenceDb) (channel user : String) (messages : List String) :
    ReferenceDb :=
  match db.channels.findOne channel with
  | none => db.discard channel
  | some _ => { db with channelUnreads := replaceMentions db.channelUnreads channel messages user }

def addMentionToManyUnreads (db : ReferenceDb) (channel : String) (users messages : List String) :
    ReferenceDb :=
  match db.channels.findOne channel with
  | none => db.discard channel
  | some _ =>
    { db with
      channelUnreads := users.foldl (fun rows => replaceMentions rows channel messages)
        db.channelUnreads }

end ReferenceDb

def UnreadWrite.reference (db : ReferenceDb) : UnreadWrite → ReferenceDb
  | .acknowledgeMessage channel user message => (db.acknowledgeMessage channel user message).1
  | .acknowledgeChannels currentTime user channels =>
    db.acknowledgeChannels currentTime user channels
  | .addMentionToUnread channel user messages => db.addMentionToUnread channel user messages
  | .addMentionToManyUnreads channel users messages =>
    db.addMentionToManyUnreads channel users messages

/-- The Mongo driver with nobody else around. -/
def UnreadWrite.mongo (s : Store) (w : UnreadWrite) : Store := (w.program.alone perform 0 s).1

def UnreadWrite.channels : UnreadWrite → List String
  | .acknowledgeMessage channel _ _ => [channel]
  | .acknowledgeChannels _ _ channels => channels
  | .addMentionToUnread channel _ _ => [channel]
  | .addMentionToManyUnreads channel _ _ => [channel]

/-! ## What rows show -/

/-- The pointer and the mentions of a row; a missing list is empty. -/
abbrev Shown := Option (Option String × List String)

def shown (rows : UnreadRows) (key : UnreadKey) : Shown :=
  (rows.findOne key).map fun row => (row.lastId, row.mentions.getD [])

def Shown.lastId (seen : Shown) : Option String := seen.bind Prod.fst

def Shown.mentions (seen : Shown) : List String := (seen.map Prod.snd).getD []

/-- The rows are equal when a missing list of mentions is identified with an empty one. -/
def Agree (rows rows' : UnreadRows) : Prop := ∀ key, shown rows key = shown rows' key

/-! ## What a write is for -/

/-- An acknowledgement removes exactly the mentions up to its message, and mentions for several
users are found with every one of them. -/
def UnreadWrite.Does (before after : UnreadRows) : UnreadWrite → Prop
  | .acknowledgeMessage channel user message =>
    (shown after (unreadKey channel user)).mentions =
      (shown before (unreadKey channel user)).mentions.filter fun mention => !mention ≤ message
  | .addMentionToManyUnreads channel users messages =>
    ∀ user ∈ users, shown after (unreadKey channel user) ≠ none ∧
      messages ⊆ (shown after (unreadKey channel user)).mentions
  | _ => True

/-- The rows agree before and after every write of a sequence, and every write does with both
drivers what it is for. -/
def AgreeThroughout (s : Store) (db : ReferenceDb) : List UnreadWrite → Prop
  | [] => Agree s.unreads db.channelUnreads
  | w :: ws => Agree s.unreads db.channelUnreads ∧ w.Does s.unreads (w.mongo s).unreads ∧
      w.Does db.channelUnreads (w.reference db).channelUnreads ∧
      AgreeThroughout (w.mongo s) (w.reference db) ws

/-- The channels up to the first that is repeated. -/
def distinctPrefix (seen : List String) : List String → List String
  | [] => []
  | channel :: channels =>
    if channel ∈ seen then [] else channel :: distinctPrefix (channel :: seen) channels

variable {channel : String} {db : ReferenceDb} {rows : UnreadRows} {w : UnreadWrite}

variable {channels : List String}

theorem mem_of_mem_distinctPrefix :
    ∀ {seen : List String}, channel ∈ distinctPrefix seen channels → channel ∈ channels := by
  induction channels with
  | nil => exact fun h => h
  | cons first channels ih =>
    intro seen h
    unfold distinctPrefix at h
    split at h
    · cases h
    · rcases mem_cons.mp h with rfl | hmem
      · exact mem_cons_self
      · exact mem_cons_of_mem _ (ih hmem)

/-- The condition of a write on the rows before it. -/
def UnreadWrite.Meets (rows : UnreadRows) : UnreadWrite → Prop
  | .acknowledgeMessage channel user message =>
    ∀ mention ∈ (shown rows (unreadKey channel user)).mentions, mention ≤ message
  | .acknowledgeChannels _ _ channels => ∀ channel ∈ channels, channel ∈ distinctPrefix [] channels
  | .addMentionToUnread channel user _ => (shown rows (unreadKey channel user)).mentions = []
  | .addMentionToManyUnreads channel users _ =>
    users ≠ [] ∧ (∀ user ∈ users, (shown rows (unreadKey channel user)).mentions = []) ∧
      ((∀ user ∈ users, shown rows (unreadKey channel user) ≠ none) ∨
        ∃ user, ∀ other ∈ users, other = user)

/-- Every write of a sequence meets its condition. -/
def EachMeets (s : Store) : List UnreadWrite → Prop
  | [] => True
  | w :: ws => w.Meets s.unreads ∧ EachMeets (w.mongo s) ws

/-! ## The Mongo driver alone -/

/-- The rows the Mongo driver leaves where every channel exists. -/
def UnreadWrite.mongoRows (rows : UnreadRows) : UnreadWrite → UnreadRows
  | .acknowledgeMessage channel user message =>
    upsert rows (unreadKey channel user) (ChannelUnread.acknowledge message)
  | .acknowledgeChannels currentTime user channels =>
    if channels = [] then rows
    else (insertMany (deleteWhere rows fun row =>
      channels.contains row.id.channel && row.id.user == some user)
      (acknowledgedRows currentTime user channels)).1
  | .addMentionToUnread channel user messages =>
    upsert rows (unreadKey channel user) (ChannelUnread.pushMentions messages)
  | .addMentionToManyUnreads channel users messages =>
    (updateManyMentions rows channel users messages).getD rows

variable {channel : String}

theorem missingChannels_eq_nil {stored : Collection ChannelDocument.id}
    (hexists : ∀ channel ∈ channels, stored.findOne channel ≠ none) :
    missingChannels channels (channels.dedup.filterMap stored.findOne) = [] := by
  refine List.filter_eq_nil_iff.mpr fun channel hmem => ?_
  obtain ⟨document, hdoc⟩ := ne_none_iff_exists'.mp (hexists channel hmem)
  have hpres : channel ∈ (channels.dedup.filterMap stored.findOne).map ChannelDocument.id :=
    mem_map.mpr ⟨document, mem_filterMap.mpr ⟨channel, mem_dedup.mpr hmem, hdoc⟩,
      key_of_findOne hdoc⟩
  rw [contains_iff_mem.mpr hpres]
  simp

section Alone

variable {s : Store} (hfaults : ∀ tick, s.faults tick = none)
include hfaults

theorem alone_ask (c : Call) : (ask c).alone perform 0 s =
    ({ (reach c s).1 with tick := s.tick + 1 }, (reach c s).2) := by
  show perform 0 c s = _
  unfold perform
  rw [hfaults s.tick]

theorem alone_discard (hexists : s.channels.findOne channel ≠ none) :
    (discardUnreadsIfChannelGone channel).alone perform 0 s =
      ({ s with tick := s.tick + 1 }, .ok false) := by
  obtain ⟨document, hdoc⟩ := ne_none_iff_exists'.mp hexists
  have hfnd : (ask (.findChannel channel)).alone perform 0 s =
      ({ s with tick := s.tick + 1 }, .ok (some document)) := by
    rw [alone_ask hfaults, ← hdoc]
    rfl
  exact alone_bind_ok hfnd

theorem alone_write {c : Call} {v : Value c} {rows : UnreadRows}
    (hrch : reach c s = ({ s with unreads := rows }, .ok v))
    (hexists : s.channels.findOne channel ≠ none) {α : Type} {k : Value c → Bool → Program α}
    {a : α} (hk : k v false = return a) :
    ((ask c).bind fun v => (discardUnreadsIfChannelGone channel).bind (k v)).alone perform 0 s =
      ({ s with unreads := rows, tick := s.tick + 1 + 1 }, .ok a) := by
  have hask : (ask c).alone perform 0 s = ({ s with unreads := rows, tick := s.tick + 1 }, .ok v) := by
    rw [alone_ask hfaults, hrch]
  rw [alone_bind_ok hask]
  have hchk := alone_discard (s := { s with unreads := rows, tick := s.tick + 1 }) hfaults hexists
  rw [alone_bind_ok hchk, hk]
  rfl

theorem alone_acknowledgeChannels (currentTime user : String)
    (hexists : ∀ channel ∈ channels, s.channels.findOne channel ≠ none) :
    ∃ tick, ((acknowledgeChannels currentTime user channels).alone perform 0 s).1 =
      { s with
        unreads := (UnreadWrite.acknowledgeChannels currentTime user channels).mongoRows s.unreads
        tick := tick } := by
  unfold acknowledgeChannels UnreadWrite.mongoRows
  by_cases hnil : channels = []
  · rw [if_pos hnil]
    exact ⟨s.tick, by simp only [if_pos hnil]; rfl⟩
  simp only [if_neg hnil]
  let rows := deleteWhere s.unreads fun row =>
    channels.contains row.id.channel && row.id.user == some user
  let new := acknowledgedRows currentTime user channels
  let deleted : Store := { s with unreads := rows, tick := s.tick + 1 }
  let inserted : Store := { s with unreads := (insertMany rows new).1, tick := s.tick + 1 + 1 }
  have hdele : (ask (.deleteUnreads channels user)).alone perform 0 s = (deleted, .ok ()) :=
    alone_ask hfaults _
  have hins : (ask (.insertMany new)).alone perform 0 deleted =
      (inserted, (reach (.insertMany new) deleted).2) :=
    alone_ask (s := deleted) hfaults _
  rw [show ∀ k : Unit → Program Unit, ((ask (.deleteUnreads channels user) >>= k).alone perform 0 s)
    = (k ()).alone perform 0 deleted from fun k => alone_bind_ok hdele]
  cases hans : (reach (.insertMany new) deleted).2 with
  | error e =>
    rw [hans] at hins
    exact ⟨_, congrArg Prod.fst (Prog.alone_bind_error hins)⟩
  | ok _ =>
    rw [hans] at hins
    have hfn : (ask (.findChannels "find" channels)).alone perform 0 inserted =
        ({ inserted with tick := inserted.tick + 1 },
          .ok (channels.dedup.filterMap s.channels.findOne)) :=
      alone_ask (s := inserted) hfaults _
    refine ⟨s.tick + 1 + 1 + 1, (congrArg Prod.fst ((alone_bind_ok hins).trans
      (alone_bind_ok hfn))).trans ?_⟩
    rw [if_pos (missingChannels_eq_nil hexists)]
    rfl

/-- **What the Mongo driver does.** -/
theorem mongo_eq {w : UnreadWrite}
    (hexists : ∀ channel ∈ w.channels, s.channels.findOne channel ≠ none) :
    ∃ tick, w.mongo s = { s with unreads := w.mongoRows s.unreads, tick := tick } := by
  cases w with
  | acknowledgeMessage channel user message =>
    have halo : (acknowledgeMessage channel user message).alone perform 0 s =
        ({ s with
          unreads := upsert s.unreads (unreadKey channel user) (ChannelUnread.acknowledge message)
          tick := s.tick + 1 + 1 }, .ok _) :=
      alone_write hfaults rfl (hexists channel mem_cons_self) rfl
    exact ⟨_, congrArg Prod.fst (alone_bind_ok halo)⟩
  | acknowledgeChannels currentTime user channels =>
    exact alone_acknowledgeChannels hfaults currentTime user hexists
  | addMentionToUnread channel user messages =>
    have halo : (addMentionToUnread channel user messages).alone perform 0 s =
        ({ s with
          unreads := upsert s.unreads (unreadKey channel user) (ChannelUnread.pushMentions messages)
          tick := s.tick + 1 + 1 }, .ok _) :=
      alone_write hfaults rfl (hexists channel mem_cons_self) rfl
    exact ⟨_, congrArg Prod.fst halo⟩
  | addMentionToManyUnreads channel users messages =>
    show ∃ tick, ((addMentionToManyUnreads channel users messages).alone perform 0 s).1 =
      { s with
        unreads := (updateManyMentions s.unreads channel users messages).getD s.unreads
        tick := tick }
    cases hrw : updateManyMentions s.unreads channel users messages with
    | none =>
      have hrch : reach (.updateMany channel users messages) s =
          (s, .error (errorOf (.updateMany channel users messages))) := by
        simp only [reach, hrw]
      have halo : (ask (.updateMany channel users messages)).alone perform 0 s =
          ({ s with tick := s.tick + 1 }, .error (errorOf (.updateMany channel users messages))) := by
        rw [alone_ask hfaults, hrch]
      exact ⟨_, congrArg Prod.fst (Prog.alone_bind_error halo)⟩
    | some rows =>
      have hrch : reach (.updateMany channel users messages) s =
          ({ s with unreads := rows }, .ok ()) := by
        simp only [reach, hrw]
      have halo : (addMentionToManyUnreads channel users messages).alone perform 0 s =
          ({ s with unreads := rows, tick := s.tick + 1 + 1 }, .ok _) :=
        alone_write hfaults hrch (hexists channel mem_cons_self) rfl
      exact ⟨_, congrArg Prod.fst halo⟩

end Alone

/-! ## What each driver shows after a write -/

section Single

variable (rows : UnreadRows) (channel user : String) (key : UnreadKey)

theorem shown_acknowledge (message : String) :
    shown (upsert rows (unreadKey channel user) (ChannelUnread.acknowledge message)) key =
      if key = unreadKey channel user then
        some (some message, (shown rows (unreadKey channel user)).mentions.filter
          fun mention => !mention ≤ message)
      else shown rows key := by
  unfold shown
  rw [findOne_upsert rows (ChannelUnread.acknowledge_id message)]
  split
  · cases rows.findOne (unreadKey channel user) with
    | none => rfl
    | some row =>
      obtain ⟨id, lastId, mentions⟩ := row
      cases mentions <;> rfl
  · rfl

theorem shown_pushMentions (messages : List String) :
    shown (upsert rows (unreadKey channel user) (ChannelUnread.pushMentions messages)) key =
      if key = unreadKey channel user then
        some ((shown rows (unreadKey channel user)).lastId,
          (shown rows (unreadKey channel user)).mentions ++ messages)
      else shown rows key := by
  unfold shown
  rw [findOne_upsert rows (ChannelUnread.pushMentions_id messages)]
  split
  · cases rows.findOne (unreadKey channel user) <;> rfl
  · rfl

theorem shown_put (row : ChannelUnread) : shown (rows.put row) key =
      if key = row.id then some (row.lastId, row.mentions.getD []) else shown rows key := by
  unfold shown
  rw [Collection.findOne_put]
  split <;> rfl

theorem shown_replaceMentions (messages : List String) :
    shown (ReferenceDb.replaceMentions rows channel messages user) key =
      if key = unreadKey channel user then
        some ((shown rows (unreadKey channel user)).lastId, messages)
      else shown rows key := by
  unfold ReferenceDb.replaceMentions
  cases hrow : rows.findOne (unreadKey channel user) with
  | none =>
    have hshow : shown rows (unreadKey channel user) = none := by rw [shown, hrow]; rfl
    rw [hshow]
    exact shown_put rows key _
  | some row =>
    have hid : row.id = unreadKey channel user := key_of_findOne hrow
    have hshow : (shown rows (unreadKey channel user)).lastId = row.lastId := by
      rw [shown, hrow]
      rfl
    rw [hshow, ← hid]
    exact shown_put rows key { row with mentions := some messages }

end Single

theorem shown_replaceAll (channel : String) (messages users : List String) (key : UnreadKey) :
    ∀ rows : UnreadRows,
      shown (users.foldl (fun rows => ReferenceDb.replaceMentions rows channel messages) rows) key =
        if ∃ user ∈ users, key = unreadKey channel user then some ((shown rows key).lastId, messages)
        else shown rows key := by
  induction users with
  | nil => exact fun rows => by simp
  | cons user users ih =>
    intro rows
    rw [foldl_cons, ih, shown_replaceMentions]
    by_cases hkey : key = unreadKey channel user
    · subst hkey
      simp [Shown.lastId]
    · simp [hkey]

theorem channels_acknowledgeMessage (db : ReferenceDb) (channel user message : String) :
    (db.acknowledgeMessage channel user message).1.channels = db.channels := by
  unfold ReferenceDb.acknowledgeMessage
  split <;> rfl

theorem shown_reference_acknowledge (hexists : db.channels.findOne channel ≠ none)
    (user message : String) (key : UnreadKey) :
    shown (db.acknowledgeMessage channel user message).1.channelUnreads key =
      if key = unreadKey channel user then some (some message, [])
      else shown db.channelUnreads key := by
  obtain ⟨document, hdoc⟩ := ne_none_iff_exists'.mp hexists
  unfold ReferenceDb.acknowledgeMessage
  rw [hdoc]
  cases hrow : db.channelUnreads.findOne (unreadKey channel user) with
  | none => exact shown_put db.channelUnreads key _
  | some row =>
    have hid : row.id = unreadKey channel user := key_of_findOne hrow
    rw [← hid]
    exact shown_put db.channelUnreads key { row with mentions := none, lastId := some message }

section

variable (currentTime user : String) (key : UnreadKey) (channels : List String)

theorem shown_acknowledgeAll : ∀ db : ReferenceDb,
      (∀ channel ∈ channels, db.channels.findOne channel ≠ none) →
      shown (db.acknowledgeChannels currentTime user channels).channelUnreads key =
        if ∃ channel ∈ channels, key = unreadKey channel user then some (some currentTime, [])
        else shown db.channelUnreads key := by
  induction channels with
  | nil => exact fun db _ => by simp [ReferenceDb.acknowledgeChannels]
  | cons channel channels ih =>
    intro db hexists
    have hrs : ∀ other ∈ channels,
        (db.acknowledgeMessage channel user currentTime).1.channels.findOne other ≠ none := by
      intro other hoth
      rw [channels_acknowledgeMessage]
      exact hexists other (mem_cons_of_mem _ hoth)
    refine (ih _ hrs).trans ?_
    rw [shown_reference_acknowledge (hexists channel mem_cons_self)]
    by_cases hkey : key = unreadKey channel user
    · subst hkey
      simp
    · simp [hkey]

theorem shown_insertMany : ∀ (seen : List String) (rows : UnreadRows),
      (∀ channel ∈ channels, rows.findOne (unreadKey channel user) = none ↔ channel ∉ seen) →
      shown (insertMany rows (acknowledgedRows currentTime user channels)).1 key =
        if ∃ channel ∈ distinctPrefix seen channels, key = unreadKey channel user then
          some (some currentTime, [])
        else shown rows key := by
  induction channels with
  | nil => exact fun seen rows _ => by simp [acknowledgedRows, insertMany, distinctPrefix]
  | cons channel channels ih =>
    intro seen rows hsn
    have hfr := hsn channel mem_cons_self
    unfold acknowledgedRows at ih ⊢
    rw [map_cons, insertMany]
    unfold distinctPrefix
    cases hins : rows.insertOne ⟨unreadKey channel user, some currentTime, none⟩ with
    | none =>
      obtain ⟨row, hrow⟩ := Collection.insertOne_eq_none.mp hins
      have hmem : channel ∈ seen := by
        by_contra hnotMem
        cases (hfr.mpr hnotMem).symm.trans hrow
      rw [if_pos hmem]
      simp
    | some rows' =>
      obtain ⟨hno, hfn⟩ := Collection.insertOne_eq_some hins
      have hnotMem : channel ∉ seen := hfr.mp hno
      have hsn' : ∀ other ∈ channels,
          rows'.findOne (unreadKey other user) = none ↔ other ∉ channel :: seen := by
        intro other hoth
        rw [hfn]
        by_cases heq : other = channel
        · simp [heq]
        · have hne : unreadKey other user ≠ unreadKey channel user := by simpa [unreadKey] using heq
          rw [if_neg hne, hsn other (mem_cons_of_mem _ hoth)]
          simp [heq]
      have hshow : shown rows' key = if key = unreadKey channel user then some (some currentTime, [])
          else shown rows key := by
        unfold shown
        rw [hfn]
        split <;> rfl
      rw [if_neg hnotMem]
      refine (ih (channel :: seen) rows' hsn').trans ?_
      rw [hshow]
      by_cases hkey : key = unreadKey channel user
      · subst hkey
        simp
      · simp [hkey]

end

theorem shown_deleteUnreads (rows : UnreadRows) (user : String) (channels : List String)
    (key : UnreadKey) :
    shown (deleteWhere rows fun row =>
        channels.contains row.id.channel && row.id.user == some user) key =
      if ∃ channel ∈ channels, key = unreadKey channel user then none else shown rows key := by
  have hkey : (∃ channel ∈ channels, key = unreadKey channel user) ↔
      (channels.contains key.channel && key.user == some user) = true := by
    obtain ⟨channel, user'⟩ := key
    simp [unreadKey]
  unfold shown
  rw [findOne_deleteWhere]
  cases hrow : rows.findOne key with
  | none => simp
  | some row =>
    have hid : row.id = key := key_of_findOne hrow
    by_cases hdel : ∃ channel ∈ channels, key = unreadKey channel user
    · rw [if_pos hdel]
      simp only [Option.filter, hid, hkey.mp hdel]
      rfl
    · rw [if_neg hdel]
      have hkp : (channels.contains key.channel && key.user == some user) = false := by
        rw [eq_false_iff]
        exact fun h => hdel (hkey.mpr h)
      simp only [Option.filter, hid, hkp]
      rfl

theorem shown_acknowledgeChannels (rows : UnreadRows) (currentTime user : String)
    (channels : List String) (key : UnreadKey) :
    shown ((UnreadWrite.acknowledgeChannels currentTime user channels).mongoRows rows) key =
      if ∃ channel ∈ distinctPrefix [] channels, key = unreadKey channel user then
        some (some currentTime, [])
      else if ∃ channel ∈ channels, key = unreadKey channel user then none else shown rows key := by
  unfold UnreadWrite.mongoRows
  dsimp only
  split
  · rename_i hnil
    subst hnil
    simp [distinctPrefix]
  · rw [shown_insertMany currentTime user key channels [], shown_deleteUnreads]
    intro channel hmem
    have hdel := shown_deleteUnreads rows user channels (unreadKey channel user)
    rw [if_pos ⟨channel, hmem, rfl⟩] at hdel
    simpa [shown] using hdel

theorem matchesUsers_iff (channel : String) (users : List String) (row : ChannelUnread) :
    matchesUsers channel users row = true ↔ ∃ user ∈ users, row.id = unreadKey channel user := by
  obtain ⟨⟨channel', user'⟩, lastId, mentions⟩ := row
  cases user' with
  | none => simp [matchesUsers, unreadKey]
  | some user => simp [matchesUsers, unreadKey, and_comm]

theorem matches_iff (rows : UnreadRows) (channel : String) (users : List String) :
    rows.rows.values.any (matchesUsers channel users) = true ↔
      ∃ user ∈ users, shown rows (unreadKey channel user) ≠ none := by
  rw [any_eq_true]
  constructor
  · rintro ⟨row, hmem, hmat⟩
    obtain ⟨key, hrow⟩ := mem_values.mp hmem
    obtain ⟨user, huse, hid⟩ := (matchesUsers_iff channel users row).mp hmat
    obtain rfl : key = unreadKey channel user := (rows.keyed key row hrow).symm.trans hid
    refine ⟨user, huse, ?_⟩
    rw [shown, show rows.findOne (unreadKey channel user) = some row from hrow]
    simp
  · rintro ⟨user, huse, hshow⟩
    obtain ⟨row, hrow⟩ : ∃ row, rows.findOne (unreadKey channel user) = some row := by
      rw [← ne_none_iff_exists']
      exact fun hno => hshow (by rw [shown, hno]; rfl)
    exact ⟨row, mem_values_of_get hrow,
      (matchesUsers_iff channel users row).mpr ⟨user, huse, key_of_findOne hrow⟩⟩

theorem shown_updateMany {users : List String}
    (hmat : ∃ user ∈ users, shown rows (unreadKey channel user) ≠ none) (messages : List String)
    (key : UnreadKey) :
    shown ((UnreadWrite.addMentionToManyUnreads channel users messages).mongoRows rows) key =
      if ∃ user ∈ users, key = unreadKey channel user then
        (shown rows key).map fun seen => (seen.1, seen.2 ++ messages)
      else shown rows key := by
  unfold UnreadWrite.mongoRows updateManyMentions
  dsimp only
  rw [if_pos ((matches_iff rows channel users).mpr hmat)]
  unfold shown
  rw [getD_some, Collection.findOne_updateMany]
  cases hrow : rows.findOne key with
  | none => simp
  | some row =>
    have hid : row.id = key := key_of_findOne hrow
    rw [← hid, map_some, map_some, map_some]
    by_cases hnam : ∃ user ∈ users, row.id = unreadKey channel user
    · rw [if_pos hnam, if_pos ((matchesUsers_iff channel users row).mpr hnam)]
      rfl
    · rw [if_neg hnam, if_neg fun h => hnam ((matchesUsers_iff channel users row).mp h)]

theorem shown_upsertMany {users : List String}
    (hmat : ¬∃ user ∈ users, shown rows (unreadKey channel user) ≠ none)
    (hfr : shown rows (upsertKey channel users) = none) (messages : List String) (key : UnreadKey) :
    shown ((UnreadWrite.addMentionToManyUnreads channel users messages).mongoRows rows) key =
      if key = upsertKey channel users then some (none, messages) else shown rows key := by
  unfold UnreadWrite.mongoRows updateManyMentions
  dsimp only
  rw [if_neg fun h => hmat ((matches_iff rows channel users).mp h)]
  cases hins : rows.insertOne
      ((ChannelUnread.ofKey (upsertKey channel users)).pushMentions messages) with
  | none =>
    obtain ⟨row, hrow⟩ := Collection.insertOne_eq_none.mp hins
    have htak : shown rows (upsertKey channel users) ≠ none := by
      rw [shown, show rows.findOne (upsertKey channel users) = some row from hrow]
      simp
    exact absurd hfr htak
  | some rows' =>
    rw [getD_some, shown, (Collection.insertOne_eq_some hins).2]
    show Option.map _ (if key = upsertKey channel users then _ else _) = _
    split <;> rfl

theorem upsertKey_cases (channel : String) (users : List String) :
    (∃ user, (∀ other ∈ users, other = user) ∧ users ≠ [] ∧
      upsertKey channel users = unreadKey channel user) ∨
    ((users = [] ∨ ¬∃ user, ∀ other ∈ users, other = user) ∧
      upsertKey channel users = ⟨channel, none⟩) := by
  by_cases hnil : users = []
  · subst hnil
    exact .inr ⟨.inl rfl, rfl⟩
  by_cases hone : ∃ user, ∀ other ∈ users, other = user
  · obtain ⟨user, huse⟩ := hone
    refine .inl ⟨user, huse, hnil, ?_⟩
    have hrep : users = List.replicate users.length user := List.eq_replicate_iff.mpr ⟨rfl, huse⟩
    have hded : users.dedup = [user] := by
      rw [hrep]
      exact List.replicate_dedup (by simpa using hnil)
    unfold upsertKey
    rw [hded]
    rfl
  · refine .inr ⟨.inr hone, ?_⟩
    unfold upsertKey
    split
    · rename_i user hded
      refine absurd ⟨user, fun other hoth => ?_⟩ hone
      have hmem : other ∈ users.dedup := mem_dedup.mpr hoth
      rw [hded] at hmem
      exact mem_singleton.mp hmem
    · rfl

/-! ## When the drivers agree -/

section AgreeAfter

variable {rows : UnreadRows} {db : ReferenceDb} (hagree : Agree rows db.channelUnreads)
include hagree

theorem agree_iff_of_writes {written written' : UnreadRows} {named : UnreadKey → Prop}
    [DecidablePred named] {f g : UnreadKey → Shown}
    (hmon : ∀ key, shown written key = if named key then f key else shown rows key)
    (href : ∀ key, shown written' key = if named key then g key else shown db.channelUnreads key) :
    Agree written written' ↔ ∀ key, named key → f key = g key := by
  refine forall_congr' fun key => ?_
  rw [hmon, href]
  split
  · rename_i hnam
    exact ⟨fun h _ => h, fun h => h hnam⟩
  · rename_i hnam
    exact iff_of_true (hagree key) fun h => absurd h hnam

theorem agree_acknowledgeMessage_iff
    (hexists : db.channels.findOne channel ≠ none) (user message : String) :
    Agree ((UnreadWrite.acknowledgeMessage channel user message).mongoRows rows)
        (db.acknowledgeMessage channel user message).1.channelUnreads ↔
      ∀ mention ∈ (shown rows (unreadKey channel user)).mentions, mention ≤ message := by
  refine (agree_iff_of_writes hagree (fun key => shown_acknowledge rows channel user key message)
    fun key => shown_reference_acknowledge hexists user message key).trans ?_
  rw [forall_eq, some.injEq, Prod.mk.injEq, eq_self, true_and, List.filter_eq_nil_iff]
  simp only [not_eq_true', decide_eq_false_iff_not, not_not]

theorem agree_acknowledgeChannels_iff
    (hexists : ∀ channel ∈ channels, db.channels.findOne channel ≠ none)
    (currentTime user : String) :
    Agree ((UnreadWrite.acknowledgeChannels currentTime user channels).mongoRows rows)
        (db.acknowledgeChannels currentTime user channels).channelUnreads ↔
      ∀ channel ∈ channels, channel ∈ distinctPrefix [] channels := by
  have hky : ∀ {channel : String} {ids : List String},
      (∃ other ∈ ids, unreadKey channel user = unreadKey other user) ↔ channel ∈ ids := by
    simp [unreadKey]
  have hmon : ∀ key, shown ((UnreadWrite.acknowledgeChannels currentTime user
      channels).mongoRows rows) key = if ∃ channel ∈ channels, key = unreadKey channel user then
        if ∃ channel ∈ distinctPrefix [] channels, key = unreadKey channel user then
          some (some currentTime, [])
        else none
      else shown rows key := by
    intro key
    rw [shown_acknowledgeChannels]
    by_cases hnam : ∃ channel ∈ channels, key = unreadKey channel user
    · rw [if_pos hnam, if_pos hnam]
    · have hpref : ¬∃ channel ∈ distinctPrefix [] channels, key = unreadKey channel user :=
        fun ⟨channel, hmem, hkey⟩ => hnam ⟨channel, mem_of_mem_distinctPrefix hmem, hkey⟩
      rw [if_neg hpref, if_neg hnam, if_neg hnam]
  refine (agree_iff_of_writes hagree hmon fun key =>
    shown_acknowledgeAll currentTime user key channels db hexists).trans ?_
  constructor
  · intro h channel hmem
    by_contra hlat
    have hkey := h (unreadKey channel user) ⟨channel, hmem, rfl⟩
    rw [if_neg fun hp => hlat (hky.mp hp)] at hkey
    cases hkey
  · rintro h key ⟨channel, hmem, rfl⟩
    exact if_pos (hky.mpr (h channel hmem))

theorem agree_addMentionToUnread_iff
    (hexists : db.channels.findOne channel ≠ none) (user : String) (messages : List String) :
    Agree ((UnreadWrite.addMentionToUnread channel user messages).mongoRows rows)
        (db.addMentionToUnread channel user messages).channelUnreads ↔
      (shown rows (unreadKey channel user)).mentions = [] := by
  obtain ⟨document, hdoc⟩ := ne_none_iff_exists'.mp hexists
  unfold ReferenceDb.addMentionToUnread
  rw [hdoc]
  refine (agree_iff_of_writes hagree (fun key => shown_pushMentions rows channel user key messages)
    fun key => shown_replaceMentions db.channelUnreads channel user key messages).trans ?_
  rw [forall_eq, hagree, some.injEq, Prod.mk.injEq, eq_self, true_and,
    List.append_left_eq_self]

section Many

variable {channel : String} (hexists : db.channels.findOne channel ≠ none)
  (users messages : List String)
include hexists

theorem shown_reference_many (key : UnreadKey) :
    shown (db.addMentionToManyUnreads channel users messages).channelUnreads key =
      if ∃ user ∈ users, key = unreadKey channel user then
        some ((shown rows key).lastId, messages)
      else shown rows key := by
  obtain ⟨document, hdoc⟩ := ne_none_iff_exists'.mp hexists
  unfold ReferenceDb.addMentionToManyUnreads
  rw [hdoc, hagree key]
  exact shown_replaceAll channel messages users key db.channelUnreads

theorem agree_many_of_match (hmat : ∃ user ∈ users, shown rows (unreadKey channel user) ≠ none) :
    Agree ((UnreadWrite.addMentionToManyUnreads channel users messages).mongoRows rows)
        (db.addMentionToManyUnreads channel users messages).channelUnreads ↔
      ∀ user ∈ users, ∃ last, shown rows (unreadKey channel user) = some (last, []) := by
  refine (agree_iff_of_writes hagree (shown_updateMany hmat messages)
    fun key => (shown_reference_many hagree hexists users messages key).trans
      (by rw [hagree key])).trans ?_
  constructor
  · intro h user huse
    have hkey := h (unreadKey channel user) ⟨user, huse, rfl⟩
    cases hshow : shown rows (unreadKey channel user) with
    | none =>
      rw [hshow] at hkey
      cases hkey
    | some seen =>
      rw [hshow] at hkey
      have hmen := congrArg Shown.mentions hkey
      exact ⟨seen.1, congrArg some (Prod.ext rfl (List.append_left_eq_self.mp hmen))⟩
  · rintro h key ⟨user, huse, rfl⟩
    obtain ⟨last, hshow⟩ := h user huse
    rw [← hagree, hshow]
    rfl

section

variable (husers : ∀ channel, shown db.channelUnreads ⟨channel, none⟩ = none)
include husers

theorem agree_many_of_not_match
    (hmat : ¬∃ user ∈ users, shown rows (unreadKey channel user) ≠ none) :
    Agree ((UnreadWrite.addMentionToManyUnreads channel users messages).mongoRows rows)
        (db.addMentionToManyUnreads channel users messages).channelUnreads ↔
      users ≠ [] ∧ ∃ user, ∀ other ∈ users, other = user := by
  have hno : ∀ {user}, user ∈ users → shown rows (unreadKey channel user) = none := by
    intro user huse
    by_contra hsm
    exact hmat ⟨user, huse, hsm⟩
  have href := shown_reference_many hagree hexists users messages
  rcases upsertKey_cases channel users with ⟨user, huse, hne, hkey⟩ | ⟨hmn, hkey⟩
  · -- the one user
    refine iff_of_true (fun key => ?_) ⟨hne, user, huse⟩
    obtain ⟨other, hoth⟩ := List.exists_mem_of_ne_nil users hne
    obtain rfl : other = user := huse other hoth
    have hfr : shown rows (upsertKey channel users) = none := by
      rw [hkey]
      exact hno hoth
    rw [shown_upsertMany hmat hfr, hkey, href]
    by_cases hsl : key = unreadKey channel other
    · subst hsl
      rw [if_pos rfl, if_pos ⟨other, hoth, rfl⟩, hno hoth]
      rfl
    · have hnam : ¬∃ user ∈ users, key = unreadKey channel user := by
        rintro ⟨user, hmem, rfl⟩
        exact hsl (by rw [huse user hmem])
      rw [if_neg hsl, if_neg hnam]
  · -- a row without a user, which only Mongo has
    refine iff_of_false (fun h => ?_) fun ⟨hne, hone⟩ => hmn.elim hne fun hnot => hnot hone
    have hfr : shown rows (upsertKey channel users) = none := by rw [hkey, hagree, husers]
    have hnam : ¬∃ user ∈ users, (⟨channel, none⟩ : UnreadKey) = unreadKey channel user := by
      simp [unreadKey]
    have hat := h ⟨channel, none⟩
    rw [shown_upsertMany hmat hfr, if_pos hkey.symm, href, if_neg hnam, hagree, husers] at hat
    cases hat

theorem agree_addMentionToManyUnreads_iff :
    Agree ((UnreadWrite.addMentionToManyUnreads channel users messages).mongoRows rows)
        (db.addMentionToManyUnreads channel users messages).channelUnreads ↔
      (UnreadWrite.addMentionToManyUnreads channel users messages).Meets rows := by
  by_cases hmat : ∃ user ∈ users, shown rows (unreadKey channel user) ≠ none
  · rw [agree_many_of_match hagree hexists users messages hmat]
    obtain ⟨known, hkn, hrow⟩ := hmat
    constructor
    · intro h
      refine ⟨ne_nil_of_mem hkn, fun user huse => ?_, .inl fun user huse => ?_⟩
      · obtain ⟨last, hshow⟩ := h user huse
        rw [hshow]
        rfl
      · obtain ⟨last, hshow⟩ := h user huse
        rw [hshow]
        simp
    · rintro ⟨-, hemp, hrw⟩ user huse
      have hsm : shown rows (unreadKey channel user) ≠ none := by
        rcases hrw with hall | ⟨one, hone⟩
        · exact hall user huse
        · rw [hone user huse, ← hone known hkn]
          exact hrow
      obtain ⟨seen, hshow⟩ := ne_none_iff_exists'.mp hsm
      have hmen := hemp user huse
      rw [hshow] at hmen
      exact ⟨seen.1, hshow.trans (congrArg some (Prod.ext rfl hmen))⟩
  · rw [agree_many_of_not_match hagree hexists users messages husers hmat]
    constructor
    · rintro ⟨hne, hone⟩
      refine ⟨hne, fun user huse => ?_, .inr hone⟩
      have hno : shown rows (unreadKey channel user) = none := by
        by_contra hsm
        exact hmat ⟨user, huse, hsm⟩
      rw [hno]
      rfl
    · rintro ⟨hne, -, hall | hone⟩
      · obtain ⟨user, huse⟩ := List.exists_mem_of_ne_nil users hne
        exact absurd ⟨user, huse, hall user huse⟩ hmat
      · exact ⟨hne, hone⟩

end

end Many

/-- **One write.** The drivers agree after it exactly if it meets its condition. -/
theorem agree_after_iff {w : UnreadWrite}
    (hexists : ∀ channel ∈ w.channels, db.channels.findOne channel ≠ none)
    (husers : ∀ channel, shown db.channelUnreads ⟨channel, none⟩ = none) :
    Agree (w.mongoRows rows) (w.reference db).channelUnreads ↔ w.Meets rows := by
  cases w with
  | acknowledgeMessage channel user message =>
    exact agree_acknowledgeMessage_iff hagree (hexists channel mem_cons_self) user message
  | acknowledgeChannels currentTime user channels =>
    exact agree_acknowledgeChannels_iff hagree hexists currentTime user
  | addMentionToUnread channel user messages =>
    exact agree_addMentionToUnread_iff hagree (hexists channel mem_cons_self) user messages
  | addMentionToManyUnreads channel users messages =>
    exact agree_addMentionToManyUnreads_iff hagree (hexists channel mem_cons_self) users
      messages husers

end AgreeAfter

theorem UnreadWrite.Does.congr {before after before' after' : UnreadRows}
    (hbef : Agree before before') (haft : Agree after after') (h : w.Does before after) :
    w.Does before' after' := by
  cases w with
  | acknowledgeMessage channel user message =>
    show (shown after' _).mentions = (shown before' _).mentions.filter _
    rw [← haft, ← hbef]
    exact h
  | addMentionToManyUnreads channel users messages =>
    intro user huse
    rw [← haft]
    exact h user huse
  | _ => trivial

/-- A write after which the drivers agree does with both of them what it is for: the Mongo driver
pulls exactly the mentions up to a message, and the Reference driver serves every user. -/
theorem does_of_agree (hagree : Agree rows db.channelUnreads)
    (haft : Agree (w.mongoRows rows) (w.reference db).channelUnreads)
    (hexists : ∀ channel ∈ w.channels, db.channels.findOne channel ≠ none) :
    w.Does rows (w.mongoRows rows) ∧ w.Does db.channelUnreads (w.reference db).channelUnreads := by
  cases w with
  | acknowledgeMessage channel user message =>
    have hmon : (UnreadWrite.acknowledgeMessage channel user message).Does rows
        ((UnreadWrite.acknowledgeMessage channel user message).mongoRows rows) := by
      have hshow := shown_acknowledge rows channel user (unreadKey channel user) message
      rw [if_pos rfl] at hshow
      exact congrArg Shown.mentions hshow
    exact ⟨hmon, hmon.congr hagree haft⟩
  | addMentionToManyUnreads channel users messages =>
    have href : (UnreadWrite.addMentionToManyUnreads channel users messages).Does
        db.channelUnreads (db.addMentionToManyUnreads channel users messages).channelUnreads := by
      intro user huse
      rw [shown_reference_many hagree (hexists channel mem_cons_self) users messages,
        if_pos ⟨user, huse, rfl⟩]
      exact ⟨by simp, fun message hmem => hmem⟩
    exact ⟨href.congr (fun key => (hagree key).symm) fun key => (haft key).symm, href⟩
  | _ => exact ⟨trivial, trivial⟩

theorem channels_reference (db : ReferenceDb) (w : UnreadWrite) :
    (w.reference db).channels = db.channels := by
  cases w with
  | acknowledgeMessage channel user message =>
    exact channels_acknowledgeMessage db channel user message
  | acknowledgeChannels currentTime user channels =>
    induction channels generalizing db with
    | nil => rfl
    | cons channel channels ih =>
      exact (ih _).trans (channels_acknowledgeMessage db channel user currentTime)
  | addMentionToUnread channel user messages =>
    show (db.addMentionToUnread channel user messages).channels = _
    unfold ReferenceDb.addMentionToUnread
    split <;> rfl
  | addMentionToManyUnreads channel users messages =>
    show (db.addMentionToManyUnreads channel users messages).channels = _
    unfold ReferenceDb.addMentionToManyUnreads
    split <;> rfl

theorem users_reference (hexists : ∀ channel ∈ w.channels, db.channels.findOne channel ≠ none)
    (husers : ∀ channel, shown db.channelUnreads ⟨channel, none⟩ = none) (channel : String) :
    shown (w.reference db).channelUnreads ⟨channel, none⟩ = none := by
  have hne : ∀ channel' user, (⟨channel, none⟩ : UnreadKey) ≠ unreadKey channel' user := by
    simp [unreadKey]
  have hnam : ∀ {ids : List String} (f : String → UnreadKey), (∀ id, ⟨channel, none⟩ ≠ f id) →
      ¬∃ id ∈ ids, ⟨channel, none⟩ = f id := fun f hf ⟨id, _, h⟩ => hf id h
  cases w with
  | acknowledgeMessage channel' user message =>
    refine (shown_reference_acknowledge (hexists channel' mem_cons_self) user message _).trans ?_
    rw [if_neg (hne channel' user)]
    exact husers channel
  | acknowledgeChannels currentTime user channels =>
    refine (shown_acknowledgeAll currentTime user _ channels db hexists).trans ?_
    rw [if_neg (hnam (fun id => unreadKey id user) fun id => hne id user)]
    exact husers channel
  | addMentionToUnread channel' user messages =>
    obtain ⟨document, hdoc⟩ := ne_none_iff_exists'.mp (hexists channel' mem_cons_self)
    show shown (db.addMentionToUnread channel' user messages).channelUnreads _ = none
    unfold ReferenceDb.addMentionToUnread
    rw [hdoc]
    refine (shown_replaceMentions db.channelUnreads channel' user _ messages).trans ?_
    rw [if_neg (hne channel' user)]
    exact husers channel
  | addMentionToManyUnreads channel' users messages =>
    refine (shown_reference_many (fun _ => rfl) (hexists channel' mem_cons_self) users messages
      _).trans ?_
    rw [if_neg (hnam (unreadKey channel') (hne channel'))]
    exact husers channel

/-! ## Sequences -/

theorem AgreeThroughout.agree {s : Store} {ws : List UnreadWrite} (h : AgreeThroughout s db ws) :
    Agree s.unreads db.channelUnreads := by
  cases ws with
  | nil => exact h
  | cons w ws => exact h.1

/-- **When the drivers agree.** From equal rows, every one of them with a user, and over every
sequence of writes on channels that exist: the rows of the two drivers agree before and after
every write, each acknowledgement removes exactly the mentions up to its message and mentions
for several users reach every one of them, if and only if each write meets its condition on the
rows it finds. -/
theorem drivers_agree_iff {ws : List UnreadWrite} {s : Store} {db : ReferenceDb}
    (hfaults : ∀ tick, s.faults tick = none)
    (hexists : ∀ w ∈ ws, ∀ channel ∈ w.channels, s.channels.findOne channel ≠ none)
    (hchannels : db.channels = s.channels)
    (husers : ∀ channel, shown db.channelUnreads ⟨channel, none⟩ = none)
    (hagree : Agree s.unreads db.channelUnreads) : AgreeThroughout s db ws ↔ EachMeets s ws := by
  induction ws generalizing s db with
  | nil => exact iff_of_true hagree trivial
  | cons w ws ih =>
    have hexists' : ∀ channel ∈ w.channels, db.channels.findOne channel ≠ none := by
      rw [hchannels]
      exact hexists w mem_cons_self
    have hstep := agree_after_iff hagree hexists' husers
    obtain ⟨tick, hmongo⟩ := mongo_eq hfaults (hexists w mem_cons_self)
    have hrest : Agree (w.mongoRows s.unreads) (w.reference db).channelUnreads →
        (AgreeThroughout (w.mongo s) (w.reference db) ws ↔ EachMeets (w.mongo s) ws) := by
      intro hafter
      refine ih ?_ ?_ ?_ (users_reference hexists' husers) ?_
      · rw [hmongo]
        exact hfaults
      · rw [hmongo]
        exact fun w' hw' => hexists w' (mem_cons_of_mem _ hw')
      · rw [channels_reference, hmongo]
        exact hchannels
      · rw [hmongo]
        exact hafter
    have hunreads : (w.mongo s).unreads = w.mongoRows s.unreads := by rw [hmongo]
    constructor
    · rintro ⟨-, -, -, hthroughout⟩
      have hafter : Agree (w.mongoRows s.unreads) (w.reference db).channelUnreads :=
        hunreads ▸ hthroughout.agree
      exact ⟨hstep.mp hafter, (hrest hafter).mp hthroughout⟩
    · rintro ⟨hmeets, heach⟩
      have hafter := hstep.mpr hmeets
      obtain ⟨hdoesMongo, hdoesReference⟩ := does_of_agree hagree hafter hexists'
      exact ⟨hagree, hunreads.symm ▸ hdoesMongo, hdoesReference, (hrest hafter).mpr heach⟩

namespace OneChannel

/-- A channel without rows. -/
def store : Store where
  pending := ∅
  events := []
  channels := Collection.put .empty ⟨"c", .topLevel, some "1"⟩
  unreads := .empty
  faults _ := none
  others _ := []
  tick := 0

def reference : ReferenceDb := ⟨store.channels, .empty⟩

/-- Two mentions, the ack that clears them, and a mention for two users who have rows. -/
def writes : List UnreadWrite :=
  [.addMentionToUnread "c" "a" ["1", "2"], .acknowledgeMessage "c" "a" "2",
    .acknowledgeChannels "3" "b" ["c"], .addMentionToManyUnreads "c" ["a", "b"] ["4"]]

end OneChannel

open OneChannel in
theorem drivers_agree_iff_cleared : AgreeThroughout store reference writes := by
  refine (drivers_agree_iff (fun _ => rfl) ?_ rfl (fun _ => rfl) fun _ => rfl).mpr
    ⟨?_, ?_, ?_, ?_, trivial⟩
  · decide
  · show Shown.mentions _ = []
    decide
  · show ∀ mention ∈ Shown.mentions _, mention ≤ "2"
    decide
  · show ∀ channel ∈ ["c"], channel ∈ distinctPrefix [] ["c"]
    decide
  · refine ⟨by decide, ?_, .inl ?_⟩
    · decide
    · decide

open OneChannel in
/-- Mentions for two users without rows: the Mongo driver makes one row that has no user, and
the rows that the Reference driver makes for the two are missing. -/
theorem drivers_disagree_many : let w := UnreadWrite.addMentionToManyUnreads "c" ["a", "b"] ["1"]
    ¬Agree (w.mongo store).unreads (w.reference reference).channelUnreads ∧
      shown (w.mongo store).unreads (unreadKey "c" "a") = none ∧
      shown (w.mongo store).unreads (unreadKey "c" "b") = none := by
  refine ⟨fun h => ?_, by decide, by decide⟩
  exact absurd (h (unreadKey "c" "a")) (by decide)

end SlogaBackend.Unreads
