import SlogaBackend.Lib.Repair
import SlogaBackend.Unreads.Mongo

/-!
# Deleted channels have no unread rows

Any number of writers work on the rows of a channel while it is deleted. What is to be kept
is that the channel exists or has no rows, and no single step keeps it: a write after the
second purge breaks it, and so does the deletion of the channel. But each leaves a process
behind that still has to purge, and the rule for such processes (`System.tended_of_run`) does
the rest.
-/

namespace SlogaBackend.Unreads

/-- No row is stored for the channel. -/
def Store.NoUnreads (s : Store) (channel : String) : Prop :=
  ∀ key row, s.unreads.findOne key = some row → key.channel ≠ channel

def Store.Exists (s : Store) (channel : String) : Prop := s.channels.findOne channel ≠ none

/-- The channel is there or gone as it was, and has no new rows. -/
structure NoNewUnreads (channel : String) (s t : Store) : Prop where
  faults : t.faults = s.faults
  existence : t.Exists channel ↔ s.Exists channel
  unreads : ∀ key, key.channel = channel → s.unreads.findOne key = none →
    t.unreads.findOne key = none

/-- Where no call fails, the channel exists or has no rows. -/
def unreadRepair (channel : String) : Repair Store where
  Good s := (∀ tick, s.faults tick = none) → s.Exists channel ∨ s.NoUnreads channel
  Quiet := NoNewUnreads channel
  refl _ := ⟨rfl, Iff.rfl, fun _ _ h => h⟩
  trans h h' := ⟨h'.faults.trans h.faults, h'.existence.trans h.existence,
    fun key hkey hnone => h'.unreads key hkey (h.unreads key hkey hnone)⟩
  good {s t} h hgood hfaults := by
    rw [h.faults] at hfaults
    rcases hgood hfaults with hexists | hnone
    · exact .inl (h.existence.mpr hexists)
    · refine .inr fun key row hfound hkey => ?_
      have hbefore : s.unreads.findOne key = none := by
        by_contra hsome
        obtain ⟨row', hrow'⟩ := ne_none_iff_exists'.mp hsome
        exact hnone key row' hrow' hkey
      exact absurd hfound (by rw [h.unreads key hkey hbefore]; simp)

/-! ## Quiet calls -/

variable {key : UnreadKey} {channel : String}

theorem deleteWhere_none {rows : UnreadRows} (p : ChannelUnread → Bool)
    (h : rows.findOne key = none) : (deleteWhere rows p).findOne key = none := by
  rw [findOne_deleteWhere, h]
  rfl

theorem insertMany_none (new : List ChannelUnread) (hnew : ∀ row ∈ new, row.id ≠ key) :
    ∀ {rows : UnreadRows}, rows.findOne key = none → (insertMany rows new).1.findOne key = none := by
  induction new with
  | nil => exact fun h => h
  | cons row new ih =>
    intro rows h
    unfold insertMany
    cases hins : rows.insertOne row with
    | none => exact h
    | some rows' =>
      refine ih (fun r hr => hnew r (mem_cons_of_mem _ hr)) ?_
      rw [(Collection.insertOne_eq_some hins).2, if_neg (hnew row mem_cons_self).symm]
      exact h

/-- The calls that may give a channel a row, or take it away. -/
def touches (channel : String) : Call → Prop
  | .findOneAndUpdate channel' _ _ => channel' = channel
  | .updateOne channel' _ _ => channel' = channel
  | .updateMany channel' _ _ => channel' = channel
  | .insertMany rows => ∃ row ∈ rows, row.id.channel = channel
  | .deleteOneChannel channel' => channel' = channel
  | _ => False

variable {c : Call}

theorem findOne_reach_channels (h : c ≠ .deleteOneChannel channel) (s : Store) :
    (reach c s).1.channels.findOne channel = s.channels.findOne channel := by
  cases c with
  | deleteOneChannel id =>
    have hne : channel ≠ id := fun heq => h (heq ▸ rfl)
    exact (Collection.findOne_deleteOne _ _ _).trans (if_neg hne)
  | setNx user channel message | settle payload requeue | updateMany channel users messages =>
    simp only [reach]
    split <;> rfl
  | _ => rfl

theorem exists_reach (h : c ≠ .deleteOneChannel channel) (s : Store) :
    (reach c s).1.Exists channel ↔ s.Exists channel := by
  unfold Store.Exists
  rw [findOne_reach_channels h s]

theorem updateManyMentions_none {rows rows' : UnreadRows} {users messages : List String}
    (h : updateManyMentions rows channel users messages = some rows') (hne : key.channel ≠ channel)
    (hno : rows.findOne key = none) : rows'.findOne key = none := by
  unfold updateManyMentions at h
  split at h
  · rw [← some.inj h, Collection.findOne_updateMany, hno]
    rfl
  · have hkey : ((ChannelUnread.ofKey (upsertKey channel users)).pushMentions messages).id.channel =
        channel := by
      unfold upsertKey
      split <;> rfl
    rw [(Collection.insertOne_eq_some h).2, if_neg (fun heq : key = _ => hne (by rw [heq, hkey])), hno]

theorem findOne_reach_unreads (h : ¬touches channel c) (s : Store) (hkey : key.channel = channel)
    (hno : s.unreads.findOne key = none) : (reach c s).1.unreads.findOne key = none := by
  have hne : ∀ {channel' user : String}, channel' ≠ channel → key ≠ unreadKey channel' user :=
    fun hch heq => hch (by rw [← hkey, heq]; rfl)
  cases c with
  | findOneAndUpdate channel' user message =>
    exact (findOne_upsert_of_ne s.unreads (ChannelUnread.acknowledge_id message) (hne h)).trans hno
  | updateOne channel' user messages =>
    exact (findOne_upsert_of_ne s.unreads (ChannelUnread.pushMentions_id messages) (hne h)).trans
      hno
  | updateMany channel' users messages =>
    simp only [reach]
    split
    · rename_i hrw
      exact updateManyMentions_none hrw (fun heq => h (heq.symm.trans hkey)) hno
    · exact hno
  | insertMany rows =>
    exact insertMany_none rows (fun row hrow heq => h ⟨row, hrow, by rw [heq, hkey]⟩) hno
  | deleteUnreads channels user | purgeUnreads channels => exact deleteWhere_none _ hno
  | setNx user channel message | settle payload requeue =>
    simp only [reach]
    split <;> exact hno
  | _ => exact hno

theorem quiet_perform (h : ¬touches channel c) (pid : Nat) (s : Store) :
    (unreadRepair channel).Quiet s (perform pid c s).1 := by
  refine perform_fst pid c s ⟨rfl, Iff.rfl, fun _ _ hno => hno⟩ ⟨reach_faults c s, ?_, ?_⟩
  · have hne : c ≠ .deleteOneChannel channel := by
      rintro rfl
      exact h rfl
    exact exists_reach hne s
  · exact fun key hkey hno => findOne_reach_unreads h s hkey hno

/-! ## Checks that repair -/

section Checks

variable {α : Type} {channel : String} {channels : List String} (pid : Nat)

theorem good_purge (hmem : channel ∈ channels) (s : Store) :
    (unreadRepair channel).Good (perform pid (.purgeUnreads channels) s).1 := by
  intro hfaul
  have hqui : ¬touches channel (.purgeUnreads channels) := fun h => h
  rw [(quiet_perform hqui pid s).faults] at hfaul
  rcases perform_cases pid (.purgeUnreads channels) s with ⟨-, heq⟩ | ⟨hfau, -⟩
  · rw [heq]
    refine .inr fun key row hfnd hkey => ?_
    have hkp : (deleteWhere s.unreads fun row => channels.contains row.id.channel).findOne key =
      some row := hfnd
    rw [findOne_deleteWhere, filter_eq_some_iff] at hkp
    have hid : row.id = key := key_of_findOne hkp.1
    rw [hid, hkey, contains_iff_mem.mpr hmem] at hkp
    cases hkp.2
  · exact absurd (hfaul s.tick) hfau

theorem exists_of_found {found : List ChannelDocument} {s : Store}
    (h : (perform pid (.findChannels "find" channels) s).2 = .ok found) (hmem : channel ∈ channels) :
    (perform pid (.findChannels "find" channels) s).1.Exists channel ↔
      (found.map ChannelDocument.id).contains channel = true := by
  obtain ⟨-, hrch, hst⟩ := perform_ok h
  have hfnd : channels.dedup.filterMap s.channels.findOne = found := ok.inj hrch
  rw [hst, ← hfnd, contains_iff_mem, mem_map]
  show s.channels.findOne channel ≠ none ↔ _
  rw [ne_none_iff_exists']
  constructor
  · rintro ⟨document, hdoc⟩
    exact ⟨document, mem_filterMap.mpr ⟨channel, mem_dedup.mpr hmem, hdoc⟩,
      key_of_findOne hdoc⟩
  · rintro ⟨document, hdoc, rfl⟩
    obtain ⟨id, -, hg⟩ := mem_filterMap.mp hdoc
    rw [show document.id = id from key_of_findOne hg]
    exact ⟨document, hg⟩

/-- **A check after the write.** It finds the channel, or has to purge. -/
theorem mends_check {k : List ChannelDocument → Program α} (hmem : channel ∈ channels)
    (hfnd : ∀ found s, (found.map ChannelDocument.id).contains channel = true →
      s.Exists channel → (k found).Mends (unreadRepair channel) perform pid s)
    (hgn : ∀ found s, (found.map ChannelDocument.id).contains channel = false →
      (k found).Mends (unreadRepair channel) perform pid s) (s : Store) :
    ((ask (.findChannels "find" channels)).bind k).Mends (unreadRepair channel) perform pid s := by
  intro s' _
  cases hans : (perform pid (.findChannels "find" channels) s').2 with
  | error e => exact trivial
  | ok found =>
    cases hcon : (found.map ChannelDocument.id).contains channel with
    | true => exact hfnd found _ hcon ((exists_of_found pid hans hmem).mpr hcon)
    | false => exact hgn found _ hcon

theorem mends_purge (hmem : channel ∈ channels) (s : Store) :
    (ask (.purgeUnreads channels)).Mends (unreadRepair channel) perform pid s := by
  intro s' _
  cases (perform pid (.purgeUnreads channels) s').2 with
  | error e => exact trivial
  | ok _ => exact good_purge pid hmem s'

variable (channel) in
theorem mends_discard (s : Store) :
    (discardUnreadsIfChannelGone channel).Mends (unreadRepair channel) perform pid s := by
  intro s' _
  show ((Prog.done (perform pid (.findChannel channel) s').2).bind _).Mends _ _ _
    (perform pid (.findChannel channel) s').1
  cases hans : (perform pid (.findChannel channel) s').2 with
  | error e => exact trivial
  | ok found =>
    obtain ⟨-, hrch, hst⟩ := perform_ok hans
    have hfnd : s'.channels.findOne channel = found := ok.inj hrch
    cases found with
    | none => exact (mends_purge pid mem_cons_self _).bind_done fun _ => ⟨true, rfl⟩
    | some document =>
      intro _
      rw [hst]
      exact .inl fun hgn => nomatch hgn.symm.trans hfnd

def purgeMissing (channels : List String) (present : List ChannelDocument) : Program Unit :=
  if missingChannels channels present = [] then return ()
  else ask (.purgeUnreads (missingChannels channels present))

theorem mends_purgeMissing (hmem : channel ∈ channels) (s : Store) :
    ((ask (.findChannels "find" channels)).bind (purgeMissing channels)).Mends (unreadRepair channel)
      perform pid s := by
  refine mends_check pid hmem (fun found s _ hex => ?_) (fun found s hcon => ?_) s
  · unfold purgeMissing
    split
    · exact fun _ => .inl hex
    · -- what is purged now does not include the channel, which is there
      intro s' hqui
      have hther : (unreadRepair channel).Good s' := fun _ => .inl (hqui.existence.mpr hex)
      have hpur : ¬touches channel (.purgeUnreads (missingChannels channels found)) := fun h => h
      have hgd := (unreadRepair channel).good (quiet_perform hpur pid s') hther
      cases (perform pid (.purgeUnreads (missingChannels channels found)) s').2 with
      | error e => exact trivial
      | ok _ => exact hgd
  · have hmis : channel ∈ missingChannels channels found :=
      mem_filter.mpr ⟨hmem, by rw [hcon]; rfl⟩
    unfold purgeMissing
    rw [if_neg (ne_nil_of_mem hmis)]
    exact mends_purge pid hmis s

end Checks

/-! ## The requests -/

section Requests

variable {α β : Type} (channel : String) (pid : Nat)

/-- Every call of the program is quiet. -/
def Quietly (p : Program α) : Prop := p.Only fun c => ¬touches channel c

variable {channel} in
theorem honest_quietly {p : Program α} (h : Quietly channel p) :
    p.Honest (unreadRepair channel) perform pid := by
  induction p with
  | done result => exact trivial
  | call c rest ih => exact fun s => ⟨.inl (quiet_perform h.1 pid s), ih _ (h.2 _)⟩

theorem quietly_ask {c : Call} (h : ¬touches channel c) : Quietly channel (ask c) := only_ask h

theorem quietly_return (a : α) : Quietly channel (return a : Program α) := trivial

theorem quietly_purge (channels : List String) :
    Quietly channel (ask (.purgeUnreads channels)) := quietly_ask channel fun h => h

theorem quietly_find (channels : List String) :
    Quietly channel (ask (.findChannels "find" channels)) := quietly_ask channel fun h => h

theorem quietly_elsewhere (operation collection : String) :
    Quietly channel (ask (.elsewhere operation collection)) := quietly_ask channel fun h => h

variable {channel} in
theorem Quietly.bind {p : Program α} {k : α → Program β} (hp : Quietly channel p)
    (hk : ∀ a, Quietly channel (k a)) : Quietly channel (p.bind k) := Only.bind hk hp

theorem quietly_discard (channel' : String) :
    Quietly channel (discardUnreadsIfChannelGone channel') := by
  have hfn : Quietly channel (ask (.findChannel channel')) := quietly_ask channel fun h => h
  refine hfn.bind fun found => ?_
  split
  · exact quietly_return channel _
  · exact (quietly_purge channel _).bind fun _ => quietly_return channel _

theorem quietly_purgeMissing (channels : List String) (present : List ChannelDocument) :
    Quietly channel (purgeMissing channels present) := by
  unfold purgeMissing
  split
  · exact quietly_return channel ()
  · exact quietly_purge channel _

theorem quietly_deleteBelongings (channel' : String) (inServer : Bool) :
    Quietly channel (deleteBelongings channel' inServer) := by
  have hels : ∀ operation collection {k : List String → Program Unit},
      (∀ found, Quietly channel (k found)) →
      Quietly channel ((ask (.elsewhere operation collection)).bind k) :=
    fun operation collection _ hk => (quietly_elsewhere channel operation collection).bind hk
  have hret : ∀ _ : List String, Quietly channel (return () : Program Unit) :=
    fun _ => quietly_return channel ()
  have hass : Quietly channel (deleteAssociatedChannelObjects channel') :=
    hels _ _ fun _ => (quietly_purge channel _).bind fun _ => hels _ _ fun _ => hels _ _ hret
  have hmes : Quietly channel deleteBulkMessages := by
    refine hels _ _ fun found => ?_
    split
    · exact hels _ _ fun _ => hels _ _ hret
    · exact hels _ _ hret
  have hsrv : Quietly channel removeFromServer := by
    refine hels _ _ fun found => ?_
    split
    · exact hels _ _ hret
    · exact trivial
  refine hass.bind fun _ => hmes.bind fun _ => ?_
  cases inServer with
  | false => exact hels _ _ hret
  | true => exact hsrv.bind fun _ => hels _ _ hret

variable {channel} in
/-- **A write, then the check.** A write on the channel leaves the process with a program that
mends; on another channel it is quiet. -/
theorem honest_write {c : Call} {k : Value c → Program α}
    (hmen : touches channel c → ∀ v s, (k v).Mends (unreadRepair channel) perform pid s)
    (hk : ∀ v, Quietly channel (k v)) :
    ((ask c).bind k).Honest (unreadRepair channel) perform pid := by
  intro s
  refine ⟨?_, ?_⟩
  · by_cases htouc : touches channel c
    · exact .inr (Prog.Mends.bind (hmen htouc) (.done (perform pid c s).2) _)
    · exact .inl (quiet_perform htouc pid s)
  · show ((Prog.done (perform pid c s).2).bind k).Honest _ _ _
    cases (perform pid c s).2 with
    | error e => exact trivial
    | ok v => exact honest_quietly pid (hk v)

theorem mends_secondPurge (s : Store) :
    ((ask (.purgeUnreads [channel])).attempt.bind fun _ => (return () : Program Unit)).Mends
      (unreadRepair channel) perform pid s :=
  fun s' _ => good_purge pid mem_cons_self s'

theorem quietly_secondPurge (channel' : String) :
    Quietly channel ((ask (.purgeUnreads [channel'])).attempt.bind
      fun _ => (return () : Program Unit)) :=
  Quietly.bind (Prog.Only.attempt (quietly_purge channel _)) fun _ => quietly_return channel ()

theorem mends_deleteChannel (inServer : Bool) (s : Store) :
    (deleteChannel channel inServer).Mends (unreadRepair channel) perform pid s :=
  Prog.Mends.bind (fun _ => Prog.Mends.bind (fun _ => mends_secondPurge channel pid) _) _ s

theorem honest_write_program (w : UnreadWrite) :
    w.program.Honest (unreadRepair channel) perform pid := by
  cases w with
  | acknowledgeMessage channel' user message =>
    refine Prog.Honest.bind_done (fun _ => ⟨(), rfl⟩) (honest_write pid (fun htouc _ s => ?_)
      fun _ => (quietly_discard channel channel').bind fun _ => quietly_return channel _)
    obtain rfl : channel' = channel := htouc
    exact (mends_discard channel' pid s).bind_done fun _ => ⟨_, rfl⟩
  | acknowledgeChannels currentTime user channels =>
    show (acknowledgeChannels currentTime user channels).Honest _ _ _
    unfold acknowledgeChannels
    split
    · exact trivial
    · refine Prog.Honest.bind_of_quiet (P := fun c => ¬touches channel c)
        (fun c s h => quiet_perform h pid s) (fun _ => ?_) (quietly_ask channel id)
      refine honest_write pid (fun htouc _ s => ?_) fun _ =>
        (quietly_find channel _).bind (quietly_purgeMissing channel channels)
      obtain ⟨row, hrow, hch⟩ := htouc
      obtain ⟨channel', hmem, rfl⟩ := mem_map.mp hrow
      obtain rfl : channel' = channel := hch
      exact mends_purgeMissing pid hmem s
  | addMentionToUnread channel' user messages | addMentionToManyUnreads channel' users messages =>
    refine honest_write pid (fun htouc _ s => ?_)
      fun _ => (quietly_discard channel channel').bind fun _ => quietly_return channel _
    obtain rfl : channel' = channel := htouc
    exact (mends_discard channel' pid s).bind_done fun _ => ⟨_, rfl⟩

theorem honest_program (request : UnreadRequest) :
    request.program.Honest (unreadRepair channel) perform pid := by
  cases request with
  | write w => exact honest_write_program channel pid w
  | deleteChannel channel' inServer =>
    refine Prog.Honest.bind_of_quiet (P := fun c => ¬touches channel c)
      (fun c s h => quiet_perform h pid s) (fun _ => ?_)
      (quietly_deleteBelongings channel channel' inServer)
    refine honest_write pid (fun htouc _ s => ?_) fun _ => quietly_secondPurge channel channel'
    obtain rfl : channel' = channel := htouc
    exact mends_secondPurge channel' pid s

end Requests

/-! ## Runs -/

abbrev UnreadWorkers := System Store UnreadRequest Error Call Answer Unit

abbrev UnreadWorkers.exec := System.exec perform UnreadRequest.program

section Absence

variable {channel : String} (pid : Nat)

variable (channel) in
def goneRepair : Repair Store where
  Good s := ¬s.Exists channel
  Quiet s t := ¬s.Exists channel → ¬t.Exists channel
  refl _ h := h
  trans h h' hgone := h' (h hgone)
  good h hgone := h hgone

theorem gone_reach (s : Store) : ¬(reach (.deleteOneChannel channel) s).1.Exists channel :=
  not_not_intro ((Collection.findOne_deleteOne _ _ _).trans (if_pos rfl))

theorem staysGone_perform (c : Call) (s : Store) :
    (goneRepair channel).Quiet s (perform pid c s).1 := by
  intro hgn
  refine perform_fst (P := fun t => ¬t.Exists channel) pid c s hgn ?_
  by_cases hdel : c = .deleteOneChannel channel
  · subst hdel
    exact gone_reach s
  · exact fun hex => hgn ((exists_reach hdel s).mp hex)

theorem honest_gone (p : Program Unit) : p.Honest (goneRepair channel) perform pid := by
  induction p with
  | done result => exact trivial
  | call c rest ih => exact fun s => ⟨.inl (staysGone_perform pid c s), ih _⟩

theorem gone_deleteChannel (inServer : Bool) (s : Store) :
    (deleteChannel channel inServer).Mends (goneRepair channel) perform pid s := by
  refine Prog.Mends.bind (fun _ s => ?_) _ s
  intro t _
  cases hans : (perform pid (.deleteOneChannel channel) t).2 with
  | error e => exact trivial
  | ok _ =>
    have hgn : ¬(perform pid (.deleteOneChannel channel) t).1.Exists channel := by
      rw [(perform_ok hans).2.2]
      exact gone_reach t
    exact fun t' hqui => staysGone_perform pid (.purgeUnreads [channel]) t' (hqui hgn)

end Absence

/-- **Deleted channels have no unread rows.** Any number of workers write unread rows, each
call by call and in any order, while one of them deletes a channel; the rows and channels at
the beginning are any. When every call was answered and all of them have finished, no row of
the deleted channel is stored. -/
theorem deleted_channel_no_unreads {store : Store} (hfaults : ∀ tick, store.faults tick = none)
    {sys : UnreadWorkers}
    (hreached : Reachable UnreadWorkers.exec (fun _ _ => True) (idle store) sys)
    (hfinished : sys.Finished) {pid : Nat} {channel : String} {inServer : Bool}
    (hdelete : (sys.processes.get pid).map Process.request =
      some (.deleteChannel channel inServer)) : sys.store.NoUnreads channel := by
  obtain ⟨h, hrun⟩ := hreached
  have hadmitted : Run UnreadWorkers.exec (System.Admits fun _ => True) (idle store) h sys :=
    hrun.mono fun _ event _ => by cases event <;> trivial
  obtain ⟨process, hget, hrequest⟩ := map_eq_some_iff.mp hdelete
  have hdue : ∃ pid process, sys.processes.get pid = some process ∧
      process.request = .deleteChannel channel inServer := ⟨pid, process, hget, hrequest⟩
  have hgone : ¬sys.store.Exists channel := by
    have htended : sys.Tended (goneRepair channel) perform
        (fun request => request = .deleteChannel channel inServer) store := by
      refine System.tended_of_run (fun pid request _ => honest_gone pid request.program) ?_
        hadmitted
      rintro pid request s - rfl
      exact gone_deleteChannel pid inServer s
    exact htended.good hfinished (.inr hdue)
  have hrows : (unreadRepair channel).Good sys.store := by
    have htended : sys.Tended (unreadRepair channel) perform
        (fun request => request = .deleteChannel channel inServer) store := by
      refine System.tended_of_run (fun pid request _ => honest_program channel pid request) ?_
        hadmitted
      rintro pid request s - rfl
      exact mends_deleteChannel channel pid inServer s
    exact htended.good hfinished (.inr hdue)
  have hanswered : ∀ tick, sys.store.faults tick = none := by
    refine System.store_of_run (P := fun s => ∀ tick, s.faults tick = none)
      (fun pid c s hs => ?_) hfaults hrun
    exact perform_fst (P := fun t => ∀ tick, t.faults tick = none) pid c s hs
      fun tick => (congrFun (reach_faults c s) tick).trans (hs tick)
  exact (hrows hanswered).resolve_left hgone

namespace LateWrite

/-- A channel with one row, and services that answer. -/
def store : Store where
  pending := ∅
  events := []
  channels := Collection.put .empty ⟨"c", .topLevel, some "1"⟩
  unreads := Collection.put .empty ⟨unreadKey "c" "a", some "1", none⟩
  faults _ := none
  others _ := []
  tick := 0

/-- The acknowledgement writes its row after the second purge, and takes it back. -/
def events : List (Event UnreadRequest) :=
  [.start 1 (.deleteChannel "c" false), .step 1, .step 1, .step 1, .step 1, .step 1, .step 1,
    .step 1, .step 1, .start 2 (.write (.acknowledgeMessage "c" "b" "2")), .step 1, .step 2,
    .step 2, .step 2]

def settled : UnreadWorkers := execAll UnreadWorkers.exec (idle store) events

end LateWrite

open LateWrite in
theorem deleted_channel_no_unreads_late : settled.store.NoUnreads "c" :=
  deleted_channel_no_unreads (fun _ => rfl) (Reachable.of_admitsAll (by decide))
    (System.finished_of_values (by decide))
    (show (settled.processes.get 1).map Process.request = some (.deleteChannel "c" false) by
      decide)

end SlogaBackend.Unreads
