import SlogaBackend.Presence.Sessions

/-!
# Whether the two views agree

Between the size that a delete reads and its removal of the user from the online set, another
session of the user can be created. Then the user has a session and is not online.

* `Stage`: where a call is, and what it still has to do.
* `views_agree`: when all calls have finished, the user is in the online set exactly when it has a
  session, in every run in which no delete removes it `Undisturbed`ly.
* `views_disagree`: a run in which one does.
-/

namespace SlogaBackend.Presence

/-! ## Where a call is -/

/-- What a call still has to do, from its start on. -/
inductive Stage : Request → Program → Prop
  | counting (user : String) (flags : UInt8) (random : UInt32) :
    Stage (.create user flags random) (createSession user flags random)
  | adding (user : String) (flags : UInt8) (random : UInt32) (response : Response) :
    Stage (.create user flags random) (.call (.addSession user (sessionId random flags)) fun _ =>
        .call (.addOnline user) fun _ =>
          .call (.addRegion user (sessionId random flags)) fun _ => .done (.ok response))
  | joining (user : String) (flags : UInt8) (random : UInt32) (response : Response) :
    Stage (.create user flags random) (.call (.addOnline user) fun _ =>
        .call (.addRegion user (sessionId random flags)) fun _ => .done (.ok response))
  | filing (user : String) (flags : UInt8) (random : UInt32) (response : Response) :
    Stage (.create user flags random)
      (.call (.addRegion user (sessionId random flags)) fun _ => .done (.ok response))
  | removing (user : String) (session : UInt32) :
    Stage (.delete user session) (deleteSession user session)
  | unfiling (user : String) (session : UInt32) : Stage (.delete user session)
      (.call (.removeRegion user session) fun _ => settleOnline user)
  | sizing (user : String) (session : UInt32) : Stage (.delete user session) (settleOnline user)
  | leaving (user : String) (session : UInt32) (response : Response) :
    Stage (.delete user session) (.call (.removeOnline user) fun _ => .done (.ok response))
  | done (request : Request) (response : Response) : Stage request (.done (.ok response))

theorem stage_program (request : Request) : Stage request request.program := by
  cases request with
  | create user flags random => exact .counting user flags random
  | delete user session => exact .removing user session

variable {request : Request} {user : String}

theorem Stage.next {c : Command} {rest : Reply c → Program} (hstg : Stage request (.call c rest))
    (pid : Nat) (s : Redis) : Stage request (rest (perform pid c s).2) := by
  cases hstg with
  | counting user flags random => exact .adding user flags random _
  | adding user flags random response => exact .joining user flags random response
  | joining user flags random response => exact .filing user flags random response
  | filing user flags random response | leaving user session response => exact .done _ response
  | removing user session => exact .unfiling user session
  | unfiling user session => exact .sizing user session
  | sizing user session =>
    show Stage _ (if (s.sessions user).card = 0 then _ else _)
    split
    · exact .leaving user session _
    · exact .done _ _

/-! ## Interleavings -/

/-- A process over the sets. -/
abbrev Caller := Process Request Unit Command Reply Response

/-- The session a request creates. -/
def Request.creates : Request → Option (String × UInt32)
  | .create user flags random => some (user, sessionId random flags)
  | .delete _ _ => none

/-- The call has still to add the user to the online set. -/
def joins (user : String) (process : Caller) : Bool :=
  match process.request, process.next? with
  | .create _ _ _, some (.addRegion _ _) => false
  | .create user' _ _, some _ => user' = user
  | _, _ => false

/-- The call has taken a session away and has still to settle whether the user is online. -/
def leaves (user : String) (process : Caller) : Bool :=
  match process.request, process.next? with
  | .delete _ _, some (.removeSession _ _) => false
  | .delete user' _, some _ => user' = user
  | _, _ => false

/-- The user that the next call removes from the online set. -/
def removes (process : Caller) : Option String :=
  match process.next? with
  | some (.removeOnline user) => some user
  | _ => none

/-- Session ids are pairwise distinct, a session is deleted at most once and after the call that
created it has returned, and every command succeeds. -/
def Admitted (sys : Sessions) : Event Request → Prop
  | .start _ (.create user flags random) =>
    ∀ process ∈ sys.processes.values, process.request.creates ≠ some (user, sessionId random flags)
  | .start _ (.delete user session) =>
    (∃ process ∈ sys.processes.values,
      process.request.creates = some (user, session) ∧ process.ended = true) ∧
      ∀ process ∈ sys.processes.values, process.request ≠ .delete user session
  | .step _ => True
  | .crash _ => False

/-- Whoever removes a user from the online set does so while it has no session, or while some call
that creates one has still to add the user. -/
def Undisturbed (sys : Sessions) : Event Request → Prop
  | .step pid => ∀ process ∈ sys.processes.get pid, ∀ user ∈ removes process,
    sys.store.sessions user = ∅ ∨ ∃ other ∈ sys.processes.values, joins user other = true
  | _ => True

instance (sys : Sessions) : ∀ event, Decidable (Admitted sys event)
  | .start _ (.create _ _ _) => inferInstanceAs (Decidable (∀ process ∈ _, _))
  | .start _ (.delete _ _) => inferInstanceAs (Decidable ((∃ process ∈ _, _) ∧ _))
  | .step _ => inferInstanceAs (Decidable True)
  | .crash _ => inferInstanceAs (Decidable False)

instance (sys : Sessions) : ∀ event, Decidable (Undisturbed sys event)
  | .step _ => inferInstanceAs (Decidable (∀ process ∈ _, _))
  | .start _ _ => inferInstanceAs (Decidable True)
  | .crash _ => inferInstanceAs (Decidable True)

/-- What holds between two steps, for one user. -/
structure Kept (user : String) (sys : Sessions) : Prop where
  stage : ∀ pid request prog, sys.processes.get pid = some ⟨request, some prog⟩ → Stage request prog
  /-- No two calls create the same session. -/
  unique : ∀ pid pid' process process' session, sys.processes.get pid = some process →
    sys.processes.get pid' = some process' → process.request.creates = some (user, session) →
      process'.request.creates = some (user, session) → pid = pid'
  /-- Who deletes a session comes after the call that has created it. -/
  deleted : ∀ pid process session, sys.processes.get pid = some process →
    process.request = .delete user session → ∃ pid' process', sys.processes.get pid' = some process' ∧
      process'.request.creates = some (user, session) ∧ process'.ended = true
  /-- A session stays until its call has returned. -/
  held : ∀ pid process flags random, sys.processes.get pid = some process →
    process.request = .create user flags random → (process.next? = some (.addOnline user) ∨
        process.next? = some (.addRegion user (sessionId random flags))) →
        sessionId random flags ∈ sys.store.sessions user
  online : sys.store.sessions user ≠ ∅ → user ∈ sys.store.online ∨
    ∃ pid process, sys.processes.get pid = some process ∧ joins user process = true
  offline : user ∈ sys.store.online → sys.store.sessions user ≠ ∅ ∨
    ∃ pid process, sys.processes.get pid = some process ∧ leaves user process = true

section Call

variable {user : String} {sys : Sessions} {pid : Nat} {request : Request} {c : Command}
  {rest : Reply c → Program} {process : Caller}

theorem get_insert_self_or (hg : sys.processes.get pid = some ⟨request, some (.call c rest)⟩)
    {prog : Program} {pid' : Nat}
    (hg' : (sys.processes.insert pid ⟨request, some prog⟩).get pid' = some process) :
    (pid' = pid ∧ process = ⟨request, some prog⟩) ∨
      pid' ≠ pid ∧ sys.processes.get pid' = some process := by
  by_cases hpid : pid' = pid
  · subst hpid
    rw [get_insert_self] at hg'
    exact .inl ⟨rfl, (some.inj hg').symm⟩
  · rw [get_insert, if_neg hpid] at hg'
    exact .inr ⟨hpid, hg'⟩

theorem not_ended_of_next {c c' : Command}
    (hnx : process.next? = some c ∨ process.next? = some c') : ¬process.ended = true := by
  obtain ⟨request, prog⟩ := process
  cases prog with
  | none => exact false_ne_true
  | some prog =>
    cases prog with
    | done result => rcases hnx with hnx | hnx <;> cases hnx
    | call c rest => exact false_ne_true

theorem Kept.held_next (hkp : Kept user sys)
    (hg : sys.processes.get pid = some ⟨request, some (.call c rest)⟩) :
    ∀ pid' process flags random,
      (sys.processes.insert pid ⟨request, some (rest (perform pid c sys.store).2)⟩).get pid' =
        some process → process.request = .create user flags random →
      (process.next? = some (.addOnline user) ∨
        process.next? = some (.addRegion user (sessionId random flags))) →
        sessionId random flags ∈ (perform pid c sys.store).1.sessions user := by
  intro pid' process flags random hg' hreq hnx
  have hstg := hkp.stage pid request _ hg
  rcases get_insert_self_or hg hg' with ⟨-, rfl⟩ | ⟨-, hold⟩
  · -- the call that creates the session makes a step
    have hhl := hkp.held pid _ flags random hg hreq
    cases hstg with
    | counting user' flags' random' | filing user' flags' random' response =>
      rcases hnx with hnx | hnx <;> cases hnx
    | adding user' flags' random' response =>
      cases hreq
      show _ ∈ (sys.store.setSessions user _).sessions user
      rw [sessions_setSessions, if_pos rfl]
      exact Finset.mem_insert_self _ _
    | joining user' flags' random' response =>
      cases hreq
      exact hhl (.inl rfl)
    | _ => cases hreq
  · have hhl := hkp.held pid' process flags random hold hreq hnx
    cases hstg with
    | adding user' flags' random' response =>
      show _ ∈ (sys.store.setSessions user' _).sessions user
      rw [sessions_setSessions]
      split
      · rename_i hsm
        exact Finset.mem_insert_of_mem (hsm ▸ hhl)
      · exact hhl
    | removing user' session =>
      show _ ∈ (sys.store.setSessions user' _).sessions user
      rw [sessions_setSessions]
      split
      · -- the session that is deleted was created by a call that has returned
        rename_i hsm
        subst hsm
        refine Finset.mem_erase.mpr ⟨?_, hhl⟩
        rintro rfl
        obtain ⟨pid'', creator, hcre, hcreat, hend⟩ := hkp.deleted pid _ _ hg rfl
        have hcreat' : process.request.creates = some (user, sessionId random flags) := by
          rw [hreq]
          rfl
        obtain rfl := hkp.unique pid' pid'' process creator _ hold hcre hcreat' hcreat
        cases hold.symm.trans hcre
        exact absurd hend (not_ended_of_next hnx)
      · exact hhl
    | _ => exact hhl

theorem Kept.joins_next (hg : sys.processes.get pid = some ⟨request, some (.call c rest)⟩)
    (hjoi : ∃ pid' process, sys.processes.get pid' = some process ∧ joins user process = true)
    (hsl : joins user ⟨request, some (.call c rest)⟩ = true → joins user process = true) :
    ∃ pid' found, (sys.processes.insert pid process).get pid' = some found ∧
      joins user found = true := by
  refine System.exists_insert hjoi fun old hold hjn => hsl ?_
  cases hg.symm.trans hold
  exact hjn

theorem Kept.online_next (hkp : Kept user sys)
    (hg : sys.processes.get pid = some ⟨request, some (.call c rest)⟩)
    (hund : Undisturbed sys (.step pid)) : (perform pid c sys.store).1.sessions user ≠ ∅ →
      user ∈ (perform pid c sys.store).1.online ∨ ∃ pid' process,
        (sys.processes.insert pid ⟨request, some (rest (perform pid c sys.store).2)⟩).get pid' =
          some process ∧ joins user process = true := by
  have hstg := hkp.stage pid request _ hg
  intro hses
  cases hstg with
  | counting user' flags random =>
    exact (hkp.online hses).imp_right fun hjoi => Kept.joins_next hg hjoi id
  | adding user' flags random response =>
    by_cases huse : user' = user
    · refine .inr ⟨pid, _, by rw [get_insert_self], ?_⟩
      exact decide_eq_true huse
    · have hsm : sys.store.sessions user ≠ ∅ := by
        have hses' : (sys.store.setSessions user' _).sessions user ≠ ∅ := hses
        rw [sessions_setSessions, if_neg (Ne.symm huse)] at hses'
        exact hses'
      exact (hkp.online hsm).imp_right fun hjoi => Kept.joins_next hg hjoi id
  | joining user' flags random response =>
    by_cases huse : user = user'
    · exact .inl (Finset.mem_insert.mpr (.inl huse))
    · refine (hkp.online hses).imp (Finset.mem_insert_of_mem) fun hjoi =>
        Kept.joins_next hg hjoi fun hjn => ?_
      exact absurd (of_decide_eq_true hjn).symm huse
  | removing user' session =>
    have hso : sys.store.sessions user ≠ ∅ := by
      rintro hemp
      refine hses ?_
      show (sys.store.setSessions user' _).sessions user = ∅
      rw [sessions_setSessions]
      split
      · rename_i hsm
        rw [← hsm, hemp]
        rfl
      · exact hemp
    exact (hkp.online hso).imp_right fun hjoi => Kept.joins_next hg hjoi nofun
  | leaving user' session response =>
    by_cases huse : user = user'
    · subst huse
      rcases hund _ hg user rfl with hemp | ⟨other, hoth, hjoi⟩
      · exact absurd hemp hses
      · obtain ⟨pid', hg'⟩ := mem_values.mp hoth
        exact .inr (Kept.joins_next hg ⟨pid', other, hg', hjoi⟩ nofun)
    · refine (hkp.online hses).imp (fun honl => ?_) fun hjoi => Kept.joins_next hg hjoi nofun
      exact Finset.mem_erase.mpr ⟨huse, honl⟩
  | _ => exact (hkp.online hses).imp_right fun hjoi => Kept.joins_next hg hjoi nofun

theorem Kept.leaves_next (hg : sys.processes.get pid = some ⟨request, some (.call c rest)⟩)
    (hleav : ∃ pid' process, sys.processes.get pid' = some process ∧ leaves user process = true)
    (hsl : leaves user ⟨request, some (.call c rest)⟩ = true → leaves user process = true) :
    ∃ pid' found, (sys.processes.insert pid process).get pid' = some found ∧
      leaves user found = true := by
  refine System.exists_insert hleav fun old hold hlv => hsl ?_
  cases hg.symm.trans hold
  exact hlv

/-- A user that is online has a session, or whoever took its last one away is going to settle that
it is not. -/
theorem Kept.offline_next (hkp : Kept user sys)
    (hg : sys.processes.get pid = some ⟨request, some (.call c rest)⟩) :
    user ∈ (perform pid c sys.store).1.online →
      (perform pid c sys.store).1.sessions user ≠ ∅ ∨ ∃ pid' process,
        (sys.processes.insert pid ⟨request, some (rest (perform pid c sys.store).2)⟩).get pid' =
          some process ∧ leaves user process = true := by
  have hstg := hkp.stage pid request _ hg
  intro honl
  cases hstg with
  | adding user' flags random response =>
    show (sys.store.setSessions user' _).sessions user ≠ ∅ ∨ _
    rw [sessions_setSessions]
    split
    · exact .inl (Finset.insert_ne_empty _ _)
    · exact (hkp.offline honl).imp_right fun hleav => Kept.leaves_next hg hleav nofun
  | joining user' flags random response =>
    by_cases huse : user = user'
    · subst huse
      have hhl := hkp.held pid _ flags random hg rfl (.inl rfl)
      exact .inl (Finset.ne_empty_of_mem hhl)
    · have hwas : user ∈ sys.store.online := Finset.mem_of_mem_insert_of_ne honl huse
      exact (hkp.offline hwas).imp_right fun hleav => Kept.leaves_next hg hleav nofun
  | removing user' session =>
    by_cases huse : user' = user
    · refine .inr ⟨pid, _, by rw [get_insert_self], ?_⟩
      exact decide_eq_true huse
    · show (sys.store.setSessions user' _).sessions user ≠ ∅ ∨ _
      rw [sessions_setSessions, if_neg (Ne.symm huse)]
      exact (hkp.offline honl).imp_right fun hleav => Kept.leaves_next hg hleav nofun
  | unfiling user' session =>
    exact (hkp.offline honl).imp_right fun hleav => Kept.leaves_next hg hleav id
  | sizing user' session =>
    by_cases hemp : sys.store.sessions user = ∅
    · refine (hkp.offline honl).imp_right fun hleav => Kept.leaves_next hg hleav fun hlv => ?_
      have huse : user' = user := of_decide_eq_true hlv
      subst huse
      show leaves user' ⟨_, some (if (sys.store.sessions user').card = 0 then _ else _)⟩ = true
      rw [if_pos (Finset.card_eq_zero.mpr hemp)]
      exact decide_eq_true rfl
    · exact .inl hemp
  | leaving user' session response =>
    obtain ⟨huse, hwas⟩ := Finset.mem_erase.mp honl
    refine (hkp.offline hwas).imp_right fun hleav => Kept.leaves_next hg hleav fun hlv => ?_
    exact absurd (of_decide_eq_true hlv).symm huse
  | _ => exact (hkp.offline honl).imp_right fun hleav => Kept.leaves_next hg hleav nofun

end Call

theorem kept_idle {s : Redis} (hses : s.sessions user = ∅) (honl : user ∉ s.online) :
    Kept user (idle s : Sessions) where
  stage _ _ _ hg := nomatch hg
  unique _ _ _ _ _ hg := nomatch hg
  deleted _ _ _ hg := nomatch hg
  held _ _ _ _ hg := nomatch hg
  online hso := absurd hses hso
  offline hmem := absurd hmem honl

theorem Kept.start {sys : Sessions} (hkp : Kept user sys) {pid : Nat}
    (hadmi : Admitted sys (.start pid request)) (hfr : sys.processes.get pid = none) :
    Kept user ⟨sys.store, sys.processes.insert pid ⟨request, some request.program⟩⟩ := by
  have hold : ∀ {pid' process}, (sys.processes.insert pid
      ⟨request, some request.program⟩).get pid' = some process →
        (pid' = pid ∧ process = ⟨request, some request.program⟩) ∨
          sys.processes.get pid' = some process := get_insert_cases
  have hstl : ∀ {P : Caller → Prop}, (∃ pid' process, sys.processes.get pid' = some process ∧
      P process) → ∃ pid' process, (sys.processes.insert pid
        ⟨request, some request.program⟩).get pid' = some process ∧ P process := fun hfnd =>
    System.exists_insert hfnd fun old hg _ => by
      rw [hfr] at hg
      cases hg
  refine ⟨fun pid' request' prog hg => ?_, fun pid' pid'' process process' session hg hg'
    hcreat hcreat' => ?_, fun pid' process session hg hreq => ?_,
    fun pid' process flags random hg hreq hnx => ?_,
    fun hso => (hkp.online hso).imp_right hstl,
    fun hmem => (hkp.offline hmem).imp_right hstl⟩
  · rcases hold hg with ⟨-, heq⟩ | hg
    · injection heq with hreq hpr
      rw [hreq, some.inj hpr]
      exact stage_program request
    · exact hkp.stage pid' request' prog hg
  · -- a call that creates a session has an id of its own
    have hnew : ∀ {other : Nat} {found : Caller}, sys.processes.get other = some found →
        found.request.creates = some (user, session) → request.creates ≠ some (user, session) := by
      intro other found hfnd hfoundCreates hcreatesNew
      cases request with
      | delete user' session' => cases hcreatesNew
      | create user' flags random =>
        have hdist := hadmi found (mem_values.mpr ⟨other, hfnd⟩)
        exact hdist (hfoundCreates.trans hcreatesNew.symm)
    rcases hold hg with ⟨hpid, hsl⟩ | hbef
    · rcases hold hg' with ⟨hpid', -⟩ | hbef'
      · exact hpid.trans hpid'.symm
      · rw [hsl] at hcreat
        exact absurd hcreat (hnew hbef' hcreat')
    · rcases hold hg' with ⟨-, hsl'⟩ | hbef'
      · rw [hsl'] at hcreat'
        exact absurd hcreat' (hnew hbef hcreat)
      · exact hkp.unique pid' pid'' process process' session hbef hbef' hcreat hcreat'
  · refine hstl ?_
    rcases hold hg with ⟨-, rfl⟩ | hg
    · obtain rfl : request = .delete user session := hreq
      obtain ⟨⟨creator, hmem, hcreat, hend⟩, -⟩ := hadmi
      obtain ⟨pid'', hcre⟩ := mem_values.mp hmem
      exact ⟨pid'', creator, hcre, hcreat, hend⟩
    · exact hkp.deleted pid' process session hg hreq
  · rcases hold hg with ⟨-, rfl⟩ | hg
    · obtain rfl : request = .create user flags random := hreq
      rcases hnx with hnx | hnx <;> cases hnx
    · exact hkp.held pid' process flags random hg hreq hnx

theorem Kept.call {sys : Sessions} (hkp : Kept user sys) {pid : Nat} {c : Command}
    {rest : Reply c → Program} (hg : sys.processes.get pid = some ⟨request, some (.call c rest)⟩)
    (hund : Undisturbed sys (.step pid)) :
    Kept user ⟨(perform pid c sys.store).1, sys.processes.insert pid
      ⟨request, some (rest (perform pid c sys.store).2)⟩⟩ := by
  -- what was asked of a process does not change
  have hask : ∀ {pid' process}, (sys.processes.insert pid
      ⟨request, some (rest (perform pid c sys.store).2)⟩).get pid' = some process →
        ∃ old, sys.processes.get pid' = some old ∧ old.request = process.request := by
    intro pid' process hg'
    rcases get_insert_self_or hg hg' with ⟨rfl, rfl⟩ | ⟨-, hold⟩
    · exact ⟨_, hg, rfl⟩
    · exact ⟨process, hold, rfl⟩
  refine ⟨fun pid' request' prog hg' => ?_, fun pid' pid'' process process' session hg' hg''
    hcreat hcreat' => ?_, fun pid' process session hg' hreq => ?_,
    hkp.held_next hg, hkp.online_next hg hund, hkp.offline_next hg⟩
  · rcases get_insert_self_or hg hg' with ⟨-, heq⟩ | ⟨-, hold⟩
    · injection heq with hreq hpr
      rw [hreq, some.inj hpr]
      exact (hkp.stage pid request _ hg).next pid sys.store
    · exact hkp.stage pid' request' prog hold
  · obtain ⟨old, hold, hsm⟩ := hask hg'
    obtain ⟨old', hold', hsm'⟩ := hask hg''
    rw [← hsm] at hcreat
    rw [← hsm'] at hcreat'
    exact hkp.unique pid' pid'' old old' session hold hold' hcreat hcreat'
  · obtain ⟨old, hold, hsm⟩ := hask hg'
    have hcre := hkp.deleted pid' old session hold (hsm.trans hreq)
    refine System.exists_insert hcre fun found hfnd hend => ?_
    cases hg.symm.trans hfnd
    exact absurd hend.2 false_ne_true

/-! ## When all calls have finished -/

theorem joins_of_next_none {process : Caller} (hno : process.next? = none) :
    joins user process = false := by
  unfold joins
  rw [hno]
  cases process.request <;> rfl

theorem leaves_of_next_none {process : Caller} (hno : process.next? = none) :
    leaves user process = false := by
  unfold leaves
  rw [hno]
  cases process.request <;> rfl

theorem mem_filterOnline_iff {s : Redis} (hagr : user ∈ s.online ↔ s.sessions user ≠ ∅)
    {patched : Bool} {users : List String} (huse : user ∈ users) :
    user ∈ filterOnline patched s users ↔ isOnline s user = true := by
  have hvw : isOnline s user = true ↔ user ∈ s.online := by
    rw [hagr]
    unfold isOnline
    rw [decide_eq_true_iff, Ne, Finset.card_eq_zero]
  have hfil : user ∈ (users.filter fun user => user ∈ s.online) ↔ isOnline s user = true := by
    rw [mem_filter, decide_eq_true_iff, hvw]
    exact and_iff_right huse
  cases patched with
  | false => exact hfil
  | true =>
    match users, huse, hfil with
    | [other], huse, _ =>
      -- one user is looked up in its own set
      obtain rfl := mem_singleton.mp huse
      show user ∈ (if isOnline s user = true then [user] else []) ↔ _
      split
      · rename_i honl
        exact iff_of_true mem_cons_self honl
      · rename_i honl
        exact iff_of_false not_mem_nil honl
    | _ :: _ :: _, _, hfil => exact hfil

/-- **The two views agree when all calls have finished**, in every run in which a user is removed
from the online set undisturbedly. -/
theorem views_agree {user : String} {s : Redis} (hsessions : s.sessions user = ∅)
    (honline : user ∉ s.online) {history : List (Sessions × Event Request)} {sys : Sessions}
    (hrun : Run Sessions.exec (fun sys event => Admitted sys event ∧ Undisturbed sys event)
      (idle s) history sys) (hfinished : sys.AllEnded) :
    (user ∈ sys.store.online ↔ sys.store.sessions user ≠ ∅) ∧ ∀ patched users, user ∈ users →
        (user ∈ filterOnline patched sys.store users ↔ isOnline sys.store user = true) := by
  have hkept : Kept user sys := System.invariant (P := Kept user)
    (fun _ _ _ hadm hfree hkept => hkept.start hadm.1 hfree)
    (fun _ _ _ _ _ hadm hget hkept => hkept.call hget hadm.2)
    (fun _ _ _ _ _ hadm _ _ => hadm.1.elim) hrun (kept_idle hsessions honline)
  have hnone : ∀ {pid process}, sys.processes.get pid = some process → process.next? = none := by
    intro pid process hget
    obtain ⟨result, hdone⟩ := hfinished pid process hget
    unfold Process.next?
    rw [hdone]
  have hagree : user ∈ sys.store.online ↔ sys.store.sessions user ≠ ∅ := by
    constructor
    · intro hmem
      rcases hkept.offline hmem with hsome | ⟨pid, process, hget, hleaves⟩
      · exact hsome
      · rw [leaves_of_next_none (hnone hget)] at hleaves
        cases hleaves
    · intro hsome
      rcases hkept.online hsome with hmem | ⟨pid, process, hget, hjoins⟩
      · exact hmem
      · rw [joins_of_next_none (hnone hget)] at hjoins
        cases hjoins
  exact ⟨hagree, fun patched users huser => mem_filterOnline_iff hagree huser⟩

/-- A session is created and deleted again while another one is created. -/
def reconnect : List (Event Request) :=
  [.start 0 (.create "U" 0 2), .step 0, .step 0, .step 0, .step 0, .start 1 (.delete "U" 2),
    .step 1, .step 1, .start 2 (.create "U" 0 4), .step 2, .step 1, .step 1, .step 2, .step 2,
    .step 2]

theorem views_agree_reconnect :
    let s := (execAll Sessions.exec (idle ⟨fun _ => ∅, ∅, ∅⟩) reconnect).store
    ("U" ∈ s.online ↔ s.sessions "U" ≠ ∅) ∧ ∀ patched users, "U" ∈ users →
      ("U" ∈ filterOnline patched s users ↔ isOnline s "U" = true) := by
  have hrun : Run Sessions.exec (fun sys event => Admitted sys event ∧ Undisturbed sys event)
      (idle ⟨fun _ => ∅, ∅, ∅⟩) _
      (execAll Sessions.exec (idle ⟨fun _ => ∅, ∅, ∅⟩) reconnect) :=
    Run.of_admitsAll (by decide)
  exact views_agree rfl (Finset.notMem_empty _) hrun (System.allEnded_of_all (by decide))

/-- The other session is created between the size that the delete reads and the removal. -/
def reconnectBetween : List (Event Request) :=
  [.start 0 (.create "U" 0 2), .step 0, .step 0, .step 0, .step 0, .start 1 (.delete "U" 2),
    .step 1, .step 1, .step 1, .start 2 (.create "U" 0 4), .step 2, .step 2, .step 2, .step 2,
    .step 1]

/-- The user ends up with a session and out of the online set. -/
theorem views_disagree : ¬∀ (user : String) (s : Redis) (history : List (Sessions × Event Request))
    (sys : Sessions), s.sessions user = ∅ → user ∉ s.online →
      Run Sessions.exec Admitted (idle s) history sys → sys.AllEnded →
        ((user ∈ sys.store.online ↔ sys.store.sessions user ≠ ∅) ∧ ∀ patched users, user ∈ users →
            (user ∈ filterOnline patched sys.store users ↔ isOnline sys.store user = true)) := by
  intro hall
  have hagree := (hall "U" ⟨fun _ => ∅, ∅, ∅⟩ _
    (execAll Sessions.exec (idle ⟨fun _ => ∅, ∅, ∅⟩) reconnectBetween) rfl
    (Finset.notMem_empty _) (Run.of_admitsAll (by decide))
    (System.allEnded_of_all (by decide))).1
  have hsome : (execAll Sessions.exec (idle ⟨fun _ => ∅, ∅, ∅⟩)
      reconnectBetween).store.sessions "U" ≠ ∅ := by decide
  exact absurd (hagree.mpr hsome) (by decide)

end SlogaBackend.Presence
