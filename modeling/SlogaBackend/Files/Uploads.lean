import SlogaBackend.Files.CompleteUploads

/-!
# Chunked uploads together

The requests of the chunked uploads over one store. Each of them is a process, so that anything can
happen between two of its calls, and it can die there.

`PartStage` says where the upload of a part is, with what the calls before it were answered, and
`PartStage.next` is its step lemma. What no call of any request changes of a session is its
layout: the sizes, the place and the key (`SameLayout`).
-/

namespace SlogaBackend.Files

open Checks

inductive Request where
  | part (r : PartRequest)
  | complete (r : SessionRequest)
  | abort (r : SessionRequest)
  | sweep (now : Timestamp) (fates : ℕ → Fate)

/-- The calls of a request. -/
def body (p : Primitives) :
    Request → Prog StorageError (Attempt Call) (Attempt.Answer StorageError Reply) Unit
  | .part r => (uploadPart p r).attempted r.fates 0
  | .complete r => (completeUpload p r).attempted r.fates 0
  | .abort r => (abortUpload r).attempted r.fates 0
  | .sweep now fates => (pruneUploadSessions now).attempted fates 0

/-! ## What stays of a session -/

/-- Two states of a session with the same sizes, place and key. -/
structure SameLayout (session session' : UploadSession) : Prop where
  id : session'.id = session.id
  totalSize : session'.totalSize = session.totalSize
  chunkSize : session'.chunkSize = session.chunkSize
  bucketId : session'.bucketId = session.bucketId
  path : session'.path = session.path
  s3UploadId : session'.s3UploadId = session.s3UploadId
  noncePrefix : session'.noncePrefix = session.noncePrefix
  keyId : session'.keyId = session.keyId

namespace SameLayout

theorem refl (session : UploadSession) : SameLayout session session :=
  ⟨rfl, rfl, rfl, rfl, rfl, rfl, rfl, rfl⟩

theorem trans {s s' s'' : UploadSession} (h : SameLayout s s') (h' : SameLayout s' s'') :
    SameLayout s s'' :=
  ⟨h'.id.trans h.id, h'.totalSize.trans h.totalSize, h'.chunkSize.trans h.chunkSize,
    h'.bucketId.trans h.bucketId, h'.path.trans h.path, h'.s3UploadId.trans h.s3UploadId,
    h'.noncePrefix.trans h.noncePrefix, h'.keyId.trans h.keyId⟩

variable {session session' : UploadSession}

theorem sealPart_eq (p : Primitives) (h : SameLayout session session') (n : Int) (body : Bytes) :
    sealPart p session' n body = sealPart p session n body := by
  unfold sealPart sessionCipher UploadSession.totalParts
  rw [h.noncePrefix, h.keyId, h.totalSize, h.chunkSize]

end SameLayout

namespace UploadSession

variable {session session' : UploadSession} {partKey : String}

theorem claimPart_eq_some {claimedAt staleCutoff : Timestamp}
    (h : session.claimPart partKey claimedAt staleCutoff = some session') :
    session.state = .pending ∧
      session' = { session with inFlight := session.inFlight.insert partKey claimedAt } := by
  unfold claimPart at h
  split at h
  · rename_i hfr
    exact ⟨hfr.1, (some.inj h).symm⟩
  · cases h

theorem recordPart_eq_some {record : UploadPartRecord} {headB64 : Option String}
    (h : session.recordPart partKey record headB64 = some session') :
    session.state = .pending ∧ session' = { session with
      parts := session.parts.insert partKey record
      inFlight := session.inFlight.erase partKey
      headB64 := headB64.getD session.headB64 } := by
  unfold recordPart at h
  split at h
  · exact ⟨‹_›, (some.inj h).symm⟩
  · cases h

theorem beginComplete_eq_some {compositeHash : String}
    (h : session.beginComplete compositeHash = some session') : session.state = .pending ∧
      session' = { session with state := .completing, compositeHash := some compositeHash } := by
  unfold beginComplete at h
  split at h
  · rename_i hfr
    exact ⟨hfr.1, (some.inj h).symm⟩
  · cases h

theorem revertToPending_eq_some (h : session.revertToPending = some session') :
    session.state = .completing ∧
      session' = { session with state := .pending, compositeHash := none } := by
  unfold revertToPending at h
  split at h
  · exact ⟨‹_›, (some.inj h).symm⟩
  · cases h

theorem setAborted_eq_some (h : session.setAborted = some session') :
    session.state = .pending ∧ session' = { session with state := .aborted } := by
  unfold setAborted at h
  split at h
  · exact ⟨‹_›, (some.inj h).symm⟩
  · cases h

end UploadSession

variable {id : String}

theorem get_writeSession {s : Store} {id' : String} {session? : Option UploadSession}
    {session : UploadSession}
    (h : (s.writeSession id session?).uploadSessions.get id' = some session) :
    s.uploadSessions.get id' = some session ∨ id' = id ∧ session? = some session := by
  cases session? with
  | none => exact .inl h
  | some written =>
    have hg := (get_insert s.uploadSessions id id' written).symm.trans h
    split at hg
    · exact .inr ⟨‹_›, hg⟩
    · exact .inl hg

/-- What one call does to the session of an id. -/
inductive SessionChange (c : Call) (id : String) (session : UploadSession) :
    UploadSession → Prop where
  | same : SessionChange c id session session
  | claimed {partKey : String} {claimedAt staleCutoff : Timestamp}
      (hcall : c = .tryClaimUploadPart id partKey claimedAt staleCutoff)
      (hpending : session.state = .pending) : SessionChange c id session
        { session with inFlight := session.inFlight.insert partKey claimedAt }
  | recorded {partKey : String} {record : UploadPartRecord} {headB64 : Option String}
      (hcall : c = .recordUploadPart id partKey record headB64)
      (hpending : session.state = .pending) : SessionChange c id session
        { session with
          parts := session.parts.insert partKey record
          inFlight := session.inFlight.erase partKey
          headB64 := headB64.getD session.headB64 }
  | released {partKey : String} (hcall : c = .releaseUploadPartClaim id partKey) :
      SessionChange c id session (session.releasePart partKey)
  | begun {compositeHash : String} (hcall : c = .beginUploadSessionComplete id compositeHash)
      (hpending : session.state = .pending) : SessionChange c id session
        { session with state := .completing, compositeHash := some compositeHash }
  | reverted (hcall : c = .revertUploadSessionToPending id)
      (hcompleting : session.state = .completing) : SessionChange c id session
        { session with state := .pending, compositeHash := none }
  | completed {fileId : String} (hcall : c = .setUploadSessionCompleted id fileId) :
      SessionChange c id session (session.setCompleted fileId)
  | aborted (hcall : c = .setUploadSessionAborted id)
      (hpending : session.state = .pending) : SessionChange c id session
        { session with state := .aborted }

variable {session' : UploadSession} {r : PartRequest}

theorem SessionChange.sameLayout {c : Call} {session : UploadSession}
    (h : SessionChange c id session session') : SameLayout session session' := by
  cases h <;> exact ⟨rfl, rfl, rfl, rfl, rfl, rfl, rfl, rfl⟩

/-- **What a call leaves of a session was there before it**, changed as `SessionChange` says. -/
theorem get_perform {p : Primitives} {c : Call} {s : Store}
    (h : (perform p c s).1.uploadSessions.get id = some session') :
    ∃ session, s.uploadSessions.get id = some session ∧ SessionChange c id session session' := by
  have hsm : s.uploadSessions.get id = some session' → ∃ session,
      s.uploadSessions.get id = some session ∧ SessionChange c id session session' :=
    fun hg => ⟨session', hg, .same⟩
  cases c with
  | tryClaimUploadPart id' partKey claimedAt staleCutoff =>
    obtain hold | ⟨rfl, hnew⟩ := get_writeSession h
    · exact hsm hold
    · obtain ⟨session, hg, hcla⟩ := bind_eq_some_iff.mp hnew
      obtain ⟨hpend, rfl⟩ := UploadSession.claimPart_eq_some hcla
      exact ⟨session, hg, .claimed rfl hpend⟩
  | recordUploadPart id' partKey record headB64 =>
    obtain hold | ⟨rfl, hnew⟩ := get_writeSession h
    · exact hsm hold
    · obtain ⟨session, hg, hrec⟩ := bind_eq_some_iff.mp hnew
      obtain ⟨hpend, rfl⟩ := UploadSession.recordPart_eq_some hrec
      exact ⟨session, hg, .recorded rfl hpend⟩
  | releaseUploadPartClaim id' partKey =>
    obtain hold | ⟨rfl, hnew⟩ := get_writeSession h
    · exact hsm hold
    · obtain ⟨session, hg, rfl⟩ := map_eq_some_iff.mp hnew
      exact ⟨session, hg, .released rfl⟩
  | beginUploadSessionComplete id' compositeHash =>
    obtain hold | ⟨rfl, hnew⟩ := get_writeSession h
    · exact hsm hold
    · obtain ⟨session, hg, hbeg⟩ := bind_eq_some_iff.mp hnew
      obtain ⟨hpend, rfl⟩ := UploadSession.beginComplete_eq_some hbeg
      exact ⟨session, hg, .begun rfl hpend⟩
  | revertUploadSessionToPending id' =>
    obtain hold | ⟨rfl, hnew⟩ := get_writeSession h
    · exact hsm hold
    · obtain ⟨session, hg, hrev⟩ := bind_eq_some_iff.mp hnew
      obtain ⟨hcom, rfl⟩ := UploadSession.revertToPending_eq_some hrev
      exact ⟨session, hg, .reverted rfl hcom⟩
  | setUploadSessionCompleted id' fileId =>
    obtain hold | ⟨rfl, hnew⟩ := get_writeSession h
    · exact hsm hold
    · obtain ⟨session, hg, rfl⟩ := map_eq_some_iff.mp hnew
      exact ⟨session, hg, .completed rfl⟩
  | setUploadSessionAborted id' =>
    obtain hold | ⟨rfl, hnew⟩ := get_writeSession h
    · exact hsm hold
    · obtain ⟨session, hg, habo⟩ := bind_eq_some_iff.mp hnew
      obtain ⟨hpend, rfl⟩ := UploadSession.setAborted_eq_some habo
      exact ⟨session, hg, .aborted rfl hpend⟩
  | deleteUploadSession id' =>
    have hg := (get_erase s.uploadSessions id' id).symm.trans h
    split at hg
    · cases hg
    · exact hsm hg
  | _ =>
    -- the other calls leave the sessions alone
    refine hsm ?_
    simp only [perform] at h
    first
    | exact h
    | split at h <;> exact h

/-! ## Answers -/

/-- A session as it was at the start, up to what is uploaded of it. -/
def Known (start : Table String UploadSession) (id : String) (session : UploadSession) : Prop :=
  ∃ first, start.get id = some first ∧ SameLayout first session

/-- Every stored session was there at the start. -/
def AllKnown (start : Table String UploadSession) (s : Store) : Prop :=
  ∀ id session, s.uploadSessions.get id = some session → Known start id session

theorem allKnown_start (s : Store) : AllKnown s.uploadSessions s :=
  fun _ session hg => ⟨session, hg, SameLayout.refl session⟩

theorem AllKnown.perform {start : Table String UploadSession} {p : Primitives} {s : Store}
    (hkn : AllKnown start s) (c : Call) : AllKnown start (perform p c s).1 := by
  intro id session' hg
  obtain ⟨session, hold, hchg⟩ := get_perform hg
  obtain ⟨first, hfst, hlay⟩ := hkn id session hold
  exact ⟨first, hfst, hlay.trans hchg.sameLayout⟩

/-- An answer to a call: the one of the store, or a failure. -/
def Answers (p : Primitives) (c : Call) (s : Store) (answer : Except StorageError (Reply c)) :
    Prop := ∀ value, answer = .ok value → (perform p c s).2 = .ok value

variable {p : Primitives} {s : Store}

theorem claimed_eq {partKey : String} {claimedAt staleCutoff : Timestamp} (h : (perform p
      (.tryClaimUploadPart id partKey claimedAt staleCutoff) s).2 = .ok (some session')) :
    ∃ session, s.uploadSessions.get id = some session ∧ session.state = .pending ∧
      session' = { session with inFlight := session.inFlight.insert partKey claimedAt } := by
  obtain ⟨session, hg, hcla⟩ := bind_eq_some_iff.mp (ok.inj h)
  exact ⟨session, hg, UploadSession.claimPart_eq_some hcla⟩

theorem put_eq {bucketId path uploadId etag : String} {partNumber : Int} {ciphertext : Bytes}
    (h : (perform p (.uploadPartToS3 bucketId path uploadId partNumber ciphertext) s).2 =
      .ok etag) : etag = p.etag s.puts ciphertext := by
  simp only [perform] at h
  split at h
  · exact (ok.inj h).symm
  · cases h

/-! ## Where the upload of a part is -/

/-- What the upload of a part still has to do. A session it works with is known, and what it stores
is its own body, sealed. -/
inductive PartStage (p : Primitives) (start : Table String UploadSession) (r : PartRequest) :
    Program Unit → Prop where
  | fetching : PartStage p start r ((fetchOwnedSession r.sessionId r.user).bind (claimPart p r))
  | claiming (hnumber : 1 ≤ r.partNumber) : PartStage p start r
      ((propagate (Call.tryClaimUploadPart r.sessionId r.partKey r.now
        (r.now - seconds (uploadPartClaimTtlMinutes * 60)))).bind (storeClaimed p r))
  | putting {session : UploadSession} {ciphertext : Bytes} (hnumber : 1 ≤ r.partNumber)
      (hknown : Known start r.sessionId session)
      (hsealed : sealPart p session r.partNumber r.body = .ok ciphertext) : PartStage p start r
      (((propagate (Call.uploadPartToS3 session.bucketId session.path session.s3UploadId
        r.partNumber ciphertext)).bind (recordPart p r session)).onError
          (Call.releaseUploadPartClaim r.sessionId r.partKey))
  | recording {session : UploadSession} {ciphertext : Bytes} {puts : ℕ}
      (hnumber : 1 ≤ r.partNumber) (hknown : Known start r.sessionId session)
      (hsealed : sealPart p session r.partNumber r.body = .ok ciphertext) : PartStage p start r
      ((recordPart p r session (p.etag puts ciphertext)).onError
        (Call.releaseUploadPartClaim r.sessionId r.partKey))
  | releasing {rest : Except StorageError Unit → Program Unit}
      (hrest : ∀ answer, ∃ result, rest answer = .done result) : PartStage p start r
      (.call (.releaseUploadPartClaim r.sessionId r.partKey) rest)
  | ended (result : Except StorageError Unit) : PartStage p start r (.done result)

theorem partStage_uploadPart (p : Primitives) (start : Table String UploadSession)
    (r : PartRequest) : PartStage p start r (uploadPart p r) := by
  unfold uploadPart
  cases assertAttachmentsTag r.tag with
  | ok _ => exact .fetching
  | error e => exact .ended _

theorem PartRequest.one_le_of_check {session : UploadSession} (h : r.checkSession session = .ok ())
    : 1 ≤ r.partNumber := by
  simp only [checkSession, bind_eq_ok, refuseIf_eq_ok, okOr_eq_ok, reportInternalError_eq_ok] at h
  obtain ⟨-, -, -, -, expected, hexp, size, rfl, -⟩ := h
  obtain ⟨totalParts, -, hsz⟩ := Outcome.bind_eq_ok.mp hexp
  by_contra hlt
  rw [if_pos (.inl (Int.not_le.mp hlt))] at hsz
  cases hsz

section

variable {start : Table String UploadSession}

theorem partStage_claimPart (session : UploadSession) :
    PartStage p start r (claimPart p r session) := by
  unfold claimPart
  cases hchk : r.checkSession session with
  | error e => exact .ended _
  | ok _ =>
    split
    · exact .ended _
    · exact .claiming (r.one_le_of_check hchk)

theorem partStage_storeClaimed (hnum : 1 ≤ r.partNumber)
    {claimed : Option UploadSession} (hkn : ∀ session ∈ claimed, Known start r.sessionId session) :
    PartStage p start r (storeClaimed p r claimed) := by
  cases claimed with
  | none => exact .ended _
  | some session =>
    simp only [storeClaimed]
    split
    · refine .releasing fun answer => ?_
      cases answer with
      | ok _ => exact ⟨_, rfl⟩
      | error e => exact ⟨_, rfl⟩
    · unfold storePart
      cases hseal : sealPart p session r.partNumber r.body with
      | error e => exact .releasing fun answer => ⟨_, rfl⟩
      | ok ciphertext => exact .putting hnum (hkn session rfl) hseal

/-- **The upload of a part makes its next call.** -/
theorem PartStage.next {c : Call} {rest : Except StorageError (Reply c) → Program Unit}
    (hstg : PartStage p start r (.call c rest)) (hkn : AllKnown start s)
    {answer : Except StorageError (Reply c)} (hans : Answers p c s answer) :
    PartStage p start r (rest answer) := by
  cases hstg with
  | fetching =>
    cases answer with
    | error e => exact .ended _
    | ok session =>
      show PartStage p start r (((check (refuseIf (session.uploaderId ≠ r.user) .notFound)).bind
        fun _ => pure session).bind (claimPart p r))
      cases refuseIf (session.uploaderId ≠ r.user) StorageError.notFound with
      | error e => exact .ended _
      | ok _ => exact partStage_claimPart session
  | claiming hnum =>
    cases answer with
    | error e => exact .ended _
    | ok claimed =>
      refine partStage_storeClaimed hnum fun session hclai => ?_
      obtain rfl : claimed = some session := hclai
      obtain ⟨old, hg, -, rfl⟩ := claimed_eq (hans _ rfl)
      obtain ⟨first, hfst, hlay⟩ := hkn _ old hg
      exact ⟨first, hfst, hlay.trans ⟨rfl, rfl, rfl, rfl, rfl, rfl, rfl, rfl⟩⟩
  | putting hnum hses hseal =>
    cases answer with
    | error e => exact .releasing fun answer => ⟨_, rfl⟩
    | ok etag =>
      obtain rfl := put_eq (hans _ rfl)
      exact .recording hnum hses hseal
  | recording hnum hses hseal =>
    cases answer with
    | error e => exact .releasing fun answer => ⟨_, rfl⟩
    | ok recorded =>
      cases recorded with
      | true => exact .ended _
      | false => exact .releasing fun answer => ⟨_, rfl⟩
  | releasing hrs =>
    obtain ⟨result, hend⟩ := hrs answer
    rw [hend]
    exact .ended result

end

end SlogaBackend.Files
