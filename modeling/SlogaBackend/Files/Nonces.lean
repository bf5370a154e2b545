import SlogaBackend.Files.Uploads

/-!
# Nonces of the parts of an upload

Sealing is deterministic: the nonce of a segment is its place in the file. So two places never share
a nonce, and one place has to be sealed with one content only.

* `SealedInPlace`: what is handed over to the object store is sealed under the nonces of its place,
  and different places have different nonces. This holds of every run.
* `SamePlaintext`: all that is handed over for a part is one plaintext. The hash that would refuse
  another one is recorded after the ciphertext has left, so this holds while no claim is granted for
  a part that is not recorded and whose ciphertext, of another body, has left or is about to leave
  (`Uncontested`); `part_sealed_twice` is a run where it does not.
-/

namespace SlogaBackend.Files

open Checks Segments

/-! ## The nonces of a part -/

namespace SegmentedStreamCipher

variable {c : SegmentedStreamCipher}

def segmentNonce (c : SegmentedStreamCipher) (partNumber : ℕ) (isFinalPart : Bool) (count k : ℕ) :
    Bytes :=
  c.nonce ((partNumber - 1) * c.segmentsPerPart + k) (isFinalPart && k + 1 == count)

/-- A part, each segment sealed under the nonce of its place. -/
def sealedInPlace (c : SegmentedStreamCipher) (partNumber : ℕ) (isFinalPart : Bool)
    (plaintext : Bytes) : Bytes :=
  ((chunks c.segmentSize plaintext).mapIdx fun k segment =>
    c.cipher.encrypt (c.segmentNonce partNumber isFinalPart
      (chunks c.segmentSize plaintext).length k) segment).flatten

/-- A part that the counter holds. -/
structure PartFits (c : SegmentedStreamCipher) (partNumber : ℕ) (plaintext : Bytes) : Prop where
  number : 1 ≤ partNumber
  segments : (chunks c.segmentSize plaintext).length ≤ c.segmentsPerPart
  counter : (partNumber - 1) * c.segmentsPerPart + (chunks c.segmentSize plaintext).length ≤ 2 ^ 32

theorem ensure_eq_ok {condition : Prop} [Decidable condition] {error : String} {u : Unit}
    (h : ensure condition error = .ok u) : condition := by
  unfold ensure at h
  split at h
  · assumption
  · cases h

theorem u64_eq_ok {n m : ℕ} (h : u64 n = .ok m) : n < 2 ^ 64 ∧ m = n := by
  unfold u64 at h
  split at h
  · exact ⟨‹_›, (Outcome.ok.inj h).symm⟩
  · cases h

/-- **What is sealed at all is sealed in its place.** -/
theorem encryptPart_eq_ok {partNumber : ℕ} {isFinal : Bool} {plaintext ciphertext : Bytes}
    (hspp : 0 < c.segmentsPerPart) (h : c.encryptPart partNumber isFinal plaintext = .ok ciphertext) :
    PartFits c partNumber plaintext ∧ ciphertext = c.sealedInPlace partNumber isFinal plaintext := by
  have hok := h
  simp only [encryptPart, Outcome.bind_eq_ok] at hok
  obtain ⟨partSize, hpartSize, _, hsz, before, hbef, firstSegment, hfst, lastSegment, hls, _,
    hcoun, tags, htg, _, hbts, -⟩ := hok
  obtain ⟨hpt, rfl⟩ := u64_eq_ok hpartSize
  have hnum : 1 ≤ partNumber := by
    unfold minus at hbef
    split at hbef
    · assumption
    · cases hbef
  rw [minus_of_le hnum] at hbef
  obtain rfl := Outcome.ok.inj hbef
  obtain rfl : firstSegment = (partNumber - 1) * c.segmentsPerPart := by
    unfold context at hfst
    split at hfst
    · rename_i hval
      split at hval
      · rw [← Outcome.ok.inj hfst, ← some.inj hval]
      · cases hval
    · cases hfst
  obtain ⟨-, rfl⟩ := u64_eq_ok hls
  have hcoun := ensure_eq_ok hcoun
  obtain ⟨-, rfl⟩ := u64_eq_ok htg
  obtain ⟨hbts, -⟩ := u64_eq_ok hbts
  have hsiz : plaintext ≠ [] ∧ plaintext.length ≤ c.segmentSize * c.segmentsPerPart ∧
      (isFinal = false → plaintext.length = c.segmentSize * c.segmentsPerPart) := by
    cases isFinal with
    | true =>
      obtain ⟨hne, hle⟩ := ensure_eq_ok hsz
      exact ⟨hne, hle, fun h => by cases h⟩
    | false =>
      have hlen := ensure_eq_ok hsz
      refine ⟨List.ne_nil_of_length_pos ?_, hlen.le, fun _ => hlen⟩
      rw [hlen]
      exact Nat.mul_pos c.segmentSize_pos hspp
  obtain ⟨hne, hle, hfl⟩ := hsiz
  have hft : (chunks c.segmentSize plaintext).length ≤ c.segmentsPerPart := by
    rw [length_chunks, segmentCount]
    refine Nat.lt_succ_iff.mp ((Nat.div_lt_iff_lt_mul c.segmentSize_pos).mpr ?_)
    have hpos := c.segmentSize_pos
    rw [Nat.succ_mul, Nat.mul_comm]
    omega
  refine ⟨⟨hnum, hft, by rwa [length_chunks]⟩, ?_⟩
  rw [encryptPart_eq hnum hne (fun _ => hle) hfl hcoun hpt (by
    rwa [length_chunks] at hbts)] at h
  exact (Outcome.ok.inj h).symm

theorem nonce_inj {i j : ℕ} {last last' : Bool} (hi : i < 2 ^ 32) (hj : j < 2 ^ 32)
    (h : c.nonce i last = c.nonce j last') : i = j := by
  unfold nonce at h
  rw [append_assoc, append_assoc] at h
  have htl := List.append_cancel_left h
  exact beBytes_inj hi hj (List.append_inj_left htl (by rw [length_beBytes, length_beBytes]))

/-- **Different places have different nonces.** -/
theorem segmentNonce_inj {n m k l : ℕ} {isFinal isFinal' : Bool} {P Q : Bytes}
    (hP : PartFits c n P) (hQ : PartFits c m Q) (hk : k < (chunks c.segmentSize P).length)
    (hl : l < (chunks c.segmentSize Q).length)
    (h : c.segmentNonce n isFinal (chunks c.segmentSize P).length k =
      c.segmentNonce m isFinal' (chunks c.segmentSize Q).length l) : n = m ∧ k = l := by
  have hind := nonce_inj ((Nat.add_lt_add_left hk _).trans_le hP.counter)
    ((Nat.add_lt_add_left hl _).trans_le hQ.counter) h
  have hk := hk.trans_le hP.segments
  have hl := hl.trans_le hQ.segments
  have hrs := congrArg (· % c.segmentsPerPart) hind
  simp only [Nat.mul_add_mod_of_lt hk, Nat.mul_add_mod_of_lt hl] at hrs
  rw [hrs] at hind
  have hbef := Nat.eq_of_mul_eq_mul_right (Nat.zero_lt_of_lt hk) (Nat.add_right_cancel hind)
  have hn := hP.number
  have hm := hQ.number
  exact ⟨by omega, hrs⟩

end SegmentedStreamCipher

/-! ## What is handed over -/

/-- The requests of the uploads, and the way back from `Completing`, which no request takes. -/
inductive AnyRequest where
  | request (r : Request)
  | revert (sessionId : String) (fates : ℕ → Fate)

def revertUpload (sessionId : String) : Program Bool :=
  propagate (Call.revertUploadSessionToPending sessionId)

def anyBody (p : Primitives) :
    AnyRequest → Prog StorageError (Attempt Call) (Attempt.Answer StorageError Reply) Unit
  | .request r => body p r
  | .revert sessionId fates => (revertUpload sessionId).attempted fates 0

abbrev Upload :=
  Process AnyRequest StorageError (Attempt Call) (Attempt.Answer StorageError Reply) Unit

abbrev Uploads :=
  System Store AnyRequest StorageError (Attempt Call) (Attempt.Answer StorageError Reply) Unit

/-- A step of a run: the state before it, and what happens. -/
abbrev UploadEntry := Uploads × Event AnyRequest

def Uploads.exec (p : Primitives) : Uploads → Event AnyRequest → Uploads × Unit :=
  System.exec (Attempt.perform (perform p) Call.failure) (anyBody p)

/-- A ciphertext on its way to the object store, and the request it is from. -/
structure HandedOver where
  request : PartRequest
  partNumber : Int
  ciphertext : Bytes

def aboutToHandOver (process : Upload) : Option HandedOver :=
  match process.request, process.next? with
  | .request (.part r), some (_, .uploadPartToS3 _ _ _ partNumber ciphertext) =>
    some ⟨r, partNumber, ciphertext⟩
  | _, _ => none

/-- What all processes hand over next. -/
def aboutTo (sys : Uploads) : List HandedOver := sys.processes.values.filterMap aboutToHandOver

def handedOver (entry : UploadEntry) : Option HandedOver :=
  match entry.2 with
  | .step pid => (entry.1.processes.get pid).bind aboutToHandOver
  | _ => none

def handedOverFor (id : String) (history : List UploadEntry) : List HandedOver :=
  (history.filterMap handedOver).filter fun put => put.request.sessionId = id

/-- What is handed over is the body of the request, sealed in the place of its part, and different
places have different nonces. -/
structure SealedInPlace (p : Primitives) (session : UploadSession) (handed : List HandedOver) :
    Prop where
  ciphertext : ∀ put ∈ handed, ∃ c totalParts, sessionCipher p session = .ok c ∧
    session.totalParts = .ok totalParts ∧ put.ciphertext =
      c.sealedInPlace (i32AsU32 put.partNumber) (put.partNumber == totalParts) put.request.body
  apart : ∀ c, sessionCipher p session = .ok c → ∀ put ∈ handed, ∀ put' ∈ handed,
    ∀ isFinal isFinal' k l, k < (chunks c.segmentSize put.request.body).length →
      l < (chunks c.segmentSize put'.request.body).length →
      c.segmentNonce (i32AsU32 put.partNumber) isFinal
          (chunks c.segmentSize put.request.body).length k =
        c.segmentNonce (i32AsU32 put'.partNumber) isFinal'
          (chunks c.segmentSize put'.request.body).length l →
      put.partNumber = put'.partNumber ∧ k = l

/-- All that is handed over for a part is one plaintext, sealed. -/
def SamePlaintext (p : Primitives) (session : UploadSession) (handed : List HandedOver) : Prop :=
  ∀ partNumber, ∃ plaintext, ∀ put ∈ handed, put.partNumber = partNumber →
    sealPart p session partNumber plaintext = .ok put.ciphertext

/-! ## Claims -/

/-- The session of a claim that the store grants. -/
def granted (s : Store) : Call → Option UploadSession
  | .tryClaimUploadPart id partKey claimedAt staleCutoff =>
    (s.uploadSessions.get id).bind fun session => session.claimPart partKey claimedAt staleCutoff
  | _ => none

/-- The request that is granted the claim on a part that is not recorded. -/
def grantedClaim (entry : UploadEntry) : Option PartRequest :=
  match entry.2 with
  | .step pid =>
    match entry.1.processes.get pid with
    | some ⟨.request (.part r), some (.call (.succeeds, c) _)⟩ =>
      if (granted entry.1.store c).any fun session => (session.parts.get r.partKey).isNone then
        some r
      else none
    | _ => none
  | _ => none

/-- A claim on a part that is not recorded is granted only where every ciphertext of the part that
has been handed over, or is about to be, is of the body of the claimant. -/
def UncontestedStep (id : String) (handed : List HandedOver) (entry : UploadEntry) : Prop :=
  ∀ r ∈ grantedClaim entry, r.sessionId = id → ∀ put ∈ handed ++ aboutTo entry.1,
    put.request.sessionId = id → put.partNumber = r.partNumber → put.request.body = r.body

/-- Every step of a run is uncontested, after what has been handed over before it. -/
def Uncontested (id : String) : List HandedOver → List UploadEntry → Prop
  | _, [] => True
  | handed, entry :: rest =>
    UncontestedStep id handed entry ∧ Uncontested id (handed ++ (handedOver entry).toList) rest

instance (id : String) (handed : List HandedOver) (entry : UploadEntry) :
    Decidable (UncontestedStep id handed entry) :=
  inferInstanceAs (Decidable (∀ r ∈ grantedClaim entry, _))

instance Uncontested.decidable (id : String) : ∀ handed history,
    Decidable (Uncontested id handed history)
  | _, [] => isTrue trivial
  | handed, entry :: rest =>
    have := Uncontested.decidable id (handed ++ (handedOver entry).toList) rest
    inferInstanceAs (Decidable (_ ∧ _))

variable {id bucketId path uploadId : String} {history : List UploadEntry} {r : PartRequest}
  {partNumber : Int} {ciphertext : Bytes} {rest : Except StorageError String → Program Unit}
  {process : Upload} {sys : Uploads} {pid : Nat} {s : Store}

theorem uncontested_concat {entry : UploadEntry} :
    ∀ {handed : List HandedOver}, Uncontested id handed (history ++ [entry]) ↔
      Uncontested id handed history ∧
        UncontestedStep id (handed ++ history.filterMap handedOver) entry := by
  induction history with
  | nil =>
    intro handed
    rw [List.filterMap_nil, append_nil]
    exact ⟨fun h => ⟨trivial, h.1⟩, fun h => ⟨h.2, trivial⟩⟩
  | cons first rest ih =>
    intro handed
    have hhan : handed ++ (first :: rest).filterMap handedOver =
        handed ++ (handedOver first).toList ++ rest.filterMap handedOver := by
      rw [append_assoc]
      cases hput : handedOver first with
      | none => rw [List.filterMap_cons_none hput, Option.toList_none, List.nil_append]
      | some put => rw [List.filterMap_cons_some hput, Option.toList_some, List.singleton_append]
    rw [hhan]
    exact ⟨fun h => ⟨⟨h.1, (ih.mp h.2).1⟩, (ih.mp h.2).2⟩, fun h => ⟨h.1.1, ih.mpr ⟨h.1.2, h.2⟩⟩⟩

/-! ## Along a run -/

variable {p : Primitives} {start : Table String UploadSession}

/-- What is handed over is a part of a known session, sealed. -/
structure Own (p : Primitives) (start : Table String UploadSession) (put : HandedOver) : Prop where
  partNumber : put.partNumber = put.request.partNumber
  number : 1 ≤ put.partNumber
  sealed : ∃ session, Known start put.request.sessionId session ∧
    sealPart p session put.partNumber put.request.body = .ok put.ciphertext

theorem PartStage.own (hstg : PartStage p start r
      (.call (.uploadPartToS3 bucketId path uploadId partNumber ciphertext) rest)) :
    Own p start ⟨r, partNumber, ciphertext⟩ := by
  cases hstg with
  | putting hnum hkn hseal => exact ⟨rfl, hnum, _, hkn, hseal⟩

/-- Where the processes that upload parts are. -/
def Staged (p : Primitives) (start : Table String UploadSession) (sys : Uploads) : Prop :=
  ∀ pid r prog, sys.processes.get pid = some ⟨.request (.part r), some prog⟩ →
    ∃ n q, prog = Prog.attempted r.fates n q ∧ PartStage p start r q

variable {put : HandedOver}

theorem aboutToHandOver_eq_some (h : aboutToHandOver process = some put) :
    ∃ fate bucketId path uploadId rest, process = ⟨.request (.part put.request),
      some (.call (fate, .uploadPartToS3 bucketId path uploadId put.partNumber put.ciphertext)
        rest)⟩ := by
  obtain ⟨request, prog⟩ := process
  unfold aboutToHandOver at h
  split at h
  · rename_i r fate bucketId path uploadId _ _ hreq hnx
    cases h
    obtain rfl : request = .request (.part r) := hreq
    cases prog with
    | none => cases hnx
    | some prog =>
      cases prog with
      | done result => cases hnx
      | call attempt rest =>
        cases hnx
        exact ⟨fate, bucketId, path, uploadId, rest, rfl⟩
  · cases h

theorem handedOver_eq_some {entry : UploadEntry}
    (h : handedOver entry = some put) : ∃ pid process, entry.2 = .step pid ∧
      entry.1.processes.get pid = some process ∧ aboutToHandOver process = some put := by
  unfold handedOver at h
  split at h
  · obtain ⟨process, hg, hput⟩ := bind_eq_some_iff.mp h
    exact ⟨_, process, ‹_›, hg, hput⟩
  · cases h

theorem mem_aboutTo : put ∈ aboutTo sys ↔
    ∃ pid process, sys.processes.get pid = some process ∧ aboutToHandOver process = some put := by
  unfold aboutTo
  rw [mem_filterMap]
  constructor
  · rintro ⟨process, hmem, hput⟩
    obtain ⟨pid, hg⟩ := mem_values.mp hmem
    exact ⟨pid, process, hg, hput⟩
  · rintro ⟨pid, process, hg, hput⟩
    exact ⟨process, mem_values.mpr ⟨pid, hg⟩, hput⟩

theorem Staged.own (hstag : Staged p start sys) (hput : put ∈ aboutTo sys) : Own p start put := by
  obtain ⟨pid, process, hg, hnx⟩ := mem_aboutTo.mp hput
  obtain ⟨fate, bucketId, path, uploadId, rest, rfl⟩ := aboutToHandOver_eq_some hnx
  obtain ⟨n, q, hpr, hstg⟩ := hstag pid _ _ hg
  obtain ⟨rest', rfl, -, -⟩ := Prog.attempted_eq_call hpr.symm
  exact hstg.own

/-- What holds along a run. -/
structure NonceInvariant (p : Primitives) (start : Table String UploadSession)
    (history : List UploadEntry) (sys : Uploads) : Prop where
  known : AllKnown start sys.store
  staged : Staged p start sys
  own : ∀ put ∈ history.filterMap handedOver, Own p start put

theorem filterMap_concat (history : List UploadEntry) (entry : UploadEntry) :
    (history ++ [entry]).filterMap handedOver =
      history.filterMap handedOver ++ (handedOver entry).toList := by
  rw [List.filterMap_append]
  cases hput : handedOver entry with
  | none => rw [List.filterMap_cons_none hput, List.filterMap_nil, Option.toList_none]
  | some put => rw [List.filterMap_cons_some hput, List.filterMap_nil, Option.toList_some]

/-- What a step hands over was about to be handed over. -/
theorem mem_concat {event : Event AnyRequest}
    (h : put ∈ (history ++ [(sys, event)]).filterMap handedOver) :
    put ∈ history.filterMap handedOver ∨ put ∈ aboutTo sys := by
  rw [filterMap_concat, mem_append, Option.mem_toList] at h
  rcases h with hold | hnew
  · exact .inl hold
  · obtain ⟨pid, process, -, hg, hput⟩ := handedOver_eq_some hnew
    exact .inr (mem_aboutTo.mpr ⟨pid, process, hg, hput⟩)

theorem Staged.insert (hstag : Staged p start sys) (s : Store)
    (hproc : ∀ r prog, process = ⟨.request (.part r), some prog⟩ →
      ∃ n q, prog = Prog.attempted r.fates n q ∧ PartStage p start r q) :
    Staged p start ⟨s, sys.processes.insert pid process⟩ := by
  intro pid' r prog hg
  rcases get_insert_cases hg with ⟨-, heq⟩ | hold
  · exact hproc r prog heq.symm
  · exact hstag pid' r prog hold

theorem nonceInvariant_of_run (hrun : Run (Uploads.exec p) (fun _ _ => True) (.idle s) history sys)
    : NonceInvariant p s.uploadSessions history sys := by
  have hown : ∀ {history : List UploadEntry} {sys : Uploads} {event : Event AnyRequest},
      NonceInvariant p s.uploadSessions history sys →
        ∀ put ∈ (history ++ [(sys, event)]).filterMap handedOver, Own p s.uploadSessions put := by
    intro history sys event hkp put hput
    rcases mem_concat hput with hold | hnew
    · exact hkp.own put hold
    · exact hkp.staged.own hnew
  refine System.invariant_history (P := NonceInvariant p s.uploadSessions) ?_ ?_ ?_ ?_ hrun ?_
  · exact fun history sys event _ _ hkp => ⟨hkp.known, hkp.staged, hown hkp⟩
  · intro history sys pid request _ _ _ hkp
    refine ⟨hkp.known, hkp.staged.insert _ fun r prog heq => ?_, hown hkp⟩
    injection heq with hreq hpr
    subst hreq
    exact ⟨0, uploadPart p r, (some.inj hpr).symm, partStage_uploadPart p _ r⟩
  · intro history sys pid request attempt rest _ _ hg hkp
    refine ⟨Attempt.perform_keeps hkp.known (hkp.known.perform attempt.2),
      hkp.staged.insert _ fun r prog heq => ?_, hown hkp⟩
    injection heq with hreq hpr
    subst hreq
    obtain ⟨n, q, hq, hstg⟩ := hkp.staged pid r _ hg
    obtain ⟨rest', rfl, hfa, rfl⟩ := Prog.attempted_eq_call hq.symm
    refine ⟨n + 1, _, (some.inj hpr).symm, hstg.next hkp.known ?_⟩
    exact fun value hval => (Attempt.perform_ok hval).2
  · intro history sys pid request attempt rest _ _ _ hkp
    refine ⟨hkp.known, hkp.staged.insert _ fun r prog heq => ?_, hown hkp⟩
    injection heq with _ hpr
    cases hpr
  · exact ⟨allKnown_start s, fun pid r prog hg => (nomatch hg),
      fun put hput => absurd hput not_mem_nil⟩

theorem claimPart_ne_put {session : UploadSession} : claimPart p r session ≠
      .call (.uploadPartToS3 bucketId path uploadId partNumber ciphertext) rest := by
  intro heq
  unfold claimPart at heq
  cases hchk : r.checkSession session with
  | error e =>
    rw [hchk] at heq
    cases heq
  | ok _ =>
    rw [hchk] at heq
    split at heq
    · cases heq
    · cases heq

/-- **A ciphertext is handed over only right after a claim** that is granted on a part that is not
recorded. -/
theorem PartStage.next_put {c : Call} {rest : Except StorageError (Reply c) → Program Unit}
    (hstg : PartStage p start r (.call c rest)) {answer : Except StorageError (Reply c)}
    (hans : Answers p c s answer) {rest' : Except StorageError String → Program Unit}
    (hput : rest answer =
      .call (.uploadPartToS3 bucketId path uploadId partNumber ciphertext) rest') :
    (∃ session, granted s c = some session ∧ session.parts.get r.partKey = none) ∧
      ∃ value, answer = .ok value := by
  cases hstg with
  | fetching =>
    cases answer with
    | error e => cases hput
    | ok session =>
      change ((check (refuseIf (session.uploaderId ≠ r.user) StorageError.notFound)).bind
        fun _ => pure session).bind (claimPart p r) = _ at hput
      cases hchk : refuseIf (session.uploaderId ≠ r.user) StorageError.notFound with
      | error e =>
        rw [hchk] at hput
        cases hput
      | ok _ =>
        rw [hchk] at hput
        exact absurd hput claimPart_ne_put
  | claiming hnum =>
    cases answer with
    | error e => cases hput
    | ok claimed =>
      have hgran := ok.inj (hans claimed rfl)
      refine ⟨?_, claimed, rfl⟩
      change storeClaimed p r claimed = _ at hput
      cases claimed with
      | none => cases hput
      | some session =>
        simp only [storeClaimed] at hput
        split at hput
        · cases hput
        · exact ⟨session, hgran, ‹_›⟩
  | putting hnum hkn hseal =>
    cases answer with
    | error e | ok etag => cases hput
  | recording hnum hkn hseal =>
    cases answer with
    | error e => cases hput
    | ok recorded =>
      cases recorded with
      | true | false => cases hput
  | releasing hrs =>
    obtain ⟨result, hend⟩ := hrs answer
    rw [hend] at hput
    cases hput

/-! ## One plaintext for a part -/

/-- What is handed over for a part of a session is of one body. -/
def SameBodies (id : String) (handed : List HandedOver) : Prop :=
  ∀ put ∈ handed, ∀ put' ∈ handed, put.request.sessionId = id → put'.request.sessionId = id →
    put.partNumber = put'.partNumber → put.request.body = put'.request.body

theorem SameBodies.mono {handed handed' : List HandedOver} (h : SameBodies id handed)
    (hsub : ∀ put ∈ handed', put ∈ handed) : SameBodies id handed' :=
  fun put hput put' hput' => h put (hsub put hput) put' (hsub put' hput')

theorem SameBodies.cons {handed : List HandedOver} {new : HandedOver} (h : SameBodies id handed)
    (hnew : new.request.sessionId = id → ∀ put ∈ handed,
      put.request.sessionId = id → put.partNumber = new.partNumber →
        put.request.body = new.request.body) : SameBodies id (new :: handed) := by
  intro put hput put' hput' hid hid' hnum
  rcases mem_cons.mp hput with rfl | hold
  · rcases mem_cons.mp hput' with rfl | hold'
    · rfl
    · exact (hnew hid put' hold' hid' hnum.symm).symm
  · rcases mem_cons.mp hput' with rfl | hold'
    · exact hnew hid' put hold hid hnum
    · exact h put hold put' hold' hid hid' hnum

/-- What is handed over after a step was so before it, or is the next call of the process that
moved. -/
theorem mem_insert {event : Event AnyRequest}
    (h : put ∈ (history ++ [(sys, event)]).filterMap handedOver ++
      aboutTo ⟨s, sys.processes.insert pid process⟩) :
    put ∈ history.filterMap handedOver ++ aboutTo sys ∨ aboutToHandOver process = some put := by
  rw [mem_append] at h ⊢
  rcases h with hhan | habo
  · exact .inl (mem_concat hhan)
  · obtain ⟨pid', process', hg, hput⟩ := mem_aboutTo.mp habo
    rcases get_insert_cases hg with ⟨-, rfl⟩ | hold
    · exact .inr hput
    · exact .inl (.inr (mem_aboutTo.mpr ⟨pid', process', hold, hput⟩))

theorem uploadPart_ne_put :
    uploadPart p r ≠ .call (.uploadPartToS3 bucketId path uploadId partNumber ciphertext) rest := by
  intro heq
  unfold uploadPart at heq
  cases htag : assertAttachmentsTag r.tag <;> rw [htag] at heq <;> cases heq

/-- Whoever is about to hand over a ciphertext after a step was granted the claim in it, on a part
that is not recorded. -/
theorem grantedClaim_of_next {request : AnyRequest} {attempt : Attempt Call}
    {rest : Attempt.Answer StorageError Reply attempt →
      Prog StorageError (Attempt Call) (Attempt.Answer StorageError Reply) Unit}
    (hkp : NonceInvariant p start history sys)
    (hg : sys.processes.get pid = some ⟨request, some (.call attempt rest)⟩)
    (hput : aboutToHandOver ⟨request,
      some (rest (Attempt.perform (perform p) Call.failure pid attempt sys.store).2)⟩ = some put) :
    Own p start put ∧ grantedClaim (sys, .step pid) = some put.request := by
  obtain ⟨fate, bucketId, path, uploadId, rest1, hproc⟩ := aboutToHandOver_eq_some hput
  injection hproc with hreq hpr
  subst hreq
  obtain ⟨n, q, hq, hstg⟩ := hkp.staged pid _ _ hg
  obtain ⟨attempted, c⟩ := attempt
  obtain ⟨rest2, rfl, -, rfl⟩ := Prog.attempted_eq_call hq.symm
  obtain ⟨rest3, hnx, -, -⟩ := Prog.attempted_eq_call (some.inj hpr)
  have hans : Answers p c sys.store
      (Attempt.perform (perform p) Call.failure pid (attempted, c) sys.store).2 :=
    fun value hval => (Attempt.perform_ok hval).2
  obtain ⟨⟨session, hgran, hno⟩, value, hval⟩ := hstg.next_put hans hnx
  have hown : PartStage p start put.request _ := hnx ▸ hstg.next hkp.known hans
  refine ⟨hown.own, ?_⟩
  obtain ⟨rfl, -⟩ := Attempt.perform_ok hval
  unfold grantedClaim
  simp only [hg]
  rw [if_pos]
  simp only [hgran, any_some, hno, Option.isNone_none]

/-- **While no claim is contested, a part has one body.** -/
theorem sameBodies_of_run (hrun : Run (Uploads.exec p) (fun _ _ => True) (.idle s) history sys) :
    Uncontested id [] history → SameBodies id (history.filterMap handedOver ++ aboutTo sys) := by
  have hbef : ∀ {history : List UploadEntry} {entry : UploadEntry},
      Uncontested id [] (history ++ [entry]) → Uncontested id [] history ∧
        UncontestedStep id (history.filterMap handedOver) entry := uncontested_concat.mp
  refine System.invariant_history (P := fun history sys => Uncontested id [] history →
    SameBodies id (history.filterMap handedOver ++ aboutTo sys)) ?_ ?_ ?_ ?_ hrun ?_
  · intro history sys event _ _ hsm hunc
    refine (hsm (hbef hunc).1).mono fun put hput => ?_
    rw [mem_append] at hput ⊢
    exact hput.elim mem_concat .inr
  · -- a request that starts has a session to fetch first
    intro history sys pid request _ _ _ hsm hunc
    refine (hsm (hbef hunc).1).mono fun put hput => ?_
    rcases mem_insert hput with hold | hnew
    · exact hold
    · obtain ⟨fate, bucketId, path, uploadId, rest, hproc⟩ := aboutToHandOver_eq_some hnew
      injection hproc with hreq hpr
      subst hreq
      obtain ⟨rest', hnx, -, -⟩ := Prog.attempted_eq_call (some.inj hpr)
      exact absurd hnx uploadPart_ne_put
  · -- a claim that is granted is on a part of this body, and what is handed over is its own
    intro history sys pid request attempt rest hrun _ hg hsm hunc
    obtain ⟨hbef, hst⟩ := hbef hunc
    cases hnx : aboutToHandOver ⟨request,
        some (rest (Attempt.perform (perform p) Call.failure pid attempt sys.store).2)⟩ with
    | none =>
      refine (hsm hbef).mono fun put hput => ?_
      rcases mem_insert hput with hold | hnew
      · exact hold
      · rw [hnx] at hnew
        cases hnew
    | some new =>
      obtain ⟨hown, hgran⟩ := grantedClaim_of_next (nonceInvariant_of_run hrun) hg hnx
      have hcn : SameBodies id (new :: (history.filterMap handedOver ++ aboutTo sys)) := by
        refine (hsm hbef).cons fun hid put hput hid' hsamePart => ?_
        exact hst _ hgran hid put hput hid' (hsamePart.trans hown.partNumber)
      refine hcn.mono fun put hput => ?_
      rcases mem_insert hput with hold | hnew
      · exact mem_cons_of_mem _ hold
      · rw [hnx] at hnew
        exact some.inj hnew ▸ mem_cons_self
  · intro history sys pid request attempt rest _ _ _ hsm hunc
    refine (hsm (hbef hunc).1).mono fun put hput => ?_
    rcases mem_insert hput with hold | hnew
    · exact hold
    · obtain ⟨fate, bucketId, path, uploadId, rest, hproc⟩ := aboutToHandOver_eq_some hnew
      injection hproc with _ hpr
      cases hpr
  · intro _ put hput
    exact absurd hput not_mem_nil

/-! ## The nonces of a session -/

theorem sessionCipher_eq_ok {session : UploadSession} {c : SegmentedStreamCipher}
    (h : sessionCipher p session = .ok c) : 0 < c.segmentsPerPart := by
  simp only [sessionCipher, bind_eq_ok, okOr_eq_ok] at h
  obtain ⟨prefixBytes, -, h⟩ := h
  split at h
  · obtain ⟨cipher, -, hc⟩ := bind_eq_ok.mp h
    obtain rfl := pure_eq_ok.mp hc
    exact (by decide : 0 < chunkSizeBytes.toNat / streamSegmentSize)
  · cases h

theorem sealPart_eq_ok {session : UploadSession} {plaintext : Bytes}
    (h : sealPart p session partNumber plaintext = .ok ciphertext) :
    ∃ c totalParts, sessionCipher p session = .ok c ∧ session.totalParts = .ok totalParts ∧
      SegmentedStreamCipher.PartFits c (i32AsU32 partNumber) plaintext ∧ ciphertext =
        c.sealedInPlace (i32AsU32 partNumber) (partNumber == totalParts) plaintext := by
  simp only [sealPart, bind_eq_ok, reportInternalError_eq_ok] at h
  obtain ⟨c, hc, totalParts, htot, hpt⟩ := h
  obtain ⟨hft, heq⟩ := SegmentedStreamCipher.encryptPart_eq_ok (sessionCipher_eq_ok hc) hpt
  exact ⟨c, totalParts, hc, htot, hft, heq⟩

theorem i32AsU32_inj {n m : Int} (hn : 1 ≤ n ∧ n ≤ maxPartNumber) (hm : 1 ≤ m ∧ m ≤ maxPartNumber)
    (h : i32AsU32 n = i32AsU32 m) : n = m := by
  have hmax : maxPartNumber = 2147483647 := rfl
  unfold i32AsU32 at h
  omega

theorem sealed_of_run (hrun : Run (Uploads.exec p) (fun _ _ => True) (.idle s) history sys)
    {session : UploadSession} (hses : s.uploadSessions.get id = some session)
    (hput : put ∈ handedOverFor id history) :
    (1 ≤ put.partNumber ∧ put.partNumber ≤ maxPartNumber) ∧
      sealPart p session put.partNumber put.request.body = .ok put.ciphertext := by
  obtain ⟨hmem, hid⟩ := mem_filter.mp hput
  have hown := (nonceInvariant_of_run hrun).own put hmem
  obtain ⟨session', ⟨first, hfst, hlay⟩, hseal⟩ := hown.sealed
  rw [of_decide_eq_true hid, hses] at hfst
  cases hfst
  refine ⟨⟨hown.number, hown.partNumber ▸ put.request.fits.2⟩, ?_⟩
  rwa [hlay.sealPart_eq] at hseal

/-- **A nonce of a session is of one place in the file, and while no claim is contested it covers one
plaintext.** -/
theorem nonce_covers_one_plaintext (p : Primitives) {s : Store} {sys : Uploads}
    {history : List UploadEntry}
    (hrun : Run (Uploads.exec p) (fun _ _ => True) (.idle s) history sys) {id : String}
    {session : UploadSession} (hsession : s.uploadSessions.get id = some session) :
    SealedInPlace p session (handedOverFor id history) ∧
      (Uncontested id [] history → SamePlaintext p session (handedOverFor id history)) := by
  have hsealed : ∀ {put}, put ∈ handedOverFor id history → _ :=
    fun {put} hput => sealed_of_run hrun hsession hput
  refine ⟨⟨?_, ?_⟩, ?_⟩
  · intro put hput
    obtain ⟨c, totalParts, hc, htotal, -, heq⟩ := sealPart_eq_ok (hsealed hput).2
    exact ⟨c, totalParts, hc, htotal, heq⟩
  · intro c hc put hput put' hput' isFinal isFinal' k l hk hl hnonce
    obtain ⟨c₁, -, hc₁, -, hfits, -⟩ := sealPart_eq_ok (hsealed hput).2
    obtain ⟨c₂, -, hc₂, -, hfits', -⟩ := sealPart_eq_ok (hsealed hput').2
    cases hc₁.symm.trans hc
    cases hc₂.symm.trans hc
    obtain ⟨hnumber, hplace⟩ := SegmentedStreamCipher.segmentNonce_inj hfits hfits' hk hl hnonce
    exact ⟨i32AsU32_inj (hsealed hput).1 (hsealed hput').1 hnumber, hplace⟩
  · intro huncontested partNumber
    have hsame := sameBodies_of_run hrun huncontested
    have hmem : ∀ put ∈ handedOverFor id history, put.request.sessionId = id ∧
        put ∈ history.filterMap handedOver ++ aboutTo sys := by
      intro put hput
      obtain ⟨hmem, hid⟩ := mem_filter.mp hput
      exact ⟨of_decide_eq_true hid, mem_append_left _ hmem⟩
    by_cases hnone : ∃ put ∈ handedOverFor id history, put.partNumber = partNumber
    · obtain ⟨first, hfirst, rfl⟩ := hnone
      refine ⟨first.request.body, fun put hput hnumber => ?_⟩
      rw [← hsame put (hmem put hput).2 first (hmem first hfirst).2 (hmem put hput).1
        (hmem first hfirst).1 hnumber, ← hnumber]
      exact (hsealed hput).2
    · exact ⟨[], fun put hput hnumber => absurd ⟨put, hput, hnumber⟩ hnone⟩

/-! ## Samples -/

namespace SampleStorage

/-- A session whose second part is one byte. -/
def uploading : UploadSession := session (chunkSizeBytes + 1) chunkSizeBytes

/-- The session and its multipart upload, with no part stored. -/
def uploadingStore : Store where
  uploadSessions := Table.ofEntries [(uploading.id, uploading)]
  fileHashes := ∅
  files := ∅
  objects := ∅
  multiparts := Table.ofEntries [(uploading.s3UploadId, ⟨uploading.bucketId, uploading.path, ∅⟩)]
  puts := 0

def lastPart (body : Bytes) (fates : ℕ → Fate) : AnyRequest :=
  .request (.part {
    tag := .attachments
    user := uploading.uploaderId
    sessionId := uploading.id
    partNumber := 2
    body := body
    now := 0
    fates := fates
    fits := by decide })

/-- One body is stored and recorded, and another one is refused. -/
def refused : List (Event AnyRequest) :=
  [.start 0 (lastPart [1] fun _ => .succeeds), .step 0, .step 0, .step 0, .step 0,
    .start 1 (lastPart [2] fun _ => .succeeds), .step 1]

/-- The record of one body fails after it was stored, its claim is released, and another body is
stored. -/
def storedTwice : List (Event AnyRequest) :=
  [.start 0 (lastPart [1] fun n => if n = 3 then .fails else .succeeds), .step 0, .step 0, .step 0,
    .step 0, .step 0, .start 1 (lastPart [2] fun _ => .succeeds), .step 1, .step 1, .step 1]

/-- What a list of events hands over for the session. -/
def handed (events : List (Event AnyRequest)) : List HandedOver :=
  handedOverFor uploading.id
    (historyOf (Uploads.exec primitives) (idle uploadingStore) events)

end SampleStorage

open SampleStorage in
theorem nonce_covers_one_plaintext_refused : SealedInPlace primitives uploading (handed refused) ∧
      SamePlaintext primitives uploading (handed refused) := by
  have hsession : uploadingStore.uploadSessions.get uploading.id = some uploading := rfl
  have hrun : Run (Uploads.exec primitives) (fun _ _ => True) (idle uploadingStore) _ _ :=
    Run.of_admitsAll (admitsAll_true refused)
  obtain ⟨hplace, hsame⟩ := nonce_covers_one_plaintext primitives hrun hsession
  exact ⟨hplace, hsame (by decide)⟩

open SampleStorage in
/-- **One place is sealed with two contents.** The hash that would have refused the second body was
not recorded. -/
theorem part_sealed_twice : ∃ history sys,
    Run (Uploads.exec primitives) (fun _ _ => True) (.idle uploadingStore) history sys ∧
      ¬ SamePlaintext primitives uploading (handedOverFor uploading.id history) := by
  refine ⟨_, _, Run.of_admitsAll (admitsAll_true storedTwice), fun hsame => ?_⟩
  have hhanded : (handed storedTwice).map (fun put => (put.partNumber, put.ciphertext)) =
      [(2, [1, 1, 2, 3, 4, 5, 6, 7, 0, 0, 0, 32, 1, 0, 0, 0, 0]),
        (2, [2, 1, 2, 3, 4, 5, 6, 7, 0, 0, 0, 32, 1, 0, 0, 0, 0])] := by decide
  obtain ⟨plaintext, hall⟩ := hsame 2
  have hsealed : ∀ pair ∈ (handed storedTwice).map (fun put => (put.partNumber, put.ciphertext)),
      sealPart primitives uploading 2 plaintext = .ok pair.2 := by
    intro pair hpair
    obtain ⟨put, hput, rfl⟩ := mem_map.mp hpair
    have hnumber : put.partNumber = 2 := by
      rw [hhanded] at hpair
      rcases mem_cons.mp hpair with heq | hpair
      · exact congrArg Prod.fst heq
      · exact congrArg Prod.fst (mem_singleton.mp hpair)
    exact hall put hput hnumber
  rw [hhanded] at hsealed
  have hboth := (hsealed _ mem_cons_self).symm.trans
    (hsealed _ (mem_cons_of_mem _ mem_cons_self))
  exact absurd (ok.inj hboth) (by decide)

end SlogaBackend.Files
