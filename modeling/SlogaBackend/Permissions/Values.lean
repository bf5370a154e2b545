import SlogaBackend.Base
import SlogaBackend.Lib.Overrides

/-!
# Permission values

The permission words of `revolt_permissions`. A value is 64 bits; a role carries an
override, which allows some bits and then denies some. Stored words are signed, and the
casts between the two keep the bits, so that both are bit vectors here.

A bit of a value is a truth value, and at one bit an override of words is an override of
truth values (`getLsbD_apply`, `getLsbD_foldl`). That is how the lattice lemmas of
`Lib.Overrides` are used.
-/

namespace SlogaBackend.Permissions

/-! ## Permissions -/

inductive ChannelPermission where
  | manageChannel
  | manageServer
  | managePermissions
  | manageRole
  | manageCustomisation
  | kickMembers
  | banMembers
  | timeoutMembers
  | assignRoles
  | changeNickname
  | manageNicknames
  | changeAvatar
  | removeAvatars
  | viewAuditLog
  | viewChannel
  | readMessageHistory
  | sendMessage
  | manageMessages
  | manageWebhooks
  | inviteOthers
  | sendEmbeds
  | uploadFiles
  | masquerade
  | react
  | connect
  | speak
  | video
  | muteMembers
  | deafenMembers
  | moveMembers
  | listen
  | mentionEveryone
  | mentionRoles
  | bypassSlowmode
  | useSoundboard
  | useRemoteControl
  | recordCall
  | useWatchTogether
  deriving DecidableEq

def ChannelPermission.position : ChannelPermission → Nat
  | .manageChannel => 0
  | .manageServer => 1
  | .managePermissions => 2
  | .manageRole => 3
  | .manageCustomisation => 4
  | .kickMembers => 6
  | .banMembers => 7
  | .timeoutMembers => 8
  | .assignRoles => 9
  | .changeNickname => 10
  | .manageNicknames => 11
  | .changeAvatar => 12
  | .removeAvatars => 13
  | .viewAuditLog => 14
  | .viewChannel => 20
  | .readMessageHistory => 21
  | .sendMessage => 22
  | .manageMessages => 23
  | .manageWebhooks => 24
  | .inviteOthers => 25
  | .sendEmbeds => 26
  | .uploadFiles => 27
  | .masquerade => 28
  | .react => 29
  | .connect => 30
  | .speak => 31
  | .video => 32
  | .muteMembers => 33
  | .deafenMembers => 34
  | .moveMembers => 35
  | .listen => 36
  | .mentionEveryone => 37
  | .mentionRoles => 38
  | .bypassSlowmode => 39
  | .useSoundboard => 40
  | .useRemoteControl => 41
  | .recordCall => 42
  | .useWatchTogether => 43

/-- `fmt::Display`: the name of the variant. -/
def ChannelPermission.text : ChannelPermission → String
  | .manageChannel => "ManageChannel"
  | .manageServer => "ManageServer"
  | .managePermissions => "ManagePermissions"
  | .manageRole => "ManageRole"
  | .manageCustomisation => "ManageCustomisation"
  | .kickMembers => "KickMembers"
  | .banMembers => "BanMembers"
  | .timeoutMembers => "TimeoutMembers"
  | .assignRoles => "AssignRoles"
  | .changeNickname => "ChangeNickname"
  | .manageNicknames => "ManageNicknames"
  | .changeAvatar => "ChangeAvatar"
  | .removeAvatars => "RemoveAvatars"
  | .viewAuditLog => "ViewAuditLog"
  | .viewChannel => "ViewChannel"
  | .readMessageHistory => "ReadMessageHistory"
  | .sendMessage => "SendMessage"
  | .manageMessages => "ManageMessages"
  | .manageWebhooks => "ManageWebhooks"
  | .inviteOthers => "InviteOthers"
  | .sendEmbeds => "SendEmbeds"
  | .uploadFiles => "UploadFiles"
  | .masquerade => "Masquerade"
  | .react => "React"
  | .connect => "Connect"
  | .speak => "Speak"
  | .video => "Video"
  | .muteMembers => "MuteMembers"
  | .deafenMembers => "DeafenMembers"
  | .moveMembers => "MoveMembers"
  | .listen => "Listen"
  | .mentionEveryone => "MentionEveryone"
  | .mentionRoles => "MentionRoles"
  | .bypassSlowmode => "BypassSlowmode"
  | .useSoundboard => "UseSoundboard"
  | .useRemoteControl => "UseRemoteControl"
  | .recordCall => "RecordCall"
  | .useWatchTogether => "UseWatchTogether"

/-! ## Words -/

abbrev PermissionValue := BitVec 64

def ChannelPermission.value (permission : ChannelPermission) : PermissionValue :=
  BitVec.twoPow 64 permission.position

/-- The word of several. -/
def allOf (permissions : List ChannelPermission) : PermissionValue :=
  permissions.foldl (fun word permission => word ||| permission.value) 0

def grantAllSafe : PermissionValue := 0x000FFFFFFFFFFFFF

def allowInTimeout : PermissionValue := allOf [.viewChannel, .readMessageHistory]

def defaultPermissionViewOnly : PermissionValue := allOf [.viewChannel, .readMessageHistory]

def defaultPermission : PermissionValue :=
  defaultPermissionViewOnly |||
    allOf [.sendMessage, .inviteOthers, .sendEmbeds, .uploadFiles, .connect, .speak, .listen, .video,
      .useSoundboard, .useWatchTogether]

def defaultPermissionSavedMessages : PermissionValue := grantAllSafe

def defaultPermissionDirectMessage : PermissionValue :=
  defaultPermission ||| allOf [.manageChannel, .react, .masquerade]

namespace PermissionValue

def allow (value v : PermissionValue) : PermissionValue := value ||| v

def revoke (value v : PermissionValue) : PermissionValue := value &&& ~~~v

def restrict (value v : PermissionValue) : PermissionValue := value &&& v

/-- Apply an override: allow, then revoke. -/
def apply (value : PermissionValue) (v : Override PermissionValue) : PermissionValue :=
  revoke (allow value v.allow) v.deny

def has (value v : PermissionValue) : Bool := value &&& v == v

def hasChannelPermission (value : PermissionValue) (permission : ChannelPermission) : Bool :=
  has value permission.value

def throwIfLackingChannelPermission (value : PermissionValue) (permission : ChannelPermission) :
    Result Unit :=
  if hasChannelPermission value permission then .ok ()
  else .error (.missingPermission permission.text)

/-- Allows that are added and denies that are removed must be the giver's own. -/
def throwPermissionOverride (value : PermissionValue)
    (currentValue : Option (Override PermissionValue)) (nextValue : Override PermissionValue) :
    Result Unit :=
  match currentValue with
  | some currentValue =>
    if !has value (~~~currentValue.allow &&& nextValue.allow) ||
        !has value (currentValue.deny &&& ~~~nextValue.deny) then
      .error .cannotGiveMissingPermissions
    else .ok ()
  | none => if !has value nextValue.allow then .error .cannotGiveMissingPermissions else .ok ()

end PermissionValue

structure OverrideField where
  a : BitVec 64
  d : BitVec 64
  deriving DecidableEq

/-- `Default`: nothing allowed and nothing denied. -/
def OverrideField.empty : OverrideField := ⟨0, 0⟩

def OverrideField.toOverride (field : OverrideField) : Override PermissionValue :=
  ⟨field.a, field.d⟩

def OverrideField.ofOverride (v : Override PermissionValue) : OverrideField := ⟨v.allow, v.deny⟩

/-! ## At one bit -/

def bitOf (i : Nat) (v : Override PermissionValue) : Override Bool :=
  ⟨v.allow.getLsbD i, v.deny.getLsbD i⟩

theorem getLsbD_apply (value : PermissionValue) (v : Override PermissionValue) {i : Nat}
    (hi : i < 64) : (PermissionValue.apply value v).getLsbD i =
      Override.apply (value.getLsbD i) (bitOf i v) := by
  unfold PermissionValue.apply PermissionValue.revoke PermissionValue.allow Override.apply bitOf
  rw [BitVec.getLsbD_and, BitVec.getLsbD_not, BitVec.getLsbD_or, decide_eq_true hi, Bool.true_and]
  cases value.getLsbD i <;> cases v.allow.getLsbD i <;> cases v.deny.getLsbD i <;> rfl

theorem getLsbD_foldl {i : Nat} (hi : i < 64) (l : List (Override PermissionValue)) :
    ∀ value : PermissionValue, (l.foldl PermissionValue.apply value).getLsbD i =
      (l.map (bitOf i)).foldl Override.apply (value.getLsbD i) := by
  induction l with
  | nil => exact fun _ => rfl
  | cons v l ih =>
    intro value
    rw [List.foldl_cons, ih, getLsbD_apply value v hi, List.map_cons, List.foldl_cons]

theorem has_iff {value v : PermissionValue} :
    PermissionValue.has value v = true ↔ ∀ i, v.getLsbD i = true → value.getLsbD i = true := by
  unfold PermissionValue.has
  rw [beq_iff_eq]
  constructor
  · intro h i hi
    rw [← h, BitVec.getLsbD_and, Bool.and_eq_true] at hi
    exact hi.1
  · intro h
    refine BitVec.eq_of_getLsbD_eq fun i _ => ?_
    rw [BitVec.getLsbD_and]
    cases hv : v.getLsbD i with
    | false => rw [Bool.and_false]
    | true => rw [h i hv, Bool.and_self]

theorem hasChannelPermission_eq (value : PermissionValue) (permission : ChannelPermission) :
    value.hasChannelPermission permission = value.getLsbD permission.position := by
  have hpos : permission.position < 64 := by cases permission <;> decide
  unfold PermissionValue.hasChannelPermission
  rw [Bool.eq_iff_iff, has_iff]
  unfold ChannelPermission.value
  constructor
  · exact fun h => h _ (by simp [hpos])
  · intro h i hi
    rw [BitVec.getLsbD_twoPow] at hi
    simp only [Bool.and_eq_true, decide_eq_true_eq] at hi
    rw [← hi.2]
    exact h

theorem within_of_throwPermissionOverride {value : PermissionValue}
    {current next : Override PermissionValue}
    (h : value.throwPermissionOverride (some current) next = .ok ()) {i : Nat} (hi : i < 64)
    (hlac : value.getLsbD i = false) : (bitOf i current).Within true (bitOf i next) := by
  unfold PermissionValue.throwPermissionOverride at h
  dsimp only at h
  split at h
  · cases h
  · rename_i hnot
    simp only [Bool.or_eq_true, Bool.not_eq_true', not_or, Bool.not_eq_false] at hnot
    have hall := mt (has_iff.mp hnot.1 i) (by simp [hlac])
    have hdn := mt (has_iff.mp hnot.2 i) (by simp [hlac])
    refine ⟨?_, ?_⟩
    · show next.allow.getLsbD i ⊓ true ≤ current.allow.getLsbD i
      cases hc : current.allow.getLsbD i <;> cases hn : next.allow.getLsbD i <;> simp_all
    · show current.deny.getLsbD i ⊓ true ≤ next.deny.getLsbD i
      cases hc : current.deny.getLsbD i <;> cases hn : next.deny.getLsbD i <;> simp_all

end SlogaBackend.Permissions
