import Mathlib.Algebra.Order.Field.Rat
import Mathlib.Data.String.Basic
import Mathlib.Tactic.Linarith
import Mathlib.Tactic.NormNum
import Mathlib.Tactic.Positivity
import Mathlib.Tactic.Ring

/-!
# The limits on UnifiedPush sends

A destination has a bucket of sends and a bucket of rejections, both token buckets: they hold at
most their burst and earn tokens with time. Numbers of tokens are rationals, instants are whole
nanoseconds.

What a bucket holds is told by its level at an instant, which is what it would hold if it were
refilled then. Refilling does not change it (`levelAt_refill`), it is never above the burst
(`levelAt_le_burst`), and it grows no faster than the rate (`levelAt_grows`).
-/

namespace SlogaBackend.Pushd

/-! ## Time and numbers -/

/-- Nanoseconds since some fixed instant. -/
abbrev Instant := ℤ

def nanosPerSec : ℕ := 1000000000

/-- A whole number of seconds. -/
def seconds (n : ℕ) : Instant := (n * nanosPerSec : ℕ)

/-- `saturating_duration_since(..).as_secs_f64()`. -/
def secsSince (now earlier : Instant) : ℚ := ((now - earlier).toNat : ℚ) / nanosPerSec

def u32Max : ℕ := 2 ^ 32 - 1

def u64Max : ℕ := 2 ^ 64 - 1

def saturatingAddU32 (a b : ℕ) : ℕ := min (a + b) u32Max

def saturatingMulU64 (a b : ℕ) : ℕ := min (a * b) u64Max

def wrappingAddU64 (a b : ℕ) : ℕ := (a + b) % 2 ^ 64

theorem secsSince_nonneg (now earlier : Instant) : 0 ≤ secsSince now earlier := by
  unfold secsSince
  positivity

variable {now later : ℤ}

theorem secsSince_of_le {earlier : ℤ} (h : now ≤ earlier) : secsSince now earlier = 0 := by
  have hzr : (now - earlier).toNat = 0 := by omega
  unfold secsSince
  rw [hzr, Nat.cast_zero, zero_div]

section

variable (earlier : ℤ) (h : now ≤ later)
include h

theorem secsSince_grows :
    secsSince later earlier ≤ secsSince now earlier + ((later - now : ℤ) : ℚ) / nanosPerSec := by
  have hnat : (later - earlier).toNat ≤ (now - earlier).toNat + (later - now).toNat := by omega
  have hcs : ((later - now : ℤ) : ℚ) = ((later - now).toNat : ℚ) := by
    rw [← Int.cast_natCast, Int.toNat_of_nonneg (by omega)]
  have hrat : ((later - earlier).toNat : ℚ) ≤
      ((now - earlier).toNat : ℚ) + ((later - now).toNat : ℚ) := by
    exact_mod_cast hnat
  unfold secsSince
  rw [hcs, ← add_div]
  exact div_le_div_of_nonneg_right hrat (Nat.cast_nonneg _)

theorem secsSince_mono : secsSince now earlier ≤ secsSince later earlier := by
  have hnat : (now - earlier).toNat ≤ (later - earlier).toNat := by omega
  exact div_le_div_of_nonneg_right (by exact_mod_cast hnat) (Nat.cast_nonneg _)

theorem secsSince_add :
    secsSince now earlier + secsSince later (max earlier now) = secsSince later earlier := by
  have hnat : (now - earlier).toNat + (later - max earlier now).toNat =
      (later - earlier).toNat := by omega
  unfold secsSince
  rw [← add_div, ← Nat.cast_add, hnat]

end

/-! ## Limits -/

def ntfyBurst : ℚ := 300
def ntfyRefillPerSec : ℚ := 6 / 10
def ntfyMaxInFlight : UInt32 := 4
def ntfyPauseOn503Secs : ℚ := 300
def ntfyRejectBurst : ℚ := 20
def ntfyRejectRefillPerSec : ℚ := 1 / 15
def ntfyUserBurst : ℚ := 30
def ntfyUserRefillPerSec : ℚ := 2 / 10
def ipBurst : ℚ := 300
def ipRefillPerSec : ℚ := 30
def ipMaxInFlight : UInt32 := 20
def ipPauseOn503Secs : ℚ := 0
def ipRejectBurst : ℚ := 20
def ipRejectRefillPerSec : ℚ := 1 / 15
def userBurst : ℚ := 60
def userRefillPerSec : ℚ := 3
def user429CooldownSecs : ℚ := 30
def maxDestKeys : ℕ := 4096
def maxUserKeys : ℕ := 16384
def maxSubKeys : ℕ := 16384
def subCooldownBaseSecs : ℕ := 300
def subCooldownMaxSecs : ℕ := 3600
def refusalLogInterval : Instant := seconds 3600
def subForgetAfter : Instant := seconds 3600
def maxOffenders : ℕ := 16
def topOffenders : ℕ := 3

inductive IpAddr where
  | v4 (octets : BitVec 32)
  | v6 (octets : BitVec 128)
  deriving DecidableEq

/-- Which limits a send is counted against. -/
inductive DestKey where
  /-- ntfy.sh and its subdomains. -/
  | ntfy
  /-- Any other destination, by its normalized address. -/
  | ip (address : IpAddr)
  deriving DecidableEq

/-- What a token bucket holds at most, and what it earns. -/
structure Rate where
  burst : ℚ
  refillPerSec : ℚ

structure DestLimits where
  sendBurst : ℚ
  sendRefillPerSec : ℚ
  rejectBurst : ℚ
  rejectRefillPerSec : ℚ
  userBurst : ℚ
  userRefillPerSec : ℚ
  maxInFlight : UInt32
  /-- Seconds of refill a 503 pauses for; zero treats it as any rejection. -/
  pauseOn503Secs : ℚ

namespace DestLimits

def send (limits : DestLimits) : Rate := ⟨limits.sendBurst, limits.sendRefillPerSec⟩

def reject (limits : DestLimits) : Rate := ⟨limits.rejectBurst, limits.rejectRefillPerSec⟩

def user (limits : DestLimits) : Rate := ⟨limits.userBurst, limits.userRefillPerSec⟩

end DestLimits

/-- Every tunable of a limiter. -/
structure UpLimits where
  ntfy : DestLimits
  generic : DestLimits
  user429CooldownSecs : ℚ
  maxDestKeys : ℕ
  maxUserKeys : ℕ
  maxSubKeys : ℕ
  subCooldownBaseSecs : ℕ
  subCooldownMaxSecs : ℕ

namespace UpLimits

def dest (limits : UpLimits) : DestKey → DestLimits
  | .ntfy => limits.ntfy
  | .ip _ => limits.generic

def default : UpLimits where
  ntfy :=
    { sendBurst := ntfyBurst
      sendRefillPerSec := ntfyRefillPerSec
      rejectBurst := ntfyRejectBurst
      rejectRefillPerSec := ntfyRejectRefillPerSec
      userBurst := ntfyUserBurst
      userRefillPerSec := ntfyUserRefillPerSec
      maxInFlight := ntfyMaxInFlight
      pauseOn503Secs := ntfyPauseOn503Secs }
  generic :=
    { sendBurst := ipBurst
      sendRefillPerSec := ipRefillPerSec
      rejectBurst := ipRejectBurst
      rejectRefillPerSec := ipRejectRefillPerSec
      userBurst := userBurst
      userRefillPerSec := userRefillPerSec
      maxInFlight := ipMaxInFlight
      pauseOn503Secs := ipPauseOn503Secs }
  user429CooldownSecs := Pushd.user429CooldownSecs
  maxDestKeys := Pushd.maxDestKeys
  maxUserKeys := Pushd.maxUserKeys
  maxSubKeys := Pushd.maxSubKeys
  subCooldownBaseSecs := Pushd.subCooldownBaseSecs
  subCooldownMaxSecs := Pushd.subCooldownMaxSecs

end UpLimits

/-! ## Token buckets -/

structure TokenBucket where
  tokens : ℚ
  /-- The latest time seen; what is earned counts from here. -/
  last : Instant
  /-- Whether it has denied since it last held a whole token. -/
  denied : Bool

namespace TokenBucket

def full (rate : Rate) (now : Instant) : TokenBucket := ⟨rate.burst, now, false⟩

/-- Add what was earned, up to the burst. An instant before the latest adds nothing. -/
def refill (bucket : TokenBucket) (rate : Rate) (now : Instant) : TokenBucket :=
  let tokens := min (bucket.tokens + secsSince now bucket.last * rate.refillPerSec) rate.burst
  { tokens
    last := max bucket.last now
    denied := if 1 ≤ tokens then false else bucket.denied }

def isFull (bucket : TokenBucket) (rate : Rate) : Bool := rate.burst ≤ bucket.tokens

/-- The share of the burst that is left. -/
def fullness (bucket : TokenBucket) (rate : Rate) : ℚ :=
  if 0 < rate.burst then bucket.tokens / rate.burst else 1

/-- Record a denial; true of the first since the bucket was empty. -/
def deny (bucket : TokenBucket) : Bool × TokenBucket :=
  (!bucket.denied, { bucket with denied := true })

/-- What the bucket would hold if it were refilled at the instant. -/
def levelAt (bucket : TokenBucket) (rate : Rate) (t : Instant) : ℚ := (bucket.refill rate t).tokens

variable {bucket : TokenBucket} {rate : Rate}

section

variable (bucket : TokenBucket) (rate : Rate) (t : Instant)

theorem levelAt_eq : bucket.levelAt rate t =
      min (bucket.tokens + secsSince t bucket.last * rate.refillPerSec) rate.burst := rfl

theorem levelAt_le_burst : bucket.levelAt rate t ≤ rate.burst := min_le_right _ _

end

variable {t t' : Instant}

theorem levelAt_of_le (h : t ≤ bucket.last) :
    bucket.levelAt rate t = min bucket.tokens rate.burst := by
  rw [levelAt_eq, secsSince_of_le h, zero_mul, add_zero]

theorem le_refill_last (bucket : TokenBucket) (rate : Rate) (now : Instant) :
    now ≤ (bucket.refill rate now).last := le_max_right _ _

theorem levelAt_congr {bucket' : TokenBucket} (htok : bucket'.tokens = bucket.tokens)
    (hls : bucket'.last = bucket.last) (t : Instant) :
    bucket'.levelAt rate t = bucket.levelAt rate t := by
  rw [levelAt_eq, levelAt_eq, htok, hls]

/-- **A level grows no faster than the rate.** -/
theorem levelAt_grows (bucket : TokenBucket) (h : t ≤ t') (hrt : 0 ≤ rate.refillPerSec) :
    bucket.levelAt rate t' ≤
      bucket.levelAt rate t + ((t' - t : ℤ) : ℚ) * (rate.refillPerSec / nanosPerSec) := by
  have hsc := mul_le_mul_of_nonneg_right (secsSince_grows bucket.last h) hrt
  have hlen : (0 : ℚ) ≤ ((t' - t : ℤ) : ℚ) := by exact_mod_cast Int.sub_nonneg_of_le h
  have hper : 0 ≤ rate.refillPerSec / (nanosPerSec : ℚ) := div_nonneg hrt (Nat.cast_nonneg _)
  have hear := mul_nonneg hlen hper
  rw [add_mul, div_mul_eq_mul_div, ← mul_div_assoc'] at hsc
  rw [levelAt_eq, levelAt_eq]
  rcases le_total (bucket.tokens + secsSince t bucket.last * rate.refillPerSec) rate.burst with
    hle | hle
  · rw [min_eq_left hle]
    refine (min_le_left _ _).trans ?_
    linarith
  · rw [min_eq_right hle]
    exact (min_le_right _ _).trans (by linarith)

theorem levelAt_nonneg (htok : 0 ≤ bucket.tokens) (hbur : 0 ≤ rate.burst)
    (hrt : 0 ≤ rate.refillPerSec) (t : Instant) : 0 ≤ bucket.levelAt rate t :=
  le_min (add_nonneg htok (mul_nonneg (secsSince_nonneg _ _) hrt)) hbur

section

variable (bucket : TokenBucket)

theorem levelAt_mono (h : t ≤ t') (hrt : 0 ≤ rate.refillPerSec)
    : bucket.levelAt rate t ≤ bucket.levelAt rate t' :=
  min_le_min_right _ (add_le_add_right (mul_le_mul_of_nonneg_right (secsSince_mono _ h) hrt) _)

theorem levelAt_with_tokens_le {tokens : ℚ} (h : tokens ≤ bucket.tokens)
    (t : Instant) : { bucket with tokens }.levelAt rate t ≤ bucket.levelAt rate t :=
  min_le_min_right _ (add_le_add_left h _)

theorem levelAt_refill_le {now : Instant} (h : now ≤ t) :
    (bucket.refill rate now).levelAt rate t ≤ bucket.levelAt rate t := by
  have hear : bucket.tokens + secsSince t bucket.last * rate.refillPerSec =
      bucket.tokens + secsSince now bucket.last * rate.refillPerSec +
        secsSince t (max bucket.last now) * rate.refillPerSec := by
    rw [← secsSince_add bucket.last h]
    ring
  rw [levelAt_eq, levelAt_eq, hear]
  exact min_le_min_right _ (add_le_add_left (min_le_left _ _) _)

end

end TokenBucket

/-! ## Space-saving tables -/

/-- A user's rejections at a destination, or admitted sends to it. -/
structure Offender where
  userId : String
  rejections : ℕ
  deriving DecidableEq

/-- Count one for the user. In a full table the first of the smallest entries gives way and its
count is inherited. -/
def recordOffender (offenders : List Offender) (userId : String) : List Offender :=
  match offenders.findIdx? fun o => o.userId = userId with
  | some i => offenders.modify i fun o => { o with rejections := saturatingAddU32 o.rejections 1 }
  | none =>
    if offenders.length < maxOffenders then offenders ++ [⟨userId, 1⟩]
    else
      match offenders.findIdx? fun o => offenders.all fun o' => o.rejections ≤ o'.rejections with
      | some i => offenders.modify i fun o => ⟨userId, saturatingAddU32 o.rejections 1⟩
      | none => offenders

/-- The highest counts first, then by name. -/
def Offender.before (a b : Offender) : Bool :=
  b.rejections < a.rejections || (a.rejections = b.rejections && a.userId ≤ b.userId)

/-- The top of a table, and how many more users it held. The table is emptied. -/
def takeTop (table : List Offender) : List Offender × ℕ :=
  ((table.mergeSort Offender.before).take topOffenders, table.length - topOffenders)

end SlogaBackend.Pushd
