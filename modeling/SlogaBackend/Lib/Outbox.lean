import Mathlib.Data.List.Count

/-!
# Mark, then send

Messages are sent under keys. Before a message is sent its key is marked; a key that is already
marked is not sent, and marks are swept from time to time. The call that marks a key may be
refused, or take effect without an answer; in both cases nothing is sent.

A key is sent at most once as long as no mark is swept under which a message may still be offered
(`Guarded`): its mark is there whenever it has been sent and is still live.

* `Guarded.offerAll`, `Guarded.sweep`: what offering and sweeping keep.
* `mem_marks_offerAll`, `Honest.offerAll`: an offer whose call is answered leaves its key marked
  and, where marks are not left by other means, sent.
-/

namespace SlogaBackend

/-- What became of a call. -/
inductive Answer where
  | answered
  | refused
  | unanswered

structure Outbox (Key Message : Type) where
  marks : List Key
  sent : List (Key × Message)

namespace Outbox

variable {Key Message : Type} [DecidableEq Key]

def empty : Outbox Key Message := ⟨[], []⟩

/-- Mark a key and, if it is newly marked, send its message. -/
def offer (answer : Answer) (key : Key) (message : Message) (box : Outbox Key Message) :
    Outbox Key Message :=
  match answer with
  | .answered => if key ∈ box.marks then box else ⟨key :: box.marks, box.sent ++ [(key, message)]⟩
  | .refused => box
  | .unanswered => if key ∈ box.marks then box else ⟨key :: box.marks, box.sent⟩

/-- Offer one message after the other. -/
def offerAll (answer : Key → Answer) (offers : List (Key × Message)) (box : Outbox Key Message) :
    Outbox Key Message :=
  offers.foldl (fun box message => box.offer (answer message.1) message.1 message.2) box

/-- Delete marks. -/
def sweep (keep : Key → Bool) (box : Outbox Key Message) : Outbox Key Message :=
  { box with marks := box.marks.filter keep }

/-- How often a key has been sent. -/
def times (key : Key) (box : Outbox Key Message) : Nat := (box.sent.map Prod.fst).count key

theorem offerAll_append (answer : Key → Answer) (offers offers' : List (Key × Message))
    (box : Outbox Key Message) :
    box.offerAll answer (offers ++ offers') = (box.offerAll answer offers).offerAll answer offers' :=
  List.foldl_append ..

/-! ## At most once -/

/-- A key has been sent at most once and, where it is live, is marked if it has been sent. -/
structure Guarded (key : Key) (live : Prop) (box : Outbox Key Message) : Prop where
  once : box.times key ≤ 1
  marked : live → 0 < box.times key → key ∈ box.marks

theorem guarded_of_not_sent {key : Key} {live : Prop} {box : Outbox Key Message}
    (hno : box.times key = 0) : Guarded key live box where
  once := by omega
  marked _ hsn := by omega

theorem times_sent (key key' : Key) (message : Message) (box : Outbox Key Message)
    (marks : List Key) : (Outbox.mk marks (box.sent ++ [(key', message)])).times key =
      box.times key + if key' = key then 1 else 0 := by
  unfold times
  rw [List.map_append, List.count_append, List.map_singleton, List.count_singleton]
  simp

section Guarded

variable {key : Key} {live live' : Prop} {box : Outbox Key Message}

section

variable (hguar : Guarded key live box)
include hguar

theorem Guarded.offer (answer : Answer) {key' : Key} (hlv : key' = key → live) (message : Message) :
    Guarded key live (box.offer answer key' message) := by
  cases answer with
  | refused => exact hguar
  | unanswered =>
    unfold Outbox.offer
    dsimp only
    split
    · exact hguar
    · exact ⟨hguar.once, fun h hsn => List.mem_cons_of_mem _ (hguar.marked h hsn)⟩
  | answered =>
    unfold Outbox.offer
    dsimp only
    split
    · exact hguar
    · rename_i hunm
      by_cases hkey : key' = key
      · -- an unmarked key that is live has not been sent
        have hno : box.times key = 0 := by
          by_contra hsn
          rw [hkey] at hunm
          exact hunm (hguar.marked (hlv hkey) (by omega))
        refine ⟨?_, fun _ _ => ?_⟩
        · have hcnt := times_sent key key' message box (key' :: box.marks)
          rw [if_pos hkey] at hcnt
          omega
        · rw [hkey]
          exact List.mem_cons_self
      · refine ⟨?_, fun h hsn => ?_⟩
        · rw [times_sent, if_neg hkey]
          exact hguar.once
        · rw [times_sent, if_neg hkey] at hsn
          exact List.mem_cons_of_mem _ (hguar.marked h hsn)

theorem Guarded.offerAll (answer : Key → Answer)
    {offers : List (Key × Message)} (hlv : ∀ message ∈ offers, message.1 = key → live) :
    Guarded key live (box.offerAll answer offers) := by
  induction offers generalizing box with
  | nil => exact hguar
  | cons message offers ih =>
    exact ih (hguar.offer _ (hlv message List.mem_cons_self) _)
      fun message' hmem => hlv message' (List.mem_cons_of_mem _ hmem)

theorem Guarded.imp (hlv : live' → live) : Guarded key live' box where
  once := hguar.once
  marked h := hguar.marked (hlv h)

theorem Guarded.sweep {keep : Key → Bool} (hlv : live' → live)
    (hkp : live' → keep key = true) : Guarded key live' (box.sweep keep) where
  once := hguar.once
  marked h hsn := List.mem_filter.mpr ⟨hguar.marked (hlv h) hsn, hkp h⟩

end

end Guarded

/-! ## Once -/

/-- A key that is marked has been sent. -/
def Honest (key : Key) (box : Outbox Key Message) : Prop := key ∈ box.marks → 0 < box.times key

section Honest

variable {key : Key} {box : Outbox Key Message}

theorem times_le_offer (answer : Answer) (key' : Key) (message : Message) :
    box.times key ≤ (box.offer answer key' message).times key := by
  unfold Outbox.offer
  cases answer with
  | refused => exact Nat.le_refl _
  | answered =>
    dsimp only
    split
    · exact Nat.le_refl _
    · rw [times_sent]
      exact Nat.le_add_right _ _
  | unanswered =>
    dsimp only
    split
    · exact Nat.le_refl _
    · exact Nat.le_refl _

theorem times_le_offerAll (answer : Key → Answer) (offers : List (Key × Message)) :
    box.times key ≤ (box.offerAll answer offers).times key := by
  induction offers generalizing box with
  | nil => exact Nat.le_refl _
  | cons message offers ih => exact Nat.le_trans (times_le_offer _ _ _) ih

variable {answer : Answer} {key' : Key} {message : Message}

theorem mem_marks_of_offer_ne (hkey : key' ≠ key)
    (hmr : key ∈ (box.offer answer key' message).marks) : key ∈ box.marks := by
  unfold Outbox.offer at hmr
  cases answer with
  | refused => exact hmr
  | _ =>
    dsimp only at hmr
    split at hmr
    · exact hmr
    · exact (List.mem_cons.mp hmr).resolve_left (Ne.symm hkey)

theorem Honest.offer (hhon : Honest key box) (hans : key' = key → answer = .answered)
    (message : Message) : Honest key (box.offer answer key' message) := by
  intro hmr
  by_cases hkey : key' = key
  · rw [hans hkey] at hmr ⊢
    unfold Outbox.offer at hmr ⊢
    dsimp only at hmr ⊢
    split
    · rename_i hmar
      rw [if_pos hmar] at hmr
      exact hhon hmr
    · rw [times_sent, if_pos hkey]
      omega
  · exact Nat.lt_of_lt_of_le (hhon (mem_marks_of_offer_ne hkey hmr))
      (times_le_offer answer key' message)

theorem Honest.offerAll (hhon : Honest key box) {answer : Key → Answer}
    (hans : answer key = .answered) (offers : List (Key × Message)) :
    Honest key (box.offerAll answer offers) := by
  induction offers generalizing box with
  | nil => exact hhon
  | cons message offers ih => exact ih (hhon.offer (fun hkey => by rw [hkey, hans]) _)

theorem Honest.sweep (hhon : Honest key box) (keep : Key → Bool) : Honest key (box.sweep keep) :=
  fun hmr => hhon (List.mem_filter.mp hmr).1

/-- Marks are not lost while messages are offered. -/
theorem marks_subset_offer (answer : Answer) (key' : Key) (message : Message)
    (hmr : key ∈ box.marks) : key ∈ (box.offer answer key' message).marks := by
  unfold Outbox.offer
  cases answer with
  | refused => exact hmr
  | _ =>
    dsimp only
    split
    · exact hmr
    · exact List.mem_cons_of_mem _ hmr

theorem mem_marks_offer (message : Message) : key ∈ (box.offer .answered key message).marks := by
  unfold Outbox.offer
  dsimp only
  split
  · assumption
  · exact List.mem_cons_self

theorem marks_subset_offerAll (answer : Key → Answer) (offers : List (Key × Message))
    (hmr : key ∈ box.marks) : key ∈ (box.offerAll answer offers).marks := by
  induction offers generalizing box with
  | nil => exact hmr
  | cons message offers ih => exact ih (marks_subset_offer _ _ _ hmr)

theorem mem_marks_offerAll {answer : Key → Answer} {offers : List (Key × Message)}
    (hmem : (key, message) ∈ offers) (hans : answer key = .answered) :
    key ∈ (box.offerAll answer offers).marks := by
  induction offers generalizing box with
  | nil => cases hmem
  | cons first offers ih =>
    rcases List.mem_cons.mp hmem with rfl | hmem
    · refine marks_subset_offerAll answer offers ?_
      dsimp only
      rw [hans]
      exact mem_marks_offer message
    · exact ih hmem

end Honest

end Outbox

end SlogaBackend
