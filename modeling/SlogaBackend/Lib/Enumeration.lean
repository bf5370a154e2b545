import Mathlib.Data.List.Basic
import Mathlib.Data.List.Pairwise
import Mathlib.Order.Basic

/-!
# Bounded enumeration

A loop that walks through a list of candidates and collects their values, until it has as many as
it may have or meets a value past an end.

* `collect_eq`: what is collected is a prefix of the values, cut at the number and at the end.
* `collect_append`: candidates in two parts are collected one part after the other.
* `takeWhile_eq_filter`, `collect_and`: where the values never step back, a second end drops
  exactly the values past it.
* `exists_landing`: a walk whose steps are at most a gap long misses no interval of that length.
-/

namespace SlogaBackend.Enumeration

variable {α β : Type}

section Collect

variable (value : α → β) (within : β → Bool) (cap : Nat)

/-- Collect the values of candidates, behind what has been collected. -/
def collect : List α → List β → List β
  | [], out => out
  | a :: candidates, out =>
    if out.length < cap then
      if within (value a) then collect candidates (out ++ [value a]) else out
    else out

variable {value within cap} {out : List β}

theorem collect_full (hfl : ¬out.length < cap) (candidates : List α) :
    collect value within cap candidates out = out := by
  cases candidates with
  | nil => rfl
  | cons a candidates => exact if_neg hfl

theorem collect_cons {a : α} (hrm : out.length < cap) (hwit : within (value a) = true)
    (candidates : List α) : collect value within cap (a :: candidates) out =
      collect value within cap candidates (out ++ [value a]) := by
  rw [collect, if_pos hrm, if_pos hwit]

theorem collect_past {a : α} (hps : within (value a) = false) (candidates : List α)
    : collect value within cap (a :: candidates) out = out := by
  rw [collect, hps]
  exact ite_self _

theorem collect_eq (candidates : List α) (out : List β) : collect value within cap candidates out =
      out ++ ((candidates.map value).take (cap - out.length)).takeWhile within := by
  induction candidates generalizing out with
  | nil =>
    rw [List.map_nil, List.take_nil, List.takeWhile_nil, List.append_nil]
    rfl
  | cons a candidates ih =>
    by_cases hrm : out.length < cap
    · obtain ⟨room, hcap⟩ : ∃ room, cap - out.length = room + 1 := ⟨cap - out.length - 1, by omega⟩
      have hrs : cap - (out ++ [value a]).length = room := by
        rw [List.length_append, List.length_singleton]
        omega
      rw [List.map_cons, hcap, List.take_succ_cons]
      cases hwit : within (value a) with
      | true =>
        rw [collect_cons hrm hwit, ih, hrs, List.takeWhile_cons_of_pos hwit,
          List.append_assoc, List.singleton_append]
      | false =>
        rw [collect_past hwit, List.takeWhile_cons_of_neg (by rw [hwit]; decide), List.append_nil]
    · have hno : cap - out.length = 0 := by omega
      rw [collect_full hrm, hno, List.take_zero, List.takeWhile_nil, List.append_nil]

theorem collect_nil_eq (candidates : List α) : collect value within cap candidates [] =
      ((candidates.map value).take cap).takeWhile within := by
  rw [collect_eq, List.nil_append, List.length_nil, Nat.sub_zero]

end Collect

/-! ## Values that never step back -/

section Order

variable {within within' : β → Bool}

theorem takeWhile_and (l : List β) :
    l.takeWhile (fun b => within b && within' b) = (l.takeWhile within).takeWhile within' := by
  induction l with
  | nil => rfl
  | cons b l ih =>
    cases hwit : within b with
    | true =>
      rw [List.takeWhile_cons_of_pos hwit, List.takeWhile_cons, List.takeWhile_cons, ih,
        hwit, Bool.true_and]
    | false =>
      rw [List.takeWhile_cons, List.takeWhile_cons, hwit, Bool.false_and]
      rfl

/-- Once past the end, always past it: the prefix up to the end is all that lies within it. -/
theorem takeWhile_eq_filter {l : List β}
    (hps : l.Pairwise fun b b' => within b' = true → within b = true) :
    l.takeWhile within = l.filter within := by
  induction l with
  | nil => rfl
  | cons b l ih =>
    obtain ⟨hfst, hrs⟩ := List.pairwise_cons.mp hps
    cases hwit : within b with
    | true => rw [List.takeWhile_cons_of_pos hwit, List.filter_cons_of_pos hwit, ih hrs]
    | false =>
      have hb : ¬within b = true := by
        rw [hwit]
        decide
      rw [List.takeWhile_cons_of_neg hb, List.filter_cons_of_neg hb]
      exact (List.filter_eq_nil_iff.mpr fun b' hmem hb' => hb (hfst b' hmem hb')).symm

theorem collect_and {value : α → β} {cap : Nat} {candidates : List α}
    (hps : (candidates.map value).Pairwise fun b b' => within' b' = true → within' b = true) :
    collect value (fun b => within b && within' b) cap candidates [] =
      (collect value within cap candidates []).filter within' := by
  rw [collect_nil_eq, collect_nil_eq, takeWhile_and]
  exact takeWhile_eq_filter (hps.sublist ((List.takeWhile_sublist _).trans (List.take_sublist _ _)))

end Order

/-! ## A walk with bounded gaps -/

/-- A walk upwards that passes a point lands within a gap of it. -/
theorem exists_landing {position : α → Int} {gap point : Int} {a : α} {walk : List α}
    (hwl : (a :: walk).IsChain fun b b' =>
      position b < position b' ∧ position b' ≤ position b + gap)
    (hbef : position a < point) (hpas : ∃ b ∈ a :: walk, point ≤ position b) :
    ∃ b ∈ a :: walk, point ≤ position b ∧ position b < point + gap := by
  induction walk generalizing a with
  | nil =>
    obtain ⟨b, hmem, hpas⟩ := hpas
    rw [List.mem_singleton.mp hmem] at hpas
    omega
  | cons next walk ih =>
    obtain ⟨hst, hrs⟩ := List.isChain_cons_cons.mp hwl
    by_cases hnx : point ≤ position next
    · exact ⟨next, List.mem_cons_of_mem _ List.mem_cons_self, hnx, by omega⟩
    · obtain ⟨b, hmem, hpas⟩ := hpas
      have hmem' : b ∈ next :: walk := by
        rcases List.mem_cons.mp hmem with rfl | hmem
        · omega
        · exact hmem
      obtain ⟨c, hc, hln⟩ := ih hrs (by omega) ⟨b, hmem', hpas⟩
      exact ⟨c, List.mem_cons_of_mem _ hc, hln⟩

end SlogaBackend.Enumeration
