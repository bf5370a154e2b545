import Mathlib.Data.List.Basic
import Mathlib.Data.List.Infix

/-!
# A text kept in sealed segments

A long text is cut into segments of one size, the last perhaps shorter, and every segment is sealed
for itself, at its index and with a mark on the last one. A sealed segment is longer than its text
by a constant, so the sealed text is cut into segments again, of a longer size.

`Tiled` is a list of segments of one size. A tiled list is what its text is cut into
(`chunks_flatten`), and a piece of the text that starts at a multiple of the size is the text of a
part of the list (`Tiled.drop_flatten`, `Tiled.take_flatten`).

`Sealer` says how one segment is sealed and opened. Sealing goes piece by piece: the sealed form of
two lists is that of the first, unmarked, followed by that of the second at the index where the
first ends (`Sealer.sealAll_append`), and a part of a sealed list is a sealed part
(`Sealer.drop_sealAll`, `Sealer.take_sealAll`).
-/

namespace SlogaBackend.Segments

variable {α : Type*}

/-! ## Cutting -/

/-- Cutting with a bound on the number of pieces. -/
def chunksAux (n : ℕ) : ℕ → List α → List (List α)
  | 0, _ => []
  | _, [] => []
  | fuel + 1, a :: l => (a :: l).take n :: chunksAux n fuel ((a :: l).drop n)

/-- Consecutive pieces of `n` elements, the last perhaps shorter. -/
def chunks (n : ℕ) (l : List α) : List (List α) := chunksAux n l.length l

/-- Every piece but the last holds exactly `n` elements, and the last one at most `n` and not
none. -/
inductive Tiled (n : ℕ) : List (List α) → Prop where
  | nil : Tiled n []
  | last {b : List α} (hne : b ≠ []) (hle : b.length ≤ n) : Tiled n [b]
  | cons {b : List α} {bs : List (List α)} (hlen : b.length = n) (hne : bs ≠ [])
      (htail : Tiled n bs) : Tiled n (b :: bs)

variable {n : ℕ} {l b : List α} {bs : List (List α)}

theorem chunksAux_cons (hne : l ≠ []) (fuel : ℕ) :
    chunksAux n (fuel + 1) l = l.take n :: chunksAux n fuel (l.drop n) := by
  cases l with
  | nil => exact absurd rfl hne
  | cons a l => rfl

theorem chunksAux_nil (fuel : ℕ) : chunksAux n fuel ([] : List α) = [] := by
  cases fuel <;> rfl

theorem Tiled.ne_nil (hn : 0 < n) (h : Tiled n (b :: bs)) : b ≠ [] := by
  cases h with
  | last hne hle => exact hne
  | cons hlen hne htl =>
    rintro rfl
    exact absurd hlen (by simpa using hn.ne)

theorem Tiled.tail (h : Tiled n (b :: bs)) : Tiled n bs := by
  cases h with
  | last hne hle => exact Tiled.nil
  | cons hlen hne htl => exact htl

theorem Tiled.length_le (h : Tiled n (b :: bs)) : b.length ≤ n := by
  cases h with
  | last hne hle => exact hle
  | cons hlen hne htl => exact hlen.le

theorem Tiled.length_eq_of_more (h : Tiled n (b :: bs)) (hmo : bs.isEmpty = false) :
    b.length = n := by
  cases h with
  | last hne hle => cases hmo
  | cons hlen hne htl => exact hlen

theorem Tiled.take_drop (h : Tiled n (b :: bs)) :
    (b :: bs).flatten.take n = b ∧ (b :: bs).flatten.drop n = bs.flatten := by
  rw [List.flatten_cons]
  cases h with
  | last hne hle =>
    rw [List.flatten_nil, List.append_nil]
    exact ⟨List.take_of_length_le hle, List.drop_eq_nil_of_le hle⟩
  | cons hlen hne htl => exact ⟨List.take_left' hlen, List.drop_left' hlen⟩

theorem chunksAux_of_tiled (hn : 0 < n) : ∀ {bs : List (List α)} {fuel : ℕ}, Tiled n bs →
    bs.flatten.length ≤ fuel → chunksAux n fuel bs.flatten = bs
  | [], fuel, _, _ => chunksAux_nil fuel
  | b :: bs, fuel, h, hfu => by
    have hb := h.ne_nil hn
    have hpos := List.length_pos_iff.mpr hb
    rw [List.flatten_cons, List.length_append] at hfu
    obtain ⟨fuel, rfl⟩ := Nat.exists_eq_add_one_of_ne_zero (n := fuel) (by omega)
    rw [chunksAux_cons (by simp [hb]), h.take_drop.1, h.take_drop.2,
      chunksAux_of_tiled hn h.tail (by omega)]

/-- **A tiled list is what its text is cut into.** -/
theorem chunks_flatten (hn : 0 < n) (h : Tiled n bs) : chunks n bs.flatten = bs :=
  chunksAux_of_tiled hn h le_rfl

theorem exists_tiled (hn : 0 < n) : ∀ (fuel : ℕ) (l : List α), l.length ≤ fuel →
    ∃ bs, Tiled n bs ∧ bs.flatten = l
  | _, [], _ => ⟨[], Tiled.nil, rfl⟩
  | fuel + 1, a :: l, hfu => by
    by_cases hle : (a :: l).length ≤ n
    · exact ⟨[a :: l], Tiled.last (by simp) hle, by simp⟩
    · obtain ⟨bs, htil, hbs⟩ := exists_tiled hn fuel ((a :: l).drop n) (by
        rw [List.length_drop]
        omega)
      refine ⟨(a :: l).take n :: bs, Tiled.cons ?_ ?_ htil, ?_⟩
      · rw [List.length_take]
        omega
      · rintro rfl
        have hemp := congrArg List.length hbs
        rw [List.flatten_nil, List.length_nil, List.length_drop] at hemp
        omega
      · rw [List.flatten_cons, hbs, List.take_append_drop]

theorem tiled_chunks (hn : 0 < n) (l : List α) : Tiled n (chunks n l) := by
  obtain ⟨bs, htil, rfl⟩ := exists_tiled hn l.length l le_rfl
  rwa [chunks_flatten hn htil]

theorem flatten_chunks (hn : 0 < n) (l : List α) : (chunks n l).flatten = l := by
  obtain ⟨bs, htil, rfl⟩ := exists_tiled hn l.length l le_rfl
  rw [chunks_flatten hn htil]

theorem chunks_ne_nil (hn : 0 < n) (h : l ≠ []) : chunks n l ≠ [] := by
  intro hnil
  have hfl := flatten_chunks hn l
  rw [hnil, List.flatten_nil] at hfl
  exact h hfl.symm

/-! ## Aligned pieces -/

theorem Tiled.length_flatten (hn : 0 < n) : ∀ {bs : List (List α)}, Tiled n bs → bs ≠ [] →
    (bs.length - 1) * n < bs.flatten.length ∧ bs.flatten.length ≤ bs.length * n
  | _, .nil, hne => absurd rfl hne
  | [b], .last hne hle, _ => by
    have hpos := List.length_pos_iff.mpr hne
    simp
    omega
  | b :: bs, .cons hlen hne htl, _ => by
    obtain ⟨hlow, hhg⟩ := htl.length_flatten hn hne
    have hpos := List.length_pos_iff.mpr hne
    rw [List.flatten_cons, List.length_append, List.length_cons, hlen, Nat.add_sub_cancel,
      Nat.succ_mul]
    have hspl : bs.length * n = (bs.length - 1) * n + n := by
      rw [← Nat.succ_mul]
      congr 1
      omega
    omega

/-- **The number of pieces is the length divided by the size, rounded up.** -/
theorem Tiled.length_eq (hn : 0 < n) (h : Tiled n bs) :
    bs.length = (bs.flatten.length + (n - 1)) / n := by
  cases bs with
  | nil =>
    simp
    exact (Nat.div_eq_of_lt (by omega)).symm
  | cons b bs =>
    obtain ⟨hlow, hhg⟩ := h.length_flatten hn (by simp)
    rw [List.length_cons, Nat.add_sub_cancel] at hlow
    rw [List.length_cons] at hhg ⊢
    have hspl : (bs.length + 1) * n = bs.length * n + n := Nat.succ_mul _ _
    have hnx : (bs.length + 1 + 1) * n = bs.length * n + n + n := by rw [Nat.succ_mul, Nat.succ_mul]
    exact (Nat.div_eq_of_lt_le (by omega) (by omega)).symm

theorem Tiled.drop_flatten : ∀ {bs : List (List α)} {k : ℕ}, Tiled n bs →
    bs.flatten.drop (k * n) = (bs.drop k).flatten
  | bs, 0, _ => by rw [Nat.zero_mul, List.drop_zero, List.drop_zero]
  | [], k + 1, _ => by rw [List.flatten_nil, List.drop_nil, List.drop_nil, List.flatten_nil]
  | b :: bs, k + 1, h => by
    rw [List.drop_succ_cons, ← h.tail.drop_flatten, ← h.take_drop.2, List.drop_drop, Nat.succ_mul,
      Nat.add_comm]

theorem Tiled.take_flatten : ∀ {bs : List (List α)} {k : ℕ}, Tiled n bs →
    bs.flatten.take (k * n) = (bs.take k).flatten
  | bs, 0, _ => by rw [Nat.zero_mul, List.take_zero, List.take_zero, List.flatten_nil]
  | [], k + 1, _ => by rw [List.flatten_nil, List.take_nil, List.take_nil, List.flatten_nil]
  | b :: bs, k + 1, h => by
    rw [List.take_succ_cons, List.flatten_cons (L := bs.take k), ← h.tail.take_flatten, Nat.succ_mul,
      Nat.add_comm, List.take_add, h.take_drop.1, h.take_drop.2]

theorem Tiled.drop : ∀ {bs : List (List α)} (k : ℕ), Tiled n bs → Tiled n (bs.drop k)
  | bs, 0, h => h
  | [], k + 1, h => by rwa [List.drop_nil]
  | b :: bs, k + 1, h => by exact h.tail.drop k

theorem Tiled.take (hn : 0 < n) : ∀ {bs : List (List α)} (k : ℕ), Tiled n bs → Tiled n (bs.take k)
  | _, 0, _ => Tiled.nil
  | _, k + 1, .nil => Tiled.nil
  | _, k + 1, .last hne hle => by
    rw [List.take_succ_cons, List.take_nil]
    exact Tiled.last hne hle
  | b :: bs, 1, h => Tiled.last (h.ne_nil hn) h.length_le
  | b :: c :: bs, k + 2, .cons hlen hne htl => by
    refine Tiled.cons hlen ?_ (htl.take hn (k + 1))
    exact List.cons_ne_nil _ _

theorem Tiled.getElem (hn : 0 < n) (h : Tiled n bs) {i : ℕ} (hi : i < bs.length) :
    bs[i] ≠ [] ∧ bs[i].length ≤ n ∧
      (i + 1 < bs.length → bs[i].length = n) ∧ i * n + bs[i].length ≤ bs.flatten.length := by
  have hspl : bs.drop i = bs[i] :: bs.drop (i + 1) := List.drop_eq_getElem_cons hi
  have htl := h.drop i
  rw [hspl] at htl
  have hleng := congrArg List.length (h.drop_flatten (k := i))
  rw [hspl, List.flatten_cons, List.length_drop, List.length_append] at hleng
  have hpos := List.length_pos_iff.mpr (htl.ne_nil hn)
  refine ⟨htl.ne_nil hn, htl.length_le, fun hmo => ?_, by omega⟩
  generalize hrs : bs.drop (i + 1) = rest at htl
  cases htl with
  | last hne hle =>
    have hno := congrArg List.length hrs
    rw [List.length_drop, List.length_nil] at hno
    omega
  | cons hlen hne htl => exact hlen

theorem Tiled.append : ∀ {bs cs : List (List α)}, (∀ b ∈ bs, b.length = n) → cs ≠ [] →
    Tiled n cs → Tiled n (bs ++ cs)
  | [], _, _, _, h => h
  | b :: bs, cs, hbs, hne, h =>
    Tiled.cons (hbs b List.mem_cons_self) (by simp [hne])
      (Tiled.append (fun b' hb' => hbs b' (List.mem_cons_of_mem b hb')) hne h)

theorem Tiled.full (hn : 0 < n) : ∀ {bs : List (List α)} {k : ℕ}, Tiled n bs →
    bs.flatten.length = k * n → ∀ b ∈ bs, b.length = n
  | _, _, .nil, _ => by simp
  | [b], k, .last hne hle, hlen => by
    have hpos := List.length_pos_iff.mpr hne
    rw [List.flatten_cons, List.flatten_nil, List.append_nil] at hlen
    have hk : 0 < k := by
      rcases Nat.eq_zero_or_pos k with rfl | hk
      · omega
      · exact hk
    have hle' := Nat.le_mul_of_pos_left n hk
    simp
    omega
  | b :: bs, k, .cons hb hne htl, hlen => by
    rw [List.flatten_cons, List.length_append, hb] at hlen
    obtain ⟨k, rfl⟩ := Nat.exists_eq_add_one_of_ne_zero (n := k) (by
      rintro rfl
      omega)
    rw [Nat.succ_mul] at hlen
    intro c hc
    rcases List.mem_cons.mp hc with rfl | hc
    · exact hb
    · exact htl.full hn (k := k) (by omega) c hc

/-- **Cutting goes piece by piece** where the first piece is a multiple of the size. -/
theorem chunks_append (hn : 0 < n) {l' : List α} {k : ℕ} (hl : l.length = k * n) (hne : l' ≠ []) :
    chunks n (l ++ l') = chunks n l ++ chunks n l' := by
  have hful := (tiled_chunks hn l).full hn (k := k) (by rw [flatten_chunks hn, hl])
  have htil := Tiled.append hful (chunks_ne_nil hn hne) (tiled_chunks hn l')
  have hcut := chunks_flatten hn htil
  rwa [List.flatten_append, flatten_chunks hn, flatten_chunks hn] at hcut

/-! ## Sealing -/

/-- How one segment is sealed and opened: at its index, with a mark on the last one, and longer by a
constant. -/
structure Sealer (α : Type*) where
  encrypt : ℕ → Bool → List α → List α
  decrypt : ℕ → Bool → List α → Option (List α)
  tag : ℕ
  length_encrypt : ∀ i last s, (encrypt i last s).length = s.length + tag
  decrypt_encrypt : ∀ i last s, decrypt i last (encrypt i last s) = some s

namespace Sealer

variable (c : Sealer α)

/-- Segments sealed one after another from an index on. -/
def sealAll (first : ℕ) (last : Bool) (segments : List (List α)) : List (List α) :=
  segments.mapIdx fun k s => c.encrypt (first + k) (last && k + 1 == segments.length) s

theorem length_sealAll (first : ℕ) (last : Bool) (segments : List (List α)) :
    (c.sealAll first last segments).length = segments.length :=
  List.length_mapIdx

theorem sealAll_singleton (first : ℕ) (last : Bool) (s : List α) :
    c.sealAll first last [s] = [c.encrypt first last s] := by
  simp [sealAll]

/-- **Sealing goes piece by piece.** -/
theorem sealAll_append (first : ℕ) (last : Bool) (xs ys : List (List α))
    (hne : ys ≠ []) : c.sealAll first last (xs ++ ys) =
      c.sealAll first false xs ++ c.sealAll (first + xs.length) last ys := by
  have hpos := List.length_pos_iff.mpr hne
  unfold sealAll
  rw [List.mapIdx_append]
  congr 1
  · refine List.mapIdx_eq_mapIdx_iff.mpr fun k hk => ?_
    have hmr : (k + 1 == (xs ++ ys).length) = false := by
      simp
      omega
    rw [hmr, Bool.and_false, Bool.false_and]
  · refine List.mapIdx_eq_mapIdx_iff.mpr fun k hk => ?_
    have hmr : (k + xs.length + 1 == (xs ++ ys).length) = (k + 1 == ys.length) := by
      rw [List.length_append, Bool.eq_iff_iff, beq_iff_eq, beq_iff_eq]
      omega
    rw [hmr, Nat.add_comm k, Nat.add_assoc]

variable {segments : List (List α)}

theorem drop_sealAll (first : ℕ) (last : Bool) {k : ℕ} (hk : k < segments.length) :
    (c.sealAll first last segments).drop k = c.sealAll (first + k) last (segments.drop k) := by
  have hlen : (segments.take k).length = k := by
    rw [List.length_take]
    omega
  have hspl := c.sealAll_append first last (segments.take k) (segments.drop k)
    (List.ne_nil_of_length_pos (by
      rw [List.length_drop]
      omega))
  rw [List.take_append_drop, hlen] at hspl
  rw [hspl, List.drop_left' (by rw [length_sealAll, hlen])]

theorem take_sealAll (first : ℕ) (last : Bool) {k : ℕ} (hk : k < segments.length) :
    (c.sealAll first last segments).take k = c.sealAll first false (segments.take k) := by
  have hlen : (segments.take k).length = k := by
    rw [List.length_take]
    omega
  have hspl := c.sealAll_append first last (segments.take k) (segments.drop k)
    (List.ne_nil_of_length_pos (by
      rw [List.length_drop]
      omega))
  rw [List.take_append_drop] at hspl
  rw [hspl, List.take_left' (by rw [length_sealAll, hlen])]

theorem sealAll_cons (first : ℕ) (last : Bool) (s : List α) (segments : List (List α)) :
    c.sealAll first last (s :: segments) =
      c.encrypt first (last && segments.isEmpty) s :: c.sealAll (first + 1) last segments := by
  cases segments with
  | nil => simp [sealAll]
  | cons t rest =>
    rw [List.isEmpty_cons, Bool.and_false]
    have hspl := c.sealAll_append first last [s] (t :: rest) (List.cons_ne_nil t rest)
    rwa [sealAll_singleton] at hspl

/-- **Sealed segments are segments of the longer size.** -/
theorem tiled_sealAll (last : Bool) : ∀ {first : ℕ} {segments : List (List α)},
    Tiled n segments → Tiled (n + c.tag) (c.sealAll first last segments)
  | _, _, .nil => Tiled.nil
  | first, [b], .last hne hle => by
    have hpos := List.length_pos_iff.mpr hne
    refine Tiled.last (List.ne_nil_of_length_pos ?_) ?_
    · rw [c.length_encrypt]
      omega
    · rw [c.length_encrypt]
      omega
  | first, b :: bs, .cons hlen hne htl => by
    rw [sealAll_cons, List.isEmpty_eq_false_iff.mpr hne, Bool.and_false]
    refine Tiled.cons (by rw [c.length_encrypt, hlen]) ?_ (tiled_sealAll last htl)
    rw [ne_eq, ← List.length_eq_zero_iff, length_sealAll, List.length_eq_zero_iff]
    exact hne

theorem length_flatten_sealAll (first : ℕ) (last : Bool) : ∀ segments : List (List α),
    (c.sealAll first last segments).flatten.length =
      segments.flatten.length + segments.length * c.tag := by
  intro segments
  have hleng : (c.sealAll first last segments).map List.length =
      segments.map fun s => s.length + c.tag := by
    refine List.ext_getElem (by simp [sealAll]) fun k hk hk' => ?_
    simp [sealAll, c.length_encrypt]
  rw [List.length_flatten, hleng, List.length_flatten]
  clear hleng
  induction segments with
  | nil => simp
  | cons s segments ih =>
    simp only [List.map_cons, List.sum_cons, List.length_cons, ih, Nat.succ_mul]
    omega

end Sealer

end SlogaBackend.Segments
