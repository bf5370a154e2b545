import SlogaBackend.Lib.Excision

/-!
# The name filter

`contains_blocked_slur` cuts the exempt words out of the dense form of a name before it looks for
the blocked terms. A slur that begins or ends inside an exempt word goes with it, and one is made
where the two sides of an exempt word meet. `exemption_holds_iff` says when the exemption hides
and makes nothing.
-/

namespace SlogaBackend.Names

/-! ## The code -/

def substringTerms : List String :=
  ["nigger", "nigga", "niggah", "niqqa", "niqqer", "niglet", "nignog", "wigger", "chinaman",
    "wetback", "raghead", "towelhead", "zipperhead", "cameljockey", "mudslime", "porchmonkey",
    "junglebunny", "spearchucker", "pickaninny", "jigaboo", "tarbaby", "groid", "halfbreed",
    "halfcaste", "slanteye", "faggot", "faggit", "faget", "bulldyke", "carpetmuncher",
    "fudgepacker", "shirtlifter", "poofter", "battyboy", "battyman", "nancyboy", "ladyboy",
    "shemale"]

def wordTerms : List String :=
  ["spic", "chink", "gook", "jap", "paki", "kike", "yid", "heeb", "hymie", "shylock", "coon",
    "wop", "dago", "kraut", "polack", "honky", "honkey", "whitey", "wog", "kaffir", "abbo", "abo",
    "gyppo", "gypo", "gippo", "pikey", "sambo", "injun", "redskin", "squaw", "coolie", "beaner",
    "muzzie", "fag", "fagg", "fagot", "faggy", "dyke", "homo", "tranny", "trannie"]

def exemptSubstrings : List String := ["snigger"]

/-- `stretch`: the front of a text is the letters of a term, each once or more. -/
def stretchedPrefix : List Char → List Char → Bool
  | [], _ => true
  | _ :: _, [] => false
  | c :: term, d :: text => c == d && (stretchedPrefix term text || stretchedPrefix (c :: term) text)

/-- `SUBSTRING_PATTERN.is_match`. -/
def substringPattern (dense : List Char) : Bool :=
  dense.tails.any fun text => substringTerms.any fun term => stretchedPrefix term.toList text

/-- `WORD_PATTERN.is_match`: a whole term, with an `s` or a `z` after it or not. -/
def wordPattern (word : List Char) : Bool :=
  wordTerms.any fun term =>
    word == term.toList || word == term.toList ++ ['s'] || word == term.toList ++ ['z']

def unleet : Char → Option Char
  | '0' => some 'o'
  | '1' | '!' | '|' => some 'i'
  | '2' => some 'z'
  | '3' => some 'e'
  | '4' | '@' => some 'a'
  | '5' | '$' => some 's'
  | '6' | '9' => some 'g'
  | '7' | '+' => some 't'
  | '8' => some 'b'
  | _ => none

structure FoldedName where
  dense : List Char
  words : List (List Char)

/-- What the loop of `fold` carries. -/
structure Folding where
  words : List (List Char) := []
  current : List Char := []
  previousWasLower : Bool := false

/-- `words.push(take(&mut current))`, unless there is nothing to push. -/
def Folding.take (f : Folding) : List (List Char) :=
  if f.current.isEmpty then f.words else f.words ++ [f.current]

def Folding.push (f : Folding) (character : Char) : Folding :=
  let letter := if character.isAlpha then some character.toLower else unleet character
  match letter with
  | some letter =>
    -- a letter is ASCII here, so that its case is that of `Char.isUpper`
    if character.isUpper && f.previousWasLower then ⟨f.take, [letter], !character.isUpper⟩
    else ⟨f.words, f.current ++ [letter], !character.isUpper⟩
  | none => ⟨f.take, [], false⟩

/-- The two forms a name is matched in. `cure` is the crate that folds Unicode to ASCII. -/
def fold (cure : String → Option String) (name : String) : FoldedName :=
  let cured := (cure name).getD name
  let words := (cured.toList.foldl Folding.push {}).take
  let dense := words.flatten
  let words := if words.length > 1 then words ++ [dense] else words
  ⟨dense, if name.toList.any Char.isAlpha then words else []⟩

/-- The exempt words taken out of the dense form. -/
def withoutExempt (dense : List Char) : List Char :=
  exemptSubstrings.foldl (fun dense exempt => Excision.excise exempt.toList dense) dense

def containsBlockedSlur (cure : String → Option String) (name : String) : Bool :=
  let folded := fold cure name
  substringPattern (withoutExempt folded.dense) || folded.words.any wordPattern

/-! ## What the filter finds -/

/-- The texts a stretched term matches. -/
inductive Stretched : List Char → List Char → Prop
  | nil : Stretched [] []
  | one {c term text} : Stretched term text → Stretched (c :: term) (c :: text)
  | more {c term text} : Stretched (c :: term) text → Stretched (c :: term) (c :: text)

theorem stretchedPrefix_iff {term text : List Char} :
    stretchedPrefix term text = true ↔ ∃ m, Stretched term m ∧ m <+: text := by
  induction term, text using stretchedPrefix.induct with
  | case1 text => exact ⟨fun _ => ⟨[], .nil, List.nil_prefix⟩, fun _ => by rw [stretchedPrefix]⟩
  | case2 c term =>
    refine ⟨nofun, fun ⟨m, hm, hin⟩ => ?_⟩
    cases List.prefix_nil.mp hin
    cases hm
  | case3 c term d text ihone ihmore =>
    rw [stretchedPrefix, Bool.and_eq_true, Bool.or_eq_true, ihone, ihmore, beq_iff_eq]
    constructor
    · rintro ⟨rfl, ⟨m, hm, hin⟩ | ⟨m, hm, hin⟩⟩
      · exact ⟨c :: m, .one hm, List.cons_prefix_cons.mpr ⟨rfl, hin⟩⟩
      · exact ⟨c :: m, .more hm, List.cons_prefix_cons.mpr ⟨rfl, hin⟩⟩
    · rintro ⟨m, hm, hin⟩
      cases hm with
      | one hm =>
        obtain ⟨rfl, hrs⟩ := List.cons_prefix_cons.mp hin
        exact ⟨rfl, .inl ⟨_, hm, hrs⟩⟩
      | more hm =>
        obtain ⟨rfl, hrs⟩ := List.cons_prefix_cons.mp hin
        exact ⟨rfl, .inr ⟨_, hm, hrs⟩⟩

/-- A match of a blocked term, its letters stretched. -/
def Blocked (m : List Char) : Prop := ∃ term ∈ substringTerms, Stretched term.toList m

theorem Stretched.refl : ∀ term, Stretched term term
  | [] => nil
  | _ :: term => one (refl term)

theorem not_blocked_nil : ¬ Blocked [] := by
  rintro ⟨term, htr, hm⟩
  have hne : ∀ term ∈ substringTerms, term.toList ≠ [] := by decide
  cases hls : term.toList with
  | nil => exact hne term htr hls
  | cons => rw [hls] at hm; cases hm

theorem substringPattern_iff {dense : List Char} :
    substringPattern dense = true ↔ ∃ m, Blocked m ∧ m <:+: dense := by
  simp only [substringPattern, List.any_eq_true, List.mem_tails, stretchedPrefix_iff,
    List.infix_iff_prefix_suffix, Blocked]
  constructor
  · rintro ⟨text, hsuf, term, htr, m, hm, hin⟩
    exact ⟨m, ⟨term, htr, hm⟩, text, hin, hsuf⟩
  · rintro ⟨m, ⟨term, htr, hm⟩, text, hin, hsuf⟩
    exact ⟨text, hsuf, term, htr, m, hm, hin⟩

/-! ## The exemption -/

section Exemption

variable (dense : List Char)

/-- An occurrence of an exempt word. -/
def Exempt (exempt : List Char) (k : Nat) : Prop :=
  exempt ∈ exemptSubstrings.map String.toList ∧ exempt <+: dense.drop k

/-- A match that is not wholly inside an exempt word. -/
def MatchedAt (n : Nat) (m : List Char) : Prop :=
  Blocked m ∧ m <+: dense.drop n ∧
    ∀ exempt k, Exempt dense exempt k → ¬ (k ≤ n ∧ n + m.length ≤ k + exempt.length)

/-- A match apart from the exempt words. -/
def MatchedClear : Prop :=
  ∃ n m, Blocked m ∧ m <+: dense.drop n ∧
    ∀ exempt k, Exempt dense exempt k → n + m.length ≤ k ∨ k + exempt.length ≤ n

/-- A match that leaves an exempt word or enters one. -/
def MatchedAstride : Prop :=
  ∃ n m, MatchedAt dense n m ∧
    ∃ exempt k, Exempt dense exempt k ∧ k < n + m.length ∧ n < k + exempt.length

/-- A match that is joined from the two sides of an exempt word, cut out as the others are. -/
def MatchedAcross : Prop :=
  ∃ exempt ∈ exemptSubstrings.map String.toList, ∃ before after x y,
    dense = before ++ (exempt ++ after) ∧ x ≠ [] ∧ y ≠ [] ∧ Blocked (x ++ y) ∧
      x <:+ withoutExempt before ∧ y <+: withoutExempt after

variable {dense}

theorem forall_exempt {P : List Char → Nat → Prop} :
    (∀ exempt k, Exempt dense exempt k → P exempt k) ↔
      ∀ k, "snigger".toList <+: dense.drop k → P "snigger".toList k := by
  constructor
  · exact fun h k hk => h _ k ⟨List.mem_singleton_self _, hk⟩
  · rintro h exempt k ⟨hexe, hk⟩
    cases List.mem_singleton.mp hexe
    exact h k hk

theorem matchedAt_iff :
    (∃ n m, MatchedAt dense n m) ↔ MatchedClear dense ∨ MatchedAstride dense := by
  constructor
  · rintro ⟨n, m, hat⟩
    by_cases h : ∃ exempt k, Exempt dense exempt k ∧ k < n + m.length ∧ n < k + exempt.length
    · exact .inr ⟨n, m, hat, h⟩
    · refine .inl ⟨n, m, hat.1, hat.2.1, fun exempt k hexe => ?_⟩
      by_contra hnot
      exact h ⟨exempt, k, hexe, by omega⟩
  · rintro (⟨n, m, hm, hin, hcle⟩ | ⟨n, m, hat, -⟩)
    · have hpos : 0 < m.length := List.length_pos_iff.mpr fun hnil => not_blocked_nil (hnil ▸ hm)
      refine ⟨n, m, hm, hin, fun exempt k hexe => ?_⟩
      have := hcle exempt k hexe
      omega
    · exact ⟨n, m, hat⟩

theorem substringPattern_withoutExempt_iff :
    substringPattern (withoutExempt dense) = true ↔ MatchedClear dense ∨ MatchedAcross dense := by
  have hcut : (∃ m, Blocked m ∧ m <:+: Excision.excise "snigger".toList dense) ↔ _ :=
    Excision.match_excise_iff (by decide) (by decide)
  rw [substringPattern_iff]
  refine hcut.trans (or_congr ?_ ?_)
  · simp only [Excision.Clear, MatchedClear, forall_exempt]
  · simp only [Excision.Joined, MatchedAcross, exemptSubstrings, List.map_cons, List.map_nil,
      List.mem_singleton, exists_eq_left, withoutExempt, List.foldl_cons, List.foldl_nil]

end Exemption

/-- The exemption hides nothing that is not inside an exempt word, and makes nothing. -/
def ExemptionHolds (cure : String → Option String) (name : String) : Prop :=
  let folded := fold cure name
  ((∃ n m, MatchedAt folded.dense n m) → containsBlockedSlur cure name = true) ∧
    ((¬ ∃ n m, MatchedAt folded.dense n m) → folded.words.any wordPattern = false →
      containsBlockedSlur cure name = false)

/-- **The exemption holds** for a name that has a token term or a match apart from the exempt
words, and for another when a match leaves or enters an exempt word exactly if one is joined. -/
theorem exemption_holds_iff (cure : String → Option String) (name : String) :
    ExemptionHolds cure name ↔
      (fold cure name).words.any wordPattern = true ∨ MatchedClear (fold cure name).dense ∨
        (MatchedAstride (fold cure name).dense ↔ MatchedAcross (fold cure name).dense) := by
  simp only [ExemptionHolds, containsBlockedSlur, matchedAt_iff, Bool.or_eq_true,
    substringPattern_withoutExempt_iff, ← Bool.not_eq_true]
  tauto

/-- The slur goes with the exempt word it begins in. -/
theorem slur_goes_with_exempt_word : ¬ ExemptionHolds some "sniggeraghead" := by
  intro h
  have hblocked : containsBlockedSlur some "sniggeraghead" = false := by decide
  refine absurd (h.1 ⟨6, "raghead".toList, ⟨_, by decide, Stretched.refl _⟩, by decide, ?_⟩)
    (Bool.eq_false_iff.mp hblocked)
  rw [forall_exempt]
  rintro k hk ⟨hle, hge⟩
  obtain rfl : k = 6 := le_antisymm hle (by simpa using hge)
  revert hk
  decide

end SlogaBackend.Names
