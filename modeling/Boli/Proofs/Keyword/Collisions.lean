import Boli.Keyword.File
import Boli.Proofs.Results
import Boli.Proofs.Template

/-!
# Collisions in keyword files

A word collides if it is given two keywords, or another one than it spells in the standard table. A
configuration reports just the words that collide in it (`exists_collision_iff`). The keys of a file
become groups of spellings first, and of two keys with one group the later one replaces the earlier.
So the collisions that are reported are those among the groups that are left (`latest`), and one
between two keys that differ in blanks and empty parts alone is lost (`not_collisions_reported`). No
other one is, and without collisions the table spells what the file says
(`collisions_reported_iff`).
-/

set_option autoImplicit false

namespace Boli

/-! ## Entries that are not replaced -/

namespace Dictionary

variable {κ ν : Type} [DecidableEq κ]

/-- A new key is put behind all others. -/
theorem put_of_notMem {k : κ} (v : ν) {d : Dictionary κ ν} (h : k ∉ d.keys) :
    put k v d = d ++ [(k, v)] := by
  induction d with
  | nil => rfl
  | cons e rest ih =>
    have hne : e.1 ≠ k := (List.ne_of_not_mem_cons h).symm
    have hrest : k ∉ keys rest := List.not_mem_of_not_mem_cons h
    rw [put, if_neg hne, ih hrest, List.cons_append]

/-- Entries of new keys are put behind all others. -/
theorem putAll_of_nodup {d es : Dictionary κ ν} (h : (keys (d ++ es)).Nodup) :
    d.putAll es = d ++ es := by
  induction es generalizing d with
  | nil => exact (List.append_nil d).symm
  | cons e rest ih =>
    have hnot : e.1 ∉ d.keys := by
      rw [keys, List.map_append, List.map_cons] at h
      exact fun hmem => (List.nodup_append.mp h).2.2 _ hmem _ List.mem_cons_self rfl
    have hstep : d ++ e :: rest = put e.1 e.2 d ++ rest := by
      rw [put_of_notMem e.2 hnot, List.append_assoc]
      rfl
    rw [hstep] at h ⊢
    exact ih h

/-- The entries behind which their key does not come again. -/
def latest : List (κ × ν) → Dictionary κ ν
  | [] => []
  | e :: es => if e.1 ∈ keys es then latest es else e :: latest es

theorem mem_keys_latest {k : κ} {es : List (κ × ν)} : k ∈ keys (latest es) ↔ k ∈ keys es := by
  induction es with
  | nil => exact Iff.rfl
  | cons e es ih =>
    rw [latest]
    by_cases he : e.1 ∈ keys es
    · rw [if_pos he, ih]
      constructor
      · intro hk
        exact List.mem_cons_of_mem _ hk
      · intro hk
        rcases List.mem_cons.mp hk with rfl | hk
        · exact he
        · exact hk
    · rw [if_neg he]
      show k ∈ e.1 :: keys (latest es) ↔ k ∈ e.1 :: keys es
      rw [List.mem_cons, List.mem_cons, ih]

theorem nodup_keys_latest (es : List (κ × ν)) : (keys (latest es)).Nodup := by
  induction es with
  | nil => exact List.nodup_nil
  | cons e es ih =>
    rw [latest]
    by_cases he : e.1 ∈ keys es
    · rw [if_pos he]
      exact ih
    · rw [if_neg he]
      exact List.nodup_cons.mpr ⟨fun hmem => he (mem_keys_latest.mp hmem), ih⟩

theorem latest_eq_self {es : List (κ × ν)} (h : (keys es).Nodup) : latest es = es := by
  induction es with
  | nil => rfl
  | cons e es ih =>
    obtain ⟨hnot, hes⟩ := List.nodup_cons.mp h
    have he : e.1 ∉ keys es := hnot
    rw [latest, if_neg he, ih hes]

theorem mem_of_mem_latest {e : κ × ν} {es : List (κ × ν)} (h : e ∈ latest es) : e ∈ es := by
  induction es with
  | nil => exact h
  | cons e' es ih =>
    rw [latest] at h
    by_cases he : e'.1 ∈ keys es
    · rw [if_pos he] at h
      exact List.mem_cons_of_mem _ (ih h)
    · rw [if_neg he] at h
      rcases List.mem_cons.mp h with rfl | h
      · exact List.mem_cons_self
      · exact List.mem_cons_of_mem _ (ih h)

/-- Where entries are put one after the other, the latest one of a key stays. -/
theorem get?_putAll (k : κ) (es : List (κ × ν)) (d : Dictionary κ ν) :
    (d.putAll es).get? k = (get? k (latest es)).or (d.get? k) := by
  induction es generalizing d with
  | nil => rfl
  | cons e es ih =>
    have hstep : (d.putAll (e :: es)).get? k =
        (get? k (latest es)).or (if e.1 = k then some e.2 else d.get? k) := by
      rw [← get?_put]
      exact ih (put e.1 e.2 d)
    rw [hstep, latest]
    by_cases he : e.1 ∈ keys es
    · rw [if_pos he]
      by_cases hk : e.1 = k
      · obtain ⟨v, hv⟩ := Option.isSome_iff_exists.mp
          (get?_isSome_iff.mpr (mem_keys_latest.mpr (hk ▸ he)))
        rw [hv, Option.some_or, Option.some_or]
      · rw [if_neg hk]
    · rw [if_neg he, get?]
      by_cases hk : e.1 = k
      · have hnone : get? k (latest es) = none :=
          get?_eq_none fun hmem => he (hk ▸ mem_keys_latest.mp hmem)
        rw [if_pos hk, if_pos hk, hnone, Option.none_or, Option.some_or]
      · rw [if_neg hk, if_neg hk]

theorem mem_putAll_nil {e : κ × ν} {es : List (κ × ν)} :
    e ∈ putAll [] es ↔ e ∈ latest es := by
  obtain ⟨k, v⟩ := e
  have hget : get? k (putAll [] es) = get? k (latest es) := by
    rw [get?_putAll, get?, Option.or_none]
  constructor
  · intro h
    exact mem_of_get? (hget ▸ get?_of_mem (nodup_keys_putAll es List.nodup_nil) h)
  · intro h
    exact mem_of_get? (hget.trans (get?_of_mem (nodup_keys_latest es) h))

end Dictionary

namespace Keyword

open Dictionary
open Table (Layering)

/-! ## What words are given -/

/-- Groups of spellings with the values that name their keywords, in order. -/
abbrev Groups : Type := List (List String × Json)

/-- One of the groups gives a keyword to a word. -/
def Gives (groups : Groups) (word : String) (k : Keyword) : Prop :=
  ∃ group ∈ groups, word ∈ group.1 ∧ group.2 = .text k.name

/-- A word is given two keywords, or another one than it spells in the table. -/
def Clashes (t : Table) (groups : Groups) (word : String) : Prop :=
  ∃ k k', k ≠ k' ∧ Gives groups word k ∧ (Gives groups word k' ∨ t.lookup word = some k')

/-- All values of groups name keywords. -/
def Valid (groups : Groups) : Prop := ∀ group ∈ groups, ∃ k : Keyword, group.2 = .text k.name

/-- The words of one group with its keyword. -/
def pairsOf (group : List String × Json) : List (String × Keyword) :=
  match Keyword.ofJson none group.2 with
  | .ok k => group.1.map (·, k)
  | .error _ => []

/-- The words of groups with their keywords, in order. -/
def pairs (groups : Groups) : List (String × Keyword) := groups.flatMap pairsOf

theorem ofJson_name (word : Option String) (k : Keyword) :
    Keyword.ofJson word (.text k.name) = .ok k := by
  rw [Keyword.ofJson, ofName?_name]

theorem eq_name_of_ofJson {word : Option String} {v : Json} {k : Keyword}
    (h : Keyword.ofJson word v = .ok k) : v = .text k.name := by
  unfold Keyword.ofJson at h
  split at h
  next => cases h
  next => cases h
  next s =>
    split at h
    next k' hname =>
      cases h
      rw [name_of_ofName? hname]
    next => cases h
  next => cases h

theorem mem_pairs_iff {groups : Groups} {word : String} {k : Keyword} :
    (word, k) ∈ pairs groups ↔ Gives groups word k := by
  constructor
  · intro h
    obtain ⟨group, hgroup, hmem⟩ := List.mem_flatMap.mp h
    rw [pairsOf] at hmem
    split at hmem
    next k' hk =>
      obtain ⟨w, hw, heq⟩ := List.mem_map.mp hmem
      cases heq
      exact ⟨group, hgroup, hw, eq_name_of_ofJson hk⟩
    next => cases hmem
  · intro h
    obtain ⟨group, hgroup, hword, hvalue⟩ := h
    apply List.mem_flatMap.mpr
    refine ⟨group, hgroup, ?_⟩
    rw [pairsOf, hvalue, ofJson_name]
    exact List.mem_map.mpr ⟨word, hword, rfl⟩

/-- A word that is given a keyword is given a first one. -/
theorem exists_get?_pairs {groups : Groups} {word : String} {k : Keyword} (h : Gives groups word k) :
    ∃ first, get? word (pairs groups) = some first ∧ Gives groups word first := by
  have hkeys : word ∈ keys (pairs groups) := List.mem_map.mpr ⟨_, mem_pairs_iff.mpr h, rfl⟩
  obtain ⟨first, hfirst⟩ := Option.isSome_iff_exists.mp (get?_isSome_iff.mpr hkeys)
  exact ⟨first, hfirst, mem_pairs_iff.mp (mem_of_get? hfirst)⟩

/-! ## Layering -/

/-- What a word spells in a table with the words added so far. -/
def spelled (t : Table) (l : Layering) (word : String) : Option Keyword :=
  (l.added.get? word).or (t.lookup word)

/-- Gives words to keywords one after the other. -/
def giveAll (t : Table) (l : Layering) (ps : List (String × Keyword)) : Layering :=
  ps.foldl (fun l p => t.give p.2 l p.1) l

section Layering

variable {t : Table} {k : Keyword} {l : Layering} {word : String} {ps : List (String × Keyword)}

/-- A word that spells nothing, or what it is given, is added; any other one collides. -/
theorem give_cases (t : Table) (k : Keyword) (l : Layering) (word : String) :
    ((∀ previous, spelled t l word = some previous → previous = k) ∧
      t.give k l word = { l with added := l.added.put word k }) ∨
    ∃ previous, spelled t l word = some previous ∧ previous ≠ k ∧
      t.give k l word = { l with collisions := l.collisions ++ [⟨word, previous, k⟩] } := by
  unfold Table.give
  cases hspelled : spelled t l word with
  | none =>
    rw [spelled] at hspelled
    rw [hspelled]
    exact .inl ⟨nofun, rfl⟩
  | some previous =>
    rw [spelled] at hspelled
    rw [hspelled]
    by_cases hk : previous = k
    · left
      constructor
      · intro previous' heq
        rw [← Option.some.inj heq, hk]
      · exact if_pos hk
    · exact .inr ⟨previous, rfl, hk, if_neg hk⟩

/-- A word keeps what it spells, and spells what it is first given if it spells nothing. -/
theorem spelled_give (given : String) :
    spelled t (t.give k l given) word =
      (spelled t l word).or (if given = word then some k else none) := by
  rcases give_cases t k l given with ⟨hsame, hgive⟩ | ⟨previous, hprevious, -, hgive⟩
  · rw [hgive, spelled, get?_put]
    by_cases hword : given = word
    · subst hword
      rw [if_pos rfl, if_pos rfl, Option.some_or]
      cases hspelled : spelled t l given with
      | none => rfl
      | some previous =>
        rw [hsame previous hspelled]
        rfl
    · rw [if_neg hword, if_neg hword, Option.or_none, spelled]
  · rw [hgive]
    by_cases hword : given = word
    · subst hword
      show spelled t l given = _
      rw [hprevious, Option.some_or]
    · rw [if_neg hword, Option.or_none]
      rfl

/-- A word collides where it spells another keyword than it is given. -/
theorem exists_collision_give (given : String) :
    (∃ c ∈ (t.give k l given).collisions, c.word = word) ↔
      (∃ c ∈ l.collisions, c.word = word) ∨
        given = word ∧ ∃ previous, spelled t l word = some previous ∧ previous ≠ k := by
  rcases give_cases t k l given with ⟨hsame, hgive⟩ | ⟨previous, hprevious, hne, hgive⟩
  · rw [hgive]
    constructor
    · intro h
      exact .inl h
    · intro h
      rcases h with h | ⟨rfl, previous, hprevious, hne⟩
      · exact h
      · exact absurd (hsame previous hprevious) hne
  · rw [hgive]
    constructor
    · intro h
      obtain ⟨c, hc, hword⟩ := h
      rcases List.mem_append.mp hc with hc | hc
      · exact .inl ⟨c, hc, hword⟩
      · rw [List.mem_singleton.mp hc] at hword
        subst hword
        exact .inr ⟨rfl, previous, hprevious, hne⟩
    · intro h
      rcases h with ⟨c, hc, hword⟩ | ⟨rfl, -⟩
      · exact ⟨c, List.mem_append_left _ hc, hword⟩
      · exact ⟨_, List.mem_append_right _ List.mem_cons_self, rfl⟩

theorem spelled_giveAll :
    spelled t (giveAll t l ps) word = (spelled t l word).or (get? word ps) := by
  induction ps generalizing l with
  | nil => exact (Option.or_none).symm
  | cons p ps ih =>
    show spelled t (giveAll t (t.give p.2 l p.1) ps) word = _
    rw [ih, spelled_give, Option.or_assoc, get?]
    by_cases hp : p.1 = word
    · rw [if_pos hp, if_pos hp, Option.some_or]
    · rw [if_neg hp, if_neg hp, Option.none_or]

/-- In a run a word collides with the first keyword that it spells. -/
theorem exists_collision_giveAll :
    (∃ c ∈ (giveAll t l ps).collisions, c.word = word) ↔
      (∃ c ∈ l.collisions, c.word = word) ∨
        ∃ k previous, (word, k) ∈ ps ∧ (spelled t l word).or (get? word ps) = some previous ∧
          previous ≠ k := by
  induction ps generalizing l with
  | nil => simp [giveAll]
  | cons p ps ih =>
    have hfirst : (spelled t (t.give p.2 l p.1) word).or (get? word ps) =
        (spelled t l word).or (get? word (p :: ps)) := by
      rw [← spelled_giveAll, ← spelled_giveAll]
      rfl
    show (∃ c ∈ (giveAll t (t.give p.2 l p.1) ps).collisions, c.word = word) ↔ _
    rw [ih, exists_collision_give, hfirst, or_assoc]
    apply or_congr_right
    constructor
    · intro h
      rcases h with ⟨hp, previous, hprevious, hne⟩ | ⟨k, previous, hk, hprevious, hne⟩
      · refine ⟨p.2, previous, ?_, ?_, hne⟩
        · rw [← hp]
          exact List.mem_cons_self
        · rw [hprevious, Option.some_or]
      · exact ⟨k, previous, List.mem_cons_of_mem _ hk, hprevious, hne⟩
    · intro h
      obtain ⟨k, previous, hk, hprevious, hne⟩ := h
      rcases List.mem_cons.mp hk with rfl | hk
      · left
        refine ⟨rfl, previous, ?_, hne⟩
        cases hspelled : spelled t l word with
        | none =>
          -- the word would spell what it is given
          rw [hspelled, Option.none_or, get?, if_pos rfl] at hprevious
          exact absurd (Option.some.inj hprevious).symm hne
        | some first =>
          rw [hspelled, Option.some_or] at hprevious
          exact hprevious
      · exact .inr ⟨k, previous, hk, hprevious, hne⟩

end Layering

theorem spelled_nothing (t : Table) (word : String) : spelled t {} word = t.lookup word := rfl

/-- The words that collide in a run are those that clash in what it is given. -/
theorem exists_collision_iff (t : Table) (groups : Groups) (word : String) :
    (∃ c ∈ (giveAll t {} (pairs groups)).collisions, c.word = word) ↔ Clashes t groups word := by
  rw [exists_collision_giveAll, spelled_nothing]
  constructor
  · intro h
    rcases h with ⟨c, hc, -⟩ | ⟨k, previous, hk, hprevious, hne⟩
    · cases hc
    · refine ⟨k, previous, Ne.symm hne, mem_pairs_iff.mp hk, ?_⟩
      cases hlookup : t.lookup word with
      | none =>
        rw [hlookup, Option.none_or] at hprevious
        exact .inl (mem_pairs_iff.mp (mem_of_get? hprevious))
      | some first =>
        rw [hlookup, Option.some_or] at hprevious
        exact .inr hprevious
  · intro h
    obtain ⟨k, k', hne, hk, hk'⟩ := h
    right
    have hmem := mem_pairs_iff.mpr hk
    obtain ⟨first, hfirst, -⟩ := exists_get?_pairs hk
    cases hlookup : t.lookup word with
    | none =>
      rw [Option.none_or]
      by_cases hsame : first = k
      · rw [hlookup] at hk'
        exact ⟨k', first, mem_pairs_iff.mpr (hk'.resolve_right nofun), hfirst, hsame ▸ hne⟩
      · exact ⟨k, first, hmem, hfirst, hsame⟩
    | some spelling =>
      rw [Option.some_or]
      by_cases hsame : spelling = k
      · rcases hk' with hk' | hk'
        · exact ⟨k', spelling, mem_pairs_iff.mpr hk', rfl, hsame ▸ hne⟩
        · rw [hlookup] at hk'
          exact absurd (hsame.symm.trans (Option.some.inj hk')) hne
      · exact ⟨k, spelling, hmem, rfl, hsame⟩

/-- Where a word does not clash, it spells what the table says and what it is given. -/
theorem spelled_eq_some_iff {t : Table} {groups : Groups} {word : String}
    (h : ¬ Clashes t groups word) (k : Keyword) :
    spelled t (giveAll t {} (pairs groups)) word = some k ↔
      t.lookup word = some k ∨ Gives groups word k := by
  rw [spelled_giveAll, spelled_nothing, ← mem_pairs_iff]
  cases hlookup : t.lookup word with
  | none =>
    rw [Option.none_or]
    constructor
    · intro hget
      exact .inr (mem_of_get? hget)
    · intro hk
      have hgives := mem_pairs_iff.mp (hk.resolve_left nofun)
      obtain ⟨first, hfirst, hgivesFirst⟩ := exists_get?_pairs hgives
      by_cases hsame : k = first
      · rw [hsame]
        exact hfirst
      · exact absurd ⟨k, first, hsame, hgives, .inl hgivesFirst⟩ h
  | some spelling =>
    rw [Option.some_or]
    constructor
    · intro hk
      exact .inl hk
    · intro hk
      rcases hk with hk | hmem
      · exact hk
      · by_cases hsame : k = spelling
        · rw [hsame]
        · exact absurd ⟨k, spelling, hsame, mem_pairs_iff.mp hmem, .inr hlookup⟩ h

/-! ## Configurations -/

theorem wordsOfAll_map_word (words : List String) :
    Alias.wordsOfAll (words.map .word) = words := by
  induction words with
  | nil => rfl
  | cons word words ih =>
    rw [List.map_cons, Alias.wordsOfAll, ih]
    rfl

/-- The groups of spellings in a configuration. -/
def Configuration.groups (c : Configuration) : Groups := c.map fun e => (e.1.words, e.2)

/-- Where all values name keywords, a configuration gives all words of its groups. -/
theorem layer_groups (t : Table) {c : Configuration} (h : Valid c.groups) (l : Layering) :
    t.layer c l = .ok (giveAll t l (pairs c.groups)) := by
  induction c generalizing l with
  | nil => rfl
  | cons e c ih =>
    obtain ⟨k, hk⟩ : ∃ k : Keyword, e.2 = .text k.name := h (e.1.words, e.2) List.mem_cons_self
    have hrest : Valid (Configuration.groups c) := fun g hg => h g (List.mem_cons_of_mem _ hg)
    have hpairs : pairs (Configuration.groups (e :: c)) =
        e.1.words.map (·, k) ++ pairs (Configuration.groups c) := by
      show pairsOf (e.1.words, e.2) ++ pairs (Configuration.groups c) = _
      rw [pairsOf, hk, ofJson_name]
    show (do
      let k ← Keyword.ofJson none e.2
      t.layer c (e.1.words.foldl (t.give k) l)) = _
    rw [hk, ofJson_name, Results.ok_bind, ih hrest, hpairs, giveAll, giveAll, List.foldl_append,
      List.foldl_map]

theorem nodup_added {t : Table} {ps : List (String × Keyword)} {l : Layering}
    (h : l.added.keys.Nodup) : (giveAll t l ps).added.keys.Nodup := by
  induction ps generalizing l with
  | nil => exact h
  | cons p ps ih =>
    show (giveAll t (t.give p.2 l p.1) ps).added.keys.Nodup
    rcases give_cases t p.2 l p.1 with ⟨-, hgive⟩ | ⟨previous, -, -, hgive⟩
    · rw [hgive]
      exact ih (nodup_keys_put _ _ h)
    · rw [hgive]
      exact ih h

theorem mem_keys_added {t : Table} {ps : List (String × Keyword)} {l : Layering} {word : String}
    (h : word ∈ (giveAll t l ps).added.keys) : word ∈ l.added.keys ∨ word ∈ keys ps := by
  induction ps generalizing l with
  | nil => exact .inl h
  | cons p ps ih =>
    change word ∈ (giveAll t (t.give p.2 l p.1) ps).added.keys at h
    rcases give_cases t p.2 l p.1 with ⟨-, hgive⟩ | ⟨previous, -, -, hgive⟩
    · rw [hgive] at h
      rcases ih h with hadded | hps
      · rw [keys_put] at hadded
        split at hadded
        next => exact .inl hadded
        next =>
          rcases List.mem_append.mp hadded with hadded | hadded
          · exact .inl hadded
          · rw [List.mem_singleton.mp hadded]
            exact .inr List.mem_cons_self
      · exact .inr (List.mem_cons_of_mem _ hps)
    · rw [hgive] at h
      rcases ih h with hadded | hps
      · exact .inl hadded
      · exact .inr (List.mem_cons_of_mem _ hps)

theorem Table.eq_of_entries_eq {t t' : Table} (h : t.entries = t'.entries) : t = t' := by
  cases t
  cases t'
  cases h
  rfl

/-- A table has the entries that it is made of. -/
theorem ofWords_eq_ok_iff {t : Table} {entries : Dictionary String Keyword}
    {nodup : entries.keys.Nodup} : Table.ofWords entries nodup = .ok t ↔ t.entries = entries := by
  unfold Table.ofWords
  split
  next e he =>
    constructor
    · intro h
      cases h
    · rintro rfl
      have hno := List.find?_some he
      rw [t.isWord_of_mem e (List.mem_of_find?_eq_some he)] at hno
      cases hno
  next =>
    constructor
    · intro h
      cases h
      rfl
    · intro h
      exact congrArg Except.ok (Table.eq_of_entries_eq h.symm)

/-- A table is extended as soon as the further words can be spelled. -/
theorem extend_eq_ok_iff {t t' : Table} {added : Dictionary String Keyword} :
    t.extend added = .ok t' ↔
      (∀ word ∈ keys added, isWord word = true) ∧ t'.entries = t.entries.putAll added := by
  rw [Table.extend, ofWords_eq_ok_iff]
  constructor
  · intro h
    refine ⟨?_, h⟩
    intro word hword
    obtain ⟨e, he, rfl⟩ := List.mem_map.mp (mem_keys_putAll.mpr (.inr hword))
    exact t'.isWord_of_mem e (h ▸ he)
  · exact And.right

/-- A table with further words on top spells what the words say, and else what it spelled. -/
theorem exists_extend (t : Table) {added : Dictionary String Keyword} (hnodup : added.keys.Nodup)
    (hwords : ∀ word ∈ added.keys, isWord word = true) :
    ∃ table, t.extend added = .ok table ∧
      ∀ word, table.lookup word = (added.get? word).or (t.lookup word) := by
  have hall : ∀ e ∈ t.entries.putAll added, isWord e.1 = true := by
    intro e he
    rcases mem_keys_putAll.mp (List.mem_map.mpr ⟨e, he, rfl⟩) with hold | hnew
    · obtain ⟨e', he', heq⟩ := List.mem_map.mp hold
      exact heq ▸ t.isWord_of_mem e' he'
    · exact hwords e.1 hnew
  refine ⟨⟨t.entries.putAll added, hall, nodup_keys_putAll added t.nodup⟩,
    extend_eq_ok_iff.mpr ⟨hwords, rfl⟩, ?_⟩
  intro word
  rw [Table.lookup, get?_putAll, latest_eq_self hnodup]
  rfl

/-- Where a table is extended nothing collides any more. -/
theorem extend_ne_collisions (t : Table) (added : Dictionary String Keyword)
    (found : List Collision) :
    (t.extend added).mapError FileError.table ≠ .error (.table (.collisions found)) := by
  intro h
  unfold Table.extend Table.ofWords at h
  split at h
  next => cases h
  next => cases h

/-! ## Files -/

/-- The groups of spellings in the keys of a file, in order. -/
def groupsOf (fields : List (String × Json)) : Groups :=
  fields.map fun (key, value) => (spellings key, value)

/-- Of the groups in a file, those are left that do not come again. -/
theorem gives_fileGroups {fields : List (String × Json)} {word : String} {k : Keyword} :
    Gives (fileGroups fields) word k ↔ Gives (latest (groupsOf fields)) word k := by
  unfold Gives fileGroups
  constructor
  · intro h
    obtain ⟨group, hgroup, hrest⟩ := h
    exact ⟨group, mem_putAll_nil.mp hgroup, hrest⟩
  · intro h
    obtain ⟨group, hgroup, hrest⟩ := h
    exact ⟨group, mem_putAll_nil.mpr hgroup, hrest⟩

/-- The configuration that says what groups say. -/
def configurationOf (groups : Groups) : Configuration :=
  groups.map fun (words, value) => (.group (words.map .word), value)

theorem groups_configurationOf (groups : Groups) : (configurationOf groups).groups = groups := by
  rw [Configuration.groups, configurationOf, List.map_map]
  apply List.map_id''
  intro group
  show ((Alias.group (group.1.map .word)).words, group.2) = group
  rw [Alias.words, wordsOfAll_map_word]

theorem fileConfiguration_eq (fields : List (String × Json)) :
    fileConfiguration fields = configurationOf (fileGroups fields) := rfl

theorem groups_fileConfiguration (fields : List (String × Json)) :
    (fileConfiguration fields).groups = fileGroups fields :=
  groups_configurationOf (fileGroups fields)

theorem clashes_congr {t : Table} {groups groups' : Groups}
    (h : ∀ word k, Gives groups word k ↔ Gives groups' word k) (word : String) :
    Clashes t groups word ↔ Clashes t groups' word := by
  simp only [Clashes, h]

theorem Valid.fileGroups {fields : List (String × Json)} (h : Valid (groupsOf fields)) :
    Valid (fileGroups fields) := by
  intro group hgroup
  exact h group (mem_of_mem_latest (mem_putAll_nil.mp hgroup))

/-- What a file with an object in it comes to, where all its values name keywords. -/
theorem ofFile_eq {tree : FileTree} {path : String} {text : List Char}
    {fields : List (String × Json)} (htext : tree.readText path = .ok text)
    (hfields : Json.read text = .ok (.object fields)) (hvalid : Valid (groupsOf fields)) :
    Table.ofFile tree path =
      let l := giveAll .standard {} (pairs (fileGroups fields))
      if l.collisions.isEmpty then (Table.standard.extend l.added).mapError .table
      else .error (.table (.collisions l.collisions)) := by
  have hload : loadConfiguration tree path = .ok (fileConfiguration fields) := by
    rw [loadConfiguration, htext]
    show readConfiguration text = _
    rw [readConfiguration, hfields]
  have hgroups := groups_fileConfiguration fields
  have hlayer := layer_groups .standard (c := fileConfiguration fields)
    (hgroups ▸ hvalid.fileGroups) {}
  rw [hgroups] at hlayer
  rw [Table.ofFile, hload, Results.ok_bind, Table.withAliases, Table.additions, hlayer,
    Results.ok_bind]
  by_cases hcollisions : (giveAll .standard {} (pairs (fileGroups fields))).collisions.isEmpty = true
  · rw [if_pos hcollisions]
    exact (if_pos hcollisions).symm
  · rw [if_neg hcollisions]
    exact (if_neg hcollisions).symm

/-- Building the table of a file fails with a collision of the word. -/
def Reports (tree : FileTree) (path : String) (word : String) : Prop :=
  ∃ found, Table.ofFile tree path = .error (.table (.collisions found)) ∧
    ∃ c ∈ found, c.word = word

theorem reports_iff {tree : FileTree} {path : String} {text : List Char}
    {fields : List (String × Json)} (htext : tree.readText path = .ok text)
    (hfields : Json.read text = .ok (.object fields)) (hvalid : Valid (groupsOf fields))
    (word : String) :
    Reports tree path word ↔ Clashes .standard (latest (groupsOf fields)) word := by
  rw [← clashes_congr (fun _ _ => gives_fileGroups), ← exists_collision_iff, Reports,
    ofFile_eq htext hfields hvalid]
  generalize giveAll .standard {} (pairs (fileGroups fields)) = l
  dsimp only
  by_cases hempty : l.collisions.isEmpty = true
  · rw [if_pos hempty]
    have hnil := List.isEmpty_iff.mp hempty
    constructor
    · intro h
      obtain ⟨found, hfound, -⟩ := h
      exact absurd hfound (extend_ne_collisions _ _ found)
    · intro h
      obtain ⟨c, hc, -⟩ := h
      rw [hnil] at hc
      cases hc
  · rw [if_neg hempty]
    constructor
    · intro h
      obtain ⟨found, hfound, hword⟩ := h
      cases hfound
      exact hword
    · intro h
      exact ⟨_, rfl, h⟩

/-- Where keys with one group agree on a word in it, none of what is replaced is missed. -/
theorem gives_latest_iff {groups : Groups} {word : String}
    (h : ∀ group ∈ groups, ∀ group' ∈ groups, group.1 = group'.1 → word ∈ group.1 →
      group.2 = group'.2) (k : Keyword) :
    Gives (latest groups) word k ↔ Gives groups word k := by
  constructor
  · intro hgives
    obtain ⟨group, hgroup, hrest⟩ := hgives
    exact ⟨group, mem_of_mem_latest hgroup, hrest⟩
  · intro hgives
    obtain ⟨group, hgroup, hword, hvalue⟩ := hgives
    have hkey : group.1 ∈ keys (latest groups) :=
      mem_keys_latest.mpr (List.mem_map.mpr ⟨group, hgroup, rfl⟩)
    obtain ⟨group', hgroup', hsame⟩ := List.mem_map.mp hkey
    have hvalue' := h group hgroup group' (mem_of_mem_latest hgroup') hsame.symm hword
    exact ⟨group', hgroup', hsame ▸ hword, hvalue'.symm.trans hvalue⟩

/-- A keyword file whose values all name keywords reports just the words that clash among the groups
that do not come again in it. These are all words that clash in it if no two of its keys with the
same group differ in their values. And if no word clashes in it, and all of its spellings are words,
the table spells what the standard table and the file say. -/
theorem collisions_reported_iff {tree : FileTree} {path : String} {text : List Char}
    {fields : List (String × Json)} (htext : tree.readText path = .ok text)
    (hfields : Json.read text = .ok (.object fields)) (hvalid : Valid (groupsOf fields)) :
    (∀ word, Reports tree path word ↔ Clashes .standard (latest (groupsOf fields)) word) ∧
    ((∀ group ∈ groupsOf fields, ∀ group' ∈ groupsOf fields,
        group.1 = group'.1 → group.2 = group'.2) →
      ∀ word, Reports tree path word ↔ Clashes .standard (groupsOf fields) word) ∧
    ((∀ word, ¬ Clashes .standard (groupsOf fields) word) →
      (∀ group ∈ groupsOf fields, ∀ word ∈ group.1, isWord word = true) →
      ∃ table, Table.ofFile tree path = .ok table ∧ ∀ word k, table.lookup word = some k ↔
        Table.standard.lookup word = some k ∨ Gives (groupsOf fields) word k) := by
  refine ⟨reports_iff htext hfields hvalid, ?_, ?_⟩
  · intro hagree word
    rw [reports_iff htext hfields hvalid]
    apply clashes_congr
    intro word k
    exact gives_latest_iff (fun group hgroup group' hgroup' hsame _ =>
      hagree group hgroup group' hgroup' hsame) k
  · intro hclash hwords
    have hgives (word : String) (k : Keyword) :
        Gives (fileGroups fields) word k ↔ Gives (groupsOf fields) word k := by
      rw [gives_fileGroups]
      apply gives_latest_iff
      intro group hgroup group' hgroup' hsame hword
      obtain ⟨k, hk⟩ := hvalid group hgroup
      obtain ⟨k', hk'⟩ := hvalid group' hgroup'
      by_cases heq : k = k'
      · rw [hk, hk', heq]
      · exact absurd ⟨k, k', heq, ⟨group, hgroup, hword, hk⟩,
          .inl ⟨group', hgroup', hsame ▸ hword, hk'⟩⟩ (hclash word)
    have hnone (word : String) : ¬ Clashes .standard (fileGroups fields) word := by
      rw [clashes_congr hgives]
      exact hclash word
    have hempty : (giveAll .standard {} (pairs (fileGroups fields))).collisions = [] := by
      apply List.eq_nil_iff_forall_not_mem.mpr
      intro c hc
      exact hnone c.word ((exists_collision_iff _ _ _).mp ⟨c, hc, rfl⟩)
    have hadded : ∀ word ∈ (giveAll .standard {} (pairs (fileGroups fields))).added.keys,
        isWord word = true := by
      intro word hword
      obtain ⟨⟨w, k⟩, hmem, rfl⟩ := List.mem_map.mp ((mem_keys_added hword).resolve_left nofun)
      obtain ⟨group, hgroup, hw, -⟩ := (hgives w k).mp (mem_pairs_iff.mp hmem)
      exact hwords group hgroup w hw
    obtain ⟨table, htable, hlookup⟩ :=
      exists_extend .standard (nodup_added (l := {}) List.nodup_nil) hadded
    refine ⟨table, ?_, ?_⟩
    · rw [ofFile_eq htext hfields hvalid]
      dsimp only
      rw [hempty, htable]
      rfl
    · intro word k
      rw [hlookup, ← hgives]
      exact spelled_eq_some_iff (hnone word) k

/-- The text of a keyword file that gives one word to two keywords, once in a group. -/
def sharedWord : String :=
  "\x7b\"likho, print\": \"PRINT\", \"jab\": \"WHILE\", \"print\": \"WHILE\"\x7d"

theorem collisions_reported_sharedWord :
    let tree : FileTree := { files := [(["k.json"], Text.Utf8.encode sharedWord)] }
    let fields : List (String × Json) :=
      [("likho, print", .text "PRINT"), ("jab", .text "WHILE"), ("print", .text "WHILE")]
    tree.readText "k.json" = .ok sharedWord.toList ∧
      Json.read sharedWord.toList = .ok (.object fields) ∧ Valid (groupsOf fields) ∧
      Reports tree "k.json" "print" ∧ ¬ Reports tree "k.json" "likho" := by
  intro tree fields
  have htext : tree.readText "k.json" = .ok sharedWord.toList :=
    Results.eq_ok_of_toOption (by decide +kernel)
  have hfields : Json.read sharedWord.toList = .ok (.object fields) :=
    Results.eq_ok_of_toOption (by decide +kernel)
  have hgroups : groupsOf fields = [(["likho", "print"], .text Keyword.print.name),
      (["jab"], .text Keyword.whileStart.name), (["print"], .text Keyword.whileStart.name)] := by
    decide +kernel
  have hvalid : Valid (groupsOf fields) := by
    rw [hgroups]
    intro group hgroup
    simp only [List.mem_cons, List.not_mem_nil, or_false] at hgroup
    rcases hgroup with rfl | rfl | rfl
    · exact ⟨.print, rfl⟩
    · exact ⟨.whileStart, rfl⟩
    · exact ⟨.whileStart, rfl⟩
  obtain ⟨hreports, -, -⟩ := collisions_reported_iff htext hfields hvalid
  have hlatest : latest (groupsOf fields) = groupsOf fields := by
    apply latest_eq_self
    rw [hgroups]
    decide
  refine ⟨htext, hfields, hvalid, ?_, ?_⟩
  · rw [hreports, hlatest, hgroups]
    exact ⟨.print, .whileStart, nofun, ⟨_, List.mem_cons_self, by decide, rfl⟩,
      .inl ⟨_, List.mem_cons_of_mem _ (List.mem_cons_of_mem _ List.mem_cons_self), by decide, rfl⟩⟩
  · rw [hreports, hlatest, ← exists_collision_iff, hgroups]
    decide +kernel

/-- The text of a keyword file with two keys that differ in a blank alone. -/
def sameGroup : String := "\x7b\"likho\": \"PRINT\", \" likho\": \"WHILE\"\x7d"

/-- The collision of two keys with one group is lost, and the word spells what the later one says. -/
theorem not_collisions_reported :
    (Table.ofFile { files := [(["k.json"], Text.Utf8.encode sameGroup)] } "k.json").toOption.map
        (·.lookup "likho") = some (some .whileStart) ∧
      ¬ ∀ (tree : FileTree) (path : String) (text : List Char) (fields : List (String × Json)),
        tree.readText path = .ok text → Json.read text = .ok (.object fields) →
          Valid (groupsOf fields) →
          ∀ word, Clashes .standard (groupsOf fields) word → Reports tree path word := by
  have hspells : (Table.ofFile { files := [(["k.json"], Text.Utf8.encode sameGroup)] }
      "k.json").toOption.map (·.lookup "likho") = some (some .whileStart) := by
    decide +kernel
  refine ⟨hspells, ?_⟩
  intro hall
  have hgroups : groupsOf [("likho", .text "PRINT"), (" likho", .text "WHILE")] =
      [(["likho"], .text Keyword.print.name), (["likho"], .text Keyword.whileStart.name)] := by
    decide +kernel
  have hreports := hall { files := [(["k.json"], Text.Utf8.encode sameGroup)] } "k.json"
    sameGroup.toList [("likho", .text "PRINT"), (" likho", .text "WHILE")]
    (Results.eq_ok_of_toOption (by decide +kernel))
    (Results.eq_ok_of_toOption (by decide +kernel))
  rw [hgroups] at hreports
  have hvalid : Valid [(["likho"], .text Keyword.print.name),
      (["likho"], .text Keyword.whileStart.name)] := by
    intro group hgroup
    simp only [List.mem_cons, List.not_mem_nil, or_false] at hgroup
    rcases hgroup with rfl | rfl
    · exact ⟨.print, rfl⟩
    · exact ⟨.whileStart, rfl⟩
  obtain ⟨found, hfound, -⟩ := hreports hvalid "likho" ⟨.print, .whileStart, nofun,
    ⟨_, List.mem_cons_self, List.mem_cons_self, rfl⟩,
    .inl ⟨_, List.mem_cons_of_mem _ List.mem_cons_self, List.mem_cons_self, rfl⟩⟩
  rw [hfound] at hspells
  cases hspells

end Keyword

end Boli
