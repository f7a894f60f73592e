import Boli.Proofs.Keyword.Layering

/-!
# What becomes of a configuration

A configuration goes on top of a table, or it is refused for one of three reasons, of which the first
that applies is told: a value names no keyword, a word clashes, or a word cannot be spelled
(`withAliases_outcome`). The first value that names no keyword ends the layering, so that nothing is
said of the words (`layer_eq_error`). Clashes are told all at once: for every word in turn its keyword
is compared with the first one that the word spells (`collisions_giveAll`), and the first one is never
replaced. And since the new table keeps the order in which the words come first (`keys_putAll`), the
word that is told is the first of the configuration that cannot be spelled.
-/

set_option autoImplicit false

namespace Boli

/-! ## The order of keys -/

namespace Dictionary

variable {κ ν : Type} [DecidableEq κ]

/-- New keys come behind the old ones, in the order in which they come first. -/
theorem keys_putAll (d : Dictionary κ ν) (es : List (κ × ν)) :
    keys (d.putAll es) = keys d ++ ((keys es).filter (· ∉ keys d)).eraseDups := by
  induction es generalizing d with
  | nil => exact (List.append_nil _).symm
  | cons e es ih =>
    show keys ((put e.1 e.2 d).putAll es) = keys d ++ ((e.1 :: keys es).filter (· ∉ keys d)).eraseDups
    rw [ih, keys_put]
    by_cases he : e.1 ∈ keys d
    · rw [if_pos he, List.filter_cons_of_neg (by simpa using he)]
    · -- the other keys are new if they are neither old nor this one
      have hrest : (keys es).filter (· ∉ keys d ++ [e.1]) =
          ((keys es).filter (· ∉ keys d)).filter (fun k => !k == e.1) := by
        rw [List.filter_filter]
        apply List.filter_congr
        intro k _
        simp [and_comm, Bool.beq_eq_decide_eq]
      rw [if_neg he, List.filter_cons_of_pos (by simpa using he), List.eraseDups_cons, hrest,
        List.append_assoc]
      rfl

/-- Where no old key has a property, the first new one that has it is the first that is put. -/
theorem find?_keys_putAll {p : κ → Bool} {d : Dictionary κ ν} (h : ∀ k ∈ keys d, p k = false)
    (es : List (κ × ν)) : (keys (d.putAll es)).find? p = (keys es).find? p := by
  have hold : (keys d).find? p = none := by
    rw [List.find?_eq_none]
    intro k hk
    rw [h k hk]
    exact Bool.false_ne_true
  induction es generalizing d with
  | nil => exact hold
  | cons e es ih =>
    show (keys ((put e.1 e.2 d).putAll es)).find? p = (e.1 :: keys es).find? p
    cases he : p e.1 with
    | true =>
      have hnot : e.1 ∉ keys d := fun hmem => Bool.false_ne_true ((h _ hmem).symm.trans he)
      rw [keys_putAll, keys_put, if_neg hnot, List.append_assoc, List.find?_append, hold,
        Option.none_or, List.singleton_append, List.find?_cons_of_pos he, List.find?_cons_of_pos he]
    | false =>
      have hput : ∀ k ∈ keys (put e.1 e.2 d), p k = false := by
        intro k hk
        rcases (mem_keys_put _ _ _ _).mp hk with rfl | hk
        · exact he
        · exact h k hk
      have hnone : (keys (put e.1 e.2 d)).find? p = none := by
        rw [List.find?_eq_none]
        intro k hk
        rw [hput k hk]
        exact Bool.false_ne_true
      rw [ih hput hnone, List.find?_cons_of_neg (by rw [he]; exact Bool.false_ne_true)]

end Dictionary

namespace Keyword

open Dictionary
open Table (Layering)

variable {t t' : Table} {c : Configuration} {groups : Groups}

/-! ## Values that name no keyword -/

/-- The container that a value is. -/
def container? : Json → Option Container
  | .array _ => some .array
  | .object _ => some .object
  | .null | .bool _ | .int _ | .float _ | .text _ => none

/-- No value of a configuration is an array or an object. -/
def Configuration.Plain (c : Configuration) : Prop := ∀ e ∈ c, container? e.2 = none

theorem ofJson_eq_compositeKind {word : Option String} {v : Json} {container : Container} :
    Keyword.ofJson word v = .error (.compositeKind container) ↔ container? v = some container := by
  cases v with
  | array elements => simp [Keyword.ofJson, container?]
  | object fields => simp [Keyword.ofJson, container?]
  | text s =>
    rw [Keyword.ofJson]
    split <;> simp [container?]
  | null => simp [Keyword.ofJson, container?]
  | bool b => simp [Keyword.ofJson, container?]
  | int n => simp [Keyword.ofJson, container?]
  | float x => simp [Keyword.ofJson, container?]

/-- The first value that names no keyword ends the layering, whatever the words. -/
theorem layer_eq_error {before after : Configuration} {e : Alias × Json} {error : TableError}
    (hbefore : Valid before.groups) (he : Keyword.ofJson none e.2 = .error error) (l : Layering) :
    t.layer (before ++ e :: after) l = .error error := by
  induction before generalizing l with
  | nil =>
    show (do
      let k ← Keyword.ofJson none e.2
      t.layer after (e.1.words.foldl (t.give k) l)) = _
    rw [he]
    rfl
  | cons e' before ih =>
    obtain ⟨k, hk⟩ : ∃ k : Keyword, e'.2 = .text k.name :=
      hbefore (e'.1.words, e'.2) List.mem_cons_self
    have hrest : Valid (Configuration.groups before) :=
      fun group hgroup => hbefore group (List.mem_cons_of_mem _ hgroup)
    show (do
      let k ← Keyword.ofJson none e'.2
      t.layer (before ++ e :: after) (e'.1.words.foldl (t.give k) l)) = _
    rw [hk, ofJson_name, Results.ok_bind]
    exact ih hrest _

theorem withAliases_eq_error {before after : Configuration} {e : Alias × Json} {error : TableError}
    (hbefore : Valid before.groups) (he : Keyword.ofJson none e.2 = .error error) :
    t.withAliases (before ++ e :: after) = .error error := by
  rw [Table.withAliases, Table.additions, layer_eq_error hbefore he]
  rfl

/-- A value other than an array or an object is told where it names no keyword. -/
theorem ofJson_eq_unknownKind {v : Json} (hplain : container? v = none)
    (h : ∀ k : Keyword, v ≠ .text k.name) :
    Keyword.ofJson none v = .error (.unknownKind v.display none) := by
  cases v with
  | array elements => cases hplain
  | object fields => cases hplain
  | text s =>
    cases hname : ofName? s with
    | none => simp only [Keyword.ofJson, hname, Json.display]
    | some k => exact absurd (congrArg Json.text (name_of_ofName? hname).symm) (h k)
  | null => rfl
  | bool b => rfl
  | int n => rfl
  | float x => rfl

/-- Where not all values name keywords, one is the first that does not. -/
theorem exists_first_of_not_valid (h : ¬ Valid c.groups) :
    ∃ before e after, c = before ++ e :: after ∧ Valid (Configuration.groups before) ∧
      ∀ k : Keyword, e.2 ≠ .text k.name := by
  induction c with
  | nil => exact absurd (fun group hgroup => nomatch hgroup) h
  | cons e c ih =>
    by_cases he : ∃ k : Keyword, e.2 = .text k.name
    · have hrest : ¬ Valid (Configuration.groups c) :=
        fun hvalid => h (List.forall_mem_cons.mpr ⟨he, hvalid⟩)
      obtain ⟨before, e', after, rfl, hbefore, he'⟩ := ih hrest
      exact ⟨e :: before, e', after, rfl, List.forall_mem_cons.mpr ⟨he, hbefore⟩, he'⟩
    · exact ⟨[], e, c, rfl, (fun group hgroup => nomatch hgroup), not_exists.mp he⟩

/-! ## Clashes in order -/

/-- The keyword that a word spells in a table, or else the first one that it is given. -/
def firstSpelled (t : Table) (given : List (String × Keyword)) (word : String) : Option Keyword :=
  (t.lookup word).or (get? word given)

/-- What is told of a word that is given a keyword but has got another one. -/
def collision? (first : String → Option Keyword) (p : String × Keyword) : Option Collision :=
  match first p.1 with
  | some previous => if previous = p.2 then none else some ⟨p.1, previous, p.2⟩
  | none => none

/-- For each word that is given another keyword than its first one what is told of it, in order. -/
def clashing (t : Table) (given : List (String × Keyword)) : List Collision :=
  given.filterMap (collision? (firstSpelled t given))

/-- The collisions of a run are told by the first keywords of its words. -/
theorem collisions_giveAll (l : Layering) (ps : List (String × Keyword)) :
    (giveAll t l ps).collisions = l.collisions ++
      ps.filterMap (collision? fun word => (spelled t l word).or (get? word ps)) := by
  induction ps generalizing l with
  | nil => exact (List.append_nil _).symm
  | cons p ps ih =>
    -- the first keywords stay the same over the step
    have hfirst : (fun word => (spelled t (t.give p.2 l p.1) word).or (get? word ps)) =
        fun word => (spelled t l word).or (get? word (p :: ps)) := by
      funext word
      rw [← spelled_giveAll, ← spelled_giveAll]
      rfl
    have hget : get? p.1 (p :: ps) = some p.2 := if_pos rfl
    show (giveAll t (t.give p.2 l p.1) ps).collisions = _
    rw [ih, hfirst]
    rcases give_cases t p.2 l p.1 with ⟨hsame, hgive⟩ | ⟨previous, hprevious, hne, hgive⟩
    · have hnone : collision? (fun word => (spelled t l word).or (get? word (p :: ps))) p = none := by
        rw [collision?, hget]
        cases hspelled : spelled t l p.1 with
        | none => exact if_pos rfl
        | some previous => exact if_pos (hsame previous hspelled)
      rw [hgive, List.filterMap_cons_none hnone]
    · have hsome : collision? (fun word => (spelled t l word).or (get? word (p :: ps))) p =
          some ⟨p.1, previous, p.2⟩ := by
        rw [collision?, hprevious, Option.some_or]
        exact if_neg hne
      rw [hgive, List.filterMap_cons_some hsome, List.append_assoc]
      rfl

theorem collisions_eq_clashing :
    (giveAll t {} (pairs groups)).collisions = clashing t (pairs groups) := by
  rw [collisions_giveAll]
  rfl

/-- The words that are told are just those that clash. -/
theorem exists_clashing_iff {word : String} :
    (∃ found ∈ clashing t (pairs groups), found.word = word) ↔ Clashes t groups word := by
  rw [← collisions_eq_clashing]
  exact exists_collision_iff t groups word

/-- A clash is told as soon as all values name keywords. -/
theorem withAliases_eq_collisions (hvalid : Valid c.groups) {word : String}
    (h : Clashes t c.groups word) :
    t.withAliases c = .error (.collisions (clashing t (pairs c.groups))) := by
  obtain ⟨found, hfound, -⟩ := exists_clashing_iff.mpr h
  have hsome : ¬ (giveAll t {} (pairs c.groups)).collisions.isEmpty = true := by
    rw [collisions_eq_clashing, List.isEmpty_iff]
    exact List.ne_nil_of_mem hfound
  rw [Table.withAliases, Table.additions, layer_groups t hvalid, Results.ok_bind, if_neg hsome,
    collisions_eq_clashing]
  rfl

/-! ## Words that cannot be spelled -/

/-- The first entry whose key is no word is told. -/
theorem ofWords_eq_error {entries : Dictionary String Keyword} {nodup : entries.keys.Nodup}
    {word : String} (h : entries.keys.find? (fun word => !isWord word) = some word) :
    Table.ofWords entries nodup = .error (.notAWord (Text.quoted word)) := by
  rw [keys, List.find?_map] at h
  obtain ⟨e, he, rfl⟩ := Option.map_eq_some_iff.mp h
  unfold Table.ofWords
  split
  next e' he' =>
    rw [he'.symm.trans he |> Option.some.inj]
  next hnone => exact absurd (hnone.symm.trans he) nofun

/-- Where nothing else is wrong, the first word is told that cannot be spelled. -/
theorem withAliases_eq_notAWord (hvalid : Valid c.groups)
    (hagree : ∀ word, ¬ Clashes t c.groups word) {word : String}
    (h : (keys (pairs c.groups)).find? (fun word => !isWord word) = some word) :
    t.withAliases c = .error (.notAWord (Text.quoted word)) := by
  have hold : ∀ word ∈ keys t.entries, (!isWord word) = false := by
    intro word hword
    obtain ⟨e, he, rfl⟩ := List.mem_map.mp hword
    rw [t.isWord_of_mem e he]
    rfl
  rw [Table.withAliases, additions_eq_ok_iff.mpr ⟨hvalid, hagree, rfl⟩, Results.ok_bind]
  apply ofWords_eq_error
  rw [putAll_additions hagree, find?_keys_putAll hold, h]

/-! ## Containers -/

/-- An array or an object is no value of a keyword; only the first value that names none counts. -/
theorem withAliases_eq_compositeKind_iff {container : Container} :
    t.withAliases c = .error (.compositeKind container) ↔
      ∃ before e after, c = before ++ e :: after ∧ Valid (Configuration.groups before) ∧
        container? e.2 = some container := by
  constructor
  · intro h
    by_cases hvalid : Valid c.groups
    · -- then the layering ends, and nothing behind it fails for a value
      rw [Table.withAliases, Table.additions, layer_groups t hvalid, Results.ok_bind] at h
      split at h
      next =>
        change t.extend _ = _ at h
        unfold Table.extend Table.ofWords at h
        split at h
        next => cases h
        next => cases h
      next => cases h
    · obtain ⟨before, e, after, rfl, hbefore, he⟩ := exists_first_of_not_valid hvalid
      refine ⟨before, e, after, rfl, hbefore, ?_⟩
      cases hvalue : Keyword.ofJson none e.2 with
      | ok k => exact absurd (eq_name_of_ofJson hvalue) (he k)
      | error error =>
        rw [withAliases_eq_error hbefore hvalue, Except.error.injEq] at h
        rw [h] at hvalue
        exact ofJson_eq_compositeKind.mp hvalue
  · intro h
    obtain ⟨before, e, after, rfl, hbefore, he⟩ := h
    exact withAliases_eq_error hbefore (ofJson_eq_compositeKind.mpr he)

/-! ## All outcomes -/

/-- A layer puts its new words behind the others, in the order in which they come first. -/
theorem Layered.keys_eq (h : Layered t groups t') :
    keys t'.entries =
      keys t.entries ++ ((keys (pairs groups)).filter (· ∉ keys t.entries)).eraseDups := by
  rw [h.entries_eq, keys_putAll]

/-- For every table and every configuration whose values are neither arrays nor objects: the
configuration goes on top of the table just when its values name keywords, no word clashes and all of
its words can be spelled. Then the new table spells what the table spells and what the configuration
gives, and has its words in the order of the table with the new ones behind them as they come first.
Otherwise the first value that names no keyword is told; or, if they all do, for each word that is
given another keyword than its first one both of them, which names all words that clash; or, if none
does, the first word that cannot be spelled. -/
theorem withAliases_outcome (t : Table) (c : Configuration) (hplain : c.Plain) :
    ((∃ t', t.withAliases c = .ok t') ↔ Fits t c.groups) ∧
    (∀ t', t.withAliases c = .ok t' →
      keys t'.entries =
        keys t.entries ++ ((keys (pairs c.groups)).filter (· ∉ keys t.entries)).eraseDups ∧
      ∀ word k, t'.lookup word = some k ↔ t.lookup word = some k ∨ (word, k) ∈ pairs c.groups) ∧
    (¬ Valid c.groups → ∃ before e after, c = before ++ e :: after ∧
      Valid (Configuration.groups before) ∧ (∀ k : Keyword, e.2 ≠ .text k.name) ∧
      t.withAliases c = .error (.unknownKind e.2.display none)) ∧
    (Valid c.groups → (∃ word, Clashes t c.groups word) →
      t.withAliases c = .error (.collisions (clashing t (pairs c.groups))) ∧
      ∀ word, Clashes t c.groups word ↔
        ∃ found ∈ clashing t (pairs c.groups), found.word = word) ∧
    (Valid c.groups → (∀ word, ¬ Clashes t c.groups word) → ¬ Fits t c.groups →
      ∃ before word after, keys (pairs c.groups) = before ++ word :: after ∧
        (∀ w ∈ before, isWord w = true) ∧ isWord word = false ∧
        t.withAliases c = .error (.notAWord (Text.quoted word))) := by
  refine ⟨?_, ?_, ?_, ?_, ?_⟩
  · simp only [withAliases_eq_ok_iff]
    constructor
    · intro h
      obtain ⟨t', h⟩ := h
      exact h.fits
    · exact exists_layered
  · intro t' h
    have hlayered := withAliases_eq_ok_iff.mp h
    refine ⟨hlayered.keys_eq, ?_⟩
    intro word k
    rw [hlayered.lookup_eq_some_iff, mem_pairs_iff]
  · intro hvalid
    obtain ⟨before, e, after, rfl, hbefore, he⟩ := exists_first_of_not_valid hvalid
    have hvalue := hplain e (List.mem_append_right _ List.mem_cons_self)
    exact ⟨before, e, after, rfl, hbefore, he,
      withAliases_eq_error hbefore (ofJson_eq_unknownKind hvalue he)⟩
  · intro hvalid hclash
    obtain ⟨word, hclash⟩ := hclash
    exact ⟨withAliases_eq_collisions hvalid hclash, fun _ => exists_clashing_iff.symm⟩
  · intro hvalid hagree hfits
    cases hfind : (keys (pairs c.groups)).find? (fun word => !isWord word) with
    | none =>
      refine absurd ⟨hvalid, hagree, ?_⟩ hfits
      intro word k hk
      have hword := List.find?_eq_none.mp hfind word (mem_keys_pairs.mpr ⟨k, hk⟩)
      simpa using hword
    | some word =>
      obtain ⟨hword, before, after, hkeys, hbefore⟩ := List.find?_eq_some_iff_append.mp hfind
      refine ⟨before, word, after, hkeys, ?_, by simpa using hword,
        withAliases_eq_notAWord hvalid hagree hfind⟩
      intro w hw
      simpa using hbefore w hw

/-- A word that is given a second keyword, and a word of the standard table that is given another one.
Both are told, in order, and the word that cannot be spelled is not. -/
theorem withAliases_outcome_twoClashes :
    let c : Configuration :=
      [(.group [.word "likho", .none, .group [.word "chhapo"]], .text "PRINT"),
        (.word "likho", .text "WHILE"), (.group [.word "2", .word "bol"], .text "VAR"),
        (.word "chhapo", .text "PRINT")]
    c.Plain ∧ Table.standard.withAliases c = .error (.collisions
      [⟨"likho", .print, .whileStart⟩, ⟨"bol", .print, .var⟩]) := by
  intro c
  have hplain : c.Plain := by
    intro e he
    simp only [c, List.mem_cons, List.not_mem_nil, or_false] at he
    rcases he with rfl | rfl | rfl | rfl <;> rfl
  have hvalid : Valid c.groups :=
    List.forall_mem_cons.mpr ⟨⟨.print, rfl⟩, List.forall_mem_cons.mpr ⟨⟨.whileStart, rfl⟩,
      List.forall_mem_cons.mpr ⟨⟨.var, rfl⟩, List.forall_mem_singleton.mpr ⟨.print, rfl⟩⟩⟩⟩
  have hclash : Clashes .standard c.groups "bol" :=
    ⟨.var, .print, nofun, ⟨(["2", "bol"], .text "VAR"), by decide, by decide, rfl⟩, .inr rfl⟩
  obtain ⟨-, -, -, htold, -⟩ := withAliases_outcome .standard c hplain
  have hclashing : clashing .standard (pairs c.groups) =
      [⟨"likho", .print, .whileStart⟩, ⟨"bol", .print, .var⟩] := by
    decide +kernel
  rw [← hclashing]
  exact ⟨hplain, (htold hvalid ⟨"bol", hclash⟩).1⟩

end Keyword

end Boli
