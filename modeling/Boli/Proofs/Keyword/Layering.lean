import Boli.Proofs.Keyword.Collisions

/-!
# Layers of spellings

A configuration goes on top of a table when its values name keywords, no word clashes and all of its
words can be spelled (`Fits`). The new table then has the entries of the old one with the words of the
configuration put behind them, each with its keyword (`withAliases_eq_ok_iff`).

From this both laws follow. Putting words one after the other is putting them in two portions, and the
table between the two spells just what the first portion has given, so that the second one clashes with
it where it would clash with the first (`fits_append`). And whether a configuration fits, and what the
table spells in the end, depends on what is given to which word, in whatever order (`Fits.perm`,
`Layered.lookup_eq_some_iff`).
-/

set_option autoImplicit false

namespace Boli

/-! ## Entries in two portions -/

namespace Dictionary

variable {κ ν : Type} [DecidableEq κ]

theorem putAll_append (d : Dictionary κ ν) (es es' : List (κ × ν)) :
    d.putAll (es ++ es') = (d.putAll es).putAll es' := List.foldl_append

/-- A key that is there stays where it is. -/
theorem put_comm {k k' : κ} (v v' : ν) {d : Dictionary κ ν} (hne : k' ≠ k) (h : k ∈ keys d) :
    put k v (put k' v' d) = put k' v' (put k v d) := by
  induction d with
  | nil => cases h
  | cons e d ih =>
    obtain ⟨k₀, v₀⟩ := e
    by_cases hk : k₀ = k
    · subst hk
      simp [put, hne.symm]
    · have hd : k ∈ keys d := (List.mem_cons.mp h).resolve_left (Ne.symm hk)
      by_cases hk' : k₀ = k'
      · subst hk'
        simp [put, hk]
      · simp [put, hk, hk', ih hd]

/-- A value of a key that is there may be put before entries of other keys. -/
theorem put_putAll {k : κ} (v : ν) {es : List (κ × ν)} {d : Dictionary κ ν} (h : k ∈ keys d)
    (hes : k ∉ keys es) : put k v (d.putAll es) = (put k v d).putAll es := by
  induction es generalizing d with
  | nil => rfl
  | cons e es ih =>
    have hne : e.1 ≠ k := fun heq => hes (List.mem_cons.mpr (.inl heq.symm))
    have hrest : k ∉ keys es := fun hmem => hes (List.mem_cons_of_mem _ hmem)
    show put k v ((put e.1 e.2 d).putAll es) = (put e.1 e.2 (put k v d)).putAll es
    rw [ih ((mem_keys_put _ _ _ _).mpr (.inr h)) hrest, put_comm v e.2 hne h]

/-- Entries may be put together first. -/
theorem putAll_put (k : κ) (v : ν) {es : Dictionary κ ν} (h : es.keys.Nodup) (d : Dictionary κ ν) :
    d.putAll (put k v es) = put k v (d.putAll es) := by
  induction es generalizing d with
  | nil => rfl
  | cons e es ih =>
    obtain ⟨hnot, hes⟩ := List.nodup_cons.mp h
    obtain ⟨k', v'⟩ := e
    by_cases hk : k' = k
    · subst hk
      have hkey : k' ∈ keys (put k' v' d) := (mem_keys_put _ _ _ _).mpr (.inl rfl)
      have hput : put k' v ((k', v') :: es) = (k', v) :: es := if_pos rfl
      show d.putAll (put k' v ((k', v') :: es)) = put k' v ((put k' v' d).putAll es)
      rw [hput, put_putAll v hkey hnot, put_put]
      rfl
    · have hput : put k v ((k', v') :: es) = (k', v') :: put k v es := if_neg hk
      show d.putAll (put k v ((k', v') :: es)) = put k v ((put k' v' d).putAll es)
      rw [hput, ← ih hes]
      rfl

end Dictionary

namespace Keyword

open Dictionary
open Table (Layering)

/-! ## Configurations that fit -/

/-- All values name keywords, no word clashes, and all words can be spelled. -/
structure Fits (t : Table) (groups : Groups) : Prop where
  valid : Valid groups
  agree : ∀ word, ¬ Clashes t groups word
  isWord : ∀ word k, Gives groups word k → isWord word = true

/-- A table is another one with a layer of groups on top, each word with its keyword. -/
structure Layered (t : Table) (groups : Groups) (t' : Table) : Prop where
  fits : Fits t groups
  entries_eq : t'.entries = t.entries.putAll (pairs groups)

section

variable {t t' t₁ : Table} {c : Configuration} {groups groups' : Groups}

theorem mem_keys_pairs {word : String} : word ∈ keys (pairs groups) ↔ ∃ k, Gives groups word k := by
  constructor
  · intro h
    obtain ⟨⟨w, k⟩, hmem, rfl⟩ := List.mem_map.mp h
    exact ⟨k, mem_pairs_iff.mp hmem⟩
  · intro h
    obtain ⟨k, hk⟩ := h
    exact List.mem_map.mpr ⟨_, mem_pairs_iff.mpr hk, rfl⟩

/-! ### Layering -/

/-- A value that names no keyword ends the layering. -/
theorem valid_of_layer {l l' : Layering} (h : t.layer c l = .ok l') : Valid c.groups := by
  induction c generalizing l with
  | nil => exact fun group hgroup => nomatch hgroup
  | cons e c ih =>
    obtain ⟨k, hk, hrest⟩ := Results.exists_of_bind_eq_ok h
    intro group hgroup
    rcases List.mem_cons.mp hgroup with rfl | hgroup
    · exact ⟨k, eq_name_of_ofJson hk⟩
    · exact ih hrest group hgroup

theorem collisions_eq_nil_iff :
    (giveAll t {} (pairs groups)).collisions = [] ↔ ∀ word, ¬ Clashes t groups word := by
  constructor
  · intro h word hclash
    obtain ⟨collision, hmem, -⟩ := (exists_collision_iff t groups word).mpr hclash
    rw [h] at hmem
    cases hmem
  · intro h
    apply List.eq_nil_iff_forall_not_mem.mpr
    intro collision hmem
    exact h collision.word ((exists_collision_iff t groups _).mp ⟨collision, hmem, rfl⟩)

/-- Without collisions all words are added. -/
theorem putAll_added {l : Layering} {ps : List (String × Keyword)} (hnodup : l.added.keys.Nodup)
    (h : (giveAll t l ps).collisions = []) (d : Dictionary String Keyword) :
    d.putAll (giveAll t l ps).added = (d.putAll l.added).putAll ps := by
  induction ps generalizing l with
  | nil => rfl
  | cons p ps ih =>
    change (giveAll t (t.give p.2 l p.1) ps).collisions = [] at h
    show d.putAll (giveAll t (t.give p.2 l p.1) ps).added = ((d.putAll l.added).put p.1 p.2).putAll ps
    rcases give_cases t p.2 l p.1 with ⟨-, hgive⟩ | ⟨previous, -, -, hgive⟩
    · rw [hgive] at h ⊢
      rw [ih (nodup_keys_put _ _ hnodup) h, putAll_put _ _ hnodup]
    · -- a collision is never forgotten
      have hfirst : ⟨p.1, previous, p.2⟩ ∈ (t.give p.2 l p.1).collisions := by
        rw [hgive]
        exact List.mem_append_right _ List.mem_cons_self
      obtain ⟨collision, hmem, -⟩ := exists_collision_giveAll.mpr (.inl ⟨_, hfirst, rfl⟩)
      rw [h] at hmem
      cases hmem

/-! ### The new table -/

/-- Nothing is added if a value names no keyword or a word clashes. -/
theorem additions_eq_ok_iff {added : Dictionary String Keyword} :
    t.additions c = .ok added ↔
      Valid c.groups ∧ (∀ word, ¬ Clashes t c.groups word) ∧
        added = (giveAll t {} (pairs c.groups)).added := by
  constructor
  · intro h
    obtain ⟨l, hlayer, hadded⟩ := Results.exists_of_bind_eq_ok h
    have hvalid := valid_of_layer hlayer
    rw [layer_groups t hvalid] at hlayer
    cases hlayer
    split at hadded
    next hempty =>
      cases hadded
      exact ⟨hvalid, collisions_eq_nil_iff.mp (List.isEmpty_iff.mp hempty), rfl⟩
    next => cases hadded
  · intro h
    obtain ⟨hvalid, hagree, rfl⟩ := h
    rw [Table.additions, layer_groups t hvalid, Results.ok_bind]
    exact if_pos (List.isEmpty_iff.mpr (collisions_eq_nil_iff.mpr hagree))

theorem putAll_additions (h : ∀ word, ¬ Clashes t groups word) (d : Dictionary String Keyword) :
    d.putAll (giveAll t {} (pairs groups)).added = d.putAll (pairs groups) :=
  putAll_added (l := {}) List.nodup_nil (collisions_eq_nil_iff.mpr h) d

theorem mem_keys_additions (h : ∀ word, ¬ Clashes t groups word) {word : String} :
    word ∈ keys (giveAll t {} (pairs groups)).added ↔ ∃ k, Gives groups word k := by
  have hkeys : word ∈ keys (putAll [] (giveAll t {} (pairs groups)).added) ↔
      word ∈ keys (putAll [] (pairs groups)) := by rw [putAll_additions h]
  rw [mem_keys_putAll, mem_keys_putAll, mem_keys_pairs] at hkeys
  simpa only [keys, List.map_nil, List.not_mem_nil, false_or] using hkeys

/-- A configuration that goes on top of a table is a layer there. -/
theorem withAliases_eq_ok_iff : t.withAliases c = .ok t' ↔ Layered t c.groups t' := by
  constructor
  · intro h
    obtain ⟨added, hadded, hextend⟩ := Results.exists_of_bind_eq_ok h
    obtain ⟨hvalid, hagree, rfl⟩ := additions_eq_ok_iff.mp hadded
    obtain ⟨hwords, hentries⟩ := extend_eq_ok_iff.mp hextend
    rw [putAll_additions hagree] at hentries
    exact ⟨⟨hvalid, hagree, fun word k hk => hwords word ((mem_keys_additions hagree).mpr ⟨k, hk⟩)⟩,
      hentries⟩
  · intro h
    have hagree := h.fits.agree
    rw [Table.withAliases, additions_eq_ok_iff.mpr ⟨h.fits.valid, hagree, rfl⟩, Results.ok_bind,
      extend_eq_ok_iff, putAll_additions hagree]
    refine ⟨?_, h.entries_eq⟩
    intro word hword
    obtain ⟨k, hk⟩ := (mem_keys_additions hagree).mp hword
    exact h.fits.isWord word k hk

/-- Every layer that fits can be laid. -/
theorem exists_layered (h : Fits t groups) : ∃ t', Layered t groups t' := by
  have hwords : ∀ word ∈ keys (giveAll t {} (pairs groups)).added, isWord word = true := by
    intro word hword
    obtain ⟨k, hk⟩ := (mem_keys_additions h.agree).mp hword
    exact h.isWord word k hk
  obtain ⟨t', hextend, -⟩ := exists_extend t (nodup_added (l := {}) List.nodup_nil) hwords
  obtain ⟨-, hentries⟩ := extend_eq_ok_iff.mp hextend
  rw [putAll_additions h.agree] at hentries
  exact ⟨t', h, hentries⟩

theorem Layered.unique (h : Layered t groups t') (h' : Layered t groups t₁) : t' = t₁ :=
  Table.eq_of_entries_eq (h.entries_eq.trans h'.entries_eq.symm)

/-- Where a layer fits, a word is given one keyword at most, the one that it spells already. -/
theorem Fits.eq_of_gives (h : Fits t groups) {word : String} {k k' : Keyword}
    (hk : Gives groups word k) (hk' : Gives groups word k' ∨ t.lookup word = some k') : k = k' := by
  by_cases heq : k = k'
  · exact heq
  · exact absurd ⟨k, k', heq, hk, hk'⟩ (h.agree word)

/-- A table with a layer on top spells what it spelled and what the groups give. -/
theorem Layered.lookup_eq_some_iff (h : Layered t groups t') {word : String} {k : Keyword} :
    t'.lookup word = some k ↔ t.lookup word = some k ∨ Gives groups word k := by
  have hlookup : t'.lookup word = (get? word (latest (pairs groups))).or (t.lookup word) := by
    rw [Table.lookup, h.entries_eq, get?_putAll, Table.lookup]
  have hlatest {first : Keyword} (hfirst : get? word (latest (pairs groups)) = some first) :
      Gives groups word first := mem_pairs_iff.mp (mem_of_mem_latest (mem_of_get? hfirst))
  rw [hlookup, Option.or_eq_some_iff]
  constructor
  · intro hk
    rcases hk with hk | ⟨-, hk⟩
    · exact .inr (hlatest hk)
    · exact .inl hk
  · intro hk
    cases hget : get? word (latest (pairs groups)) with
    | none =>
      rcases hk with hk | hk
      · exact .inr ⟨rfl, hk⟩
      · have hkeys := mem_keys_latest.mpr (mem_keys_pairs.mpr ⟨k, hk⟩)
        rw [← get?_isSome_iff, hget] at hkeys
        cases hkeys
    | some first => exact .inl (congrArg some (h.fits.eq_of_gives (hlatest hget) hk.symm))

/-! ## Two layers -/

theorem gives_append {word : String} {k : Keyword} :
    Gives (groups ++ groups') word k ↔ Gives groups word k ∨ Gives groups' word k := by
  simp only [Gives, List.mem_append, or_and_right, exists_or]

/-- In two layers a word clashes in the first one, or in the second one with the table between. -/
theorem clashes_append (h : Layered t groups t₁) {word : String} :
    Clashes t (groups ++ groups') word ↔ Clashes t₁ groups' word := by
  constructor
  · intro hclash
    obtain ⟨k, k', hne, hk, hk'⟩ := hclash
    rw [gives_append] at hk hk'
    rcases hk with hk | hk
    · -- the first layer does not clash, so that the other keyword comes from the second one
      rcases hk' with (hk' | hk') | hk'
      · exact absurd (h.fits.eq_of_gives hk (.inl hk')) hne
      · exact ⟨k', k, hne.symm, hk', .inr (h.lookup_eq_some_iff.mpr (.inr hk))⟩
      · exact absurd (h.fits.eq_of_gives hk (.inr hk')) hne
    · refine ⟨k, k', hne, hk, ?_⟩
      rw [h.lookup_eq_some_iff]
      rcases hk' with (hk' | hk') | hk'
      · exact .inr (.inr hk')
      · exact .inl hk'
      · exact .inr (.inl hk')
  · intro hclash
    obtain ⟨k, k', hne, hk, hk'⟩ := hclash
    rw [h.lookup_eq_some_iff] at hk'
    refine ⟨k, k', hne, gives_append.mpr (.inr hk), ?_⟩
    rw [gives_append]
    rcases hk' with hk' | hk' | hk'
    · exact .inl (.inr hk')
    · exact .inr hk'
    · exact .inl (.inl hk')

theorem Fits.left (h : Fits t (groups ++ groups')) : Fits t groups where
  valid group hgroup := h.valid group (List.mem_append_left _ hgroup)
  agree word hclash := by
    obtain ⟨k, k', hne, hk, hk'⟩ := hclash
    refine h.agree word ⟨k, k', hne, gives_append.mpr (.inl hk), ?_⟩
    rcases hk' with hk' | hk'
    · exact .inl (gives_append.mpr (.inl hk'))
    · exact .inr hk'
  isWord word k hk := h.isWord word k (gives_append.mpr (.inl hk))

/-- Behind a layer that is laid, the second one fits just when both together do. -/
theorem fits_append (h : Layered t groups t₁) : Fits t (groups ++ groups') ↔ Fits t₁ groups' := by
  constructor
  · intro hfits
    refine ⟨fun group hgroup => hfits.valid group (List.mem_append_right _ hgroup), ?_, ?_⟩
    · intro word hclash
      exact hfits.agree word ((clashes_append h).mpr hclash)
    · intro word k hk
      exact hfits.isWord word k (gives_append.mpr (.inr hk))
  · intro hfits
    refine ⟨List.forall_mem_append.mpr ⟨h.fits.valid, hfits.valid⟩, ?_, ?_⟩
    · intro word hclash
      exact hfits.agree word ((clashes_append h).mp hclash)
    · intro word k hk
      rcases gives_append.mp hk with hk | hk
      · exact h.fits.isWord word k hk
      · exact hfits.isWord word k hk

/-- Two layers can be laid at once or one after the other, for the same table. -/
theorem layered_append :
    Layered t (groups ++ groups') t' ↔ ∃ t₁, Layered t groups t₁ ∧ Layered t₁ groups' t' := by
  have hentries {t₁ : Table} (h : Layered t groups t₁) :
      t.entries.putAll (pairs (groups ++ groups')) = t₁.entries.putAll (pairs groups') := by
    rw [pairs, List.flatMap_append, putAll_append, h.entries_eq]
    rfl
  constructor
  · intro h
    obtain ⟨t₁, h₁⟩ := exists_layered h.fits.left
    exact ⟨t₁, h₁, (fits_append h₁).mp h.fits, h.entries_eq.trans (hentries h₁)⟩
  · intro h
    obtain ⟨t₁, h₁, h₂⟩ := h
    exact ⟨(fits_append h₁).mpr h₂.fits, h₂.entries_eq.trans (hentries h₁).symm⟩

/-! ## Layers in another order -/

theorem gives_perm (h : groups.Perm groups') {word : String} {k : Keyword} :
    Gives groups word k ↔ Gives groups' word k := by
  simp only [Gives, h.mem_iff]

/-- Whether a layer fits does not depend on its order. -/
theorem Fits.perm (hfits : Fits t groups) (h : groups.Perm groups') : Fits t groups' where
  valid group hgroup := hfits.valid group (h.mem_iff.mpr hgroup)
  agree word hclash := hfits.agree word ((clashes_congr (fun _ _ => gives_perm h) word).mpr hclash)
  isWord word k hk := hfits.isWord word k ((gives_perm h).mpr hk)

/-- Tables that spell the same compare equal. -/
theorem sameSpellings_of_lookup_eq (h : ∀ word, t.lookup word = t'.lookup word) :
    t.sameSpellings t' = true := by
  have hmem (t : Table) (e : String × Keyword) : e ∈ t.entries ↔ t.lookup e.1 = some e.2 :=
    ⟨get?_of_mem t.nodup, mem_of_get?⟩
  have nodup (t : Table) : t.entries.Nodup :=
    List.Pairwise.of_map Prod.fst (fun _ _ hne heq => hne (congrArg Prod.fst heq)) t.nodup
  have hperm : t.entries.Perm t'.entries := by
    apply (List.perm_ext_iff_of_nodup (nodup t) (nodup t')).mpr
    intro e
    rw [hmem t, hmem t', h]
  rw [Table.sameSpellings, Bool.and_eq_true, decide_eq_true_eq, List.all_eq_true]
  refine ⟨hperm.length_eq, ?_⟩
  intro e he
  rw [← h, (hmem t e).mp he, decide_eq_true rfl]

theorem Layered.sameSpellings (h : Layered t groups t') (h' : Layered t groups' t₁)
    (hperm : groups.Perm groups') : t'.sameSpellings t₁ = true := by
  apply sameSpellings_of_lookup_eq
  intro word
  apply Option.ext
  intro k
  rw [h.lookup_eq_some_iff, h'.lookup_eq_some_iff, gives_perm hperm]

end

/-! ## Configurations in portions and in another order -/

/-- For any table, a configuration in two portions goes on top of it just when the first portion does
and the second one goes on top of the table with the first, and then the table has the same entries in
the same order. And of two configurations that differ in their order alone, one goes on top just when
the other does, for tables that compare equal. -/
theorem withAliases_layers (t : Table) :
    (∀ (c₁ c₂ : Configuration) (t' : Table), t.withAliases (c₁ ++ c₂) = .ok t' ↔
      ∃ t₁, t.withAliases c₁ = .ok t₁ ∧ t₁.withAliases c₂ = .ok t') ∧
    ∀ c c' : Configuration, c.Perm c' →
      ((∃ t', t.withAliases c = .ok t') ↔ ∃ t', t.withAliases c' = .ok t') ∧
      ∀ t₁ t₂, t.withAliases c = .ok t₁ → t.withAliases c' = .ok t₂ → t₁.sameSpellings t₂ = true := by
  simp only [withAliases_eq_ok_iff]
  constructor
  · intro c₁ c₂ t'
    rw [Configuration.groups, List.map_append]
    exact layered_append
  · intro c c' hperm
    have hgroups : c.groups.Perm c'.groups := hperm.map _
    refine ⟨⟨?_, ?_⟩, ?_⟩
    · intro h
      obtain ⟨t', h⟩ := h
      exact exists_layered (h.fits.perm hgroups)
    · intro h
      obtain ⟨t', h⟩ := h
      exact exists_layered (h.fits.perm hgroups.symm)
    · intro t₁ t₂ h h'
      exact h.sameSpellings h' hgroups

/-- A group of two words, one of which comes again by itself. In the other order this one is the
first new word of the table. -/
theorem withAliases_layers_wordInTwoGroups :
    let group : Alias × Json := (.group [.word "likho", .word "chhapo"], .text "PRINT")
    let alone : Alias × Json := (.word "chhapo", .text "PRINT")
    [group, alone].Perm [alone, group] ∧
    ∃ t₁ t₂, Table.standard.withAliases [group, alone] = .ok t₁ ∧
      Table.standard.withAliases [alone, group] = .ok t₂ ∧ t₁.entries ≠ t₂.entries ∧
      t₁.sameSpellings t₂ = true := by
  intro group alone
  have hperm : [group, alone].Perm [alone, group] := .swap alone group []
  obtain ⟨t₁, h₁⟩ : ∃ t₁, (Table.standard.withAliases [group, alone]).toOption = some t₁ :=
    Option.isSome_iff_exists.mp (by decide +kernel)
  obtain ⟨t₂, h₂⟩ : ∃ t₂, (Table.standard.withAliases [alone, group]).toOption = some t₂ :=
    Option.isSome_iff_exists.mp (by decide +kernel)
  have hne : (Table.standard.withAliases [group, alone]).toOption.map Table.entries ≠
      (Table.standard.withAliases [alone, group]).toOption.map Table.entries := by
    decide +kernel
  rw [h₁, h₂] at hne
  have h₁ := Results.eq_ok_of_toOption h₁
  have h₂ := Results.eq_ok_of_toOption h₂
  refine ⟨hperm, t₁, t₂, h₁, h₂, fun heq => hne (congrArg some heq), ?_⟩
  exact ((withAliases_layers .standard).2 _ _ hperm).2 t₁ t₂ h₁ h₂

end Keyword

end Boli
