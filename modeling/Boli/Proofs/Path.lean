import Boli.Path

/-!
# Extensions of paths

A path is its folder part, its last component up to the extension, and the extension, one behind the
other, for every path (`exists_isSplit`) and in one way (`IsSplit.unique`). What is computed of a path
is read off its parts (`IsSplit.split_eq`). So a path stays the same just when its extension is
replaced by its own (`stem_append_eq_iff`).
-/

set_option autoImplicit false

namespace Boli.Path

/-! ## The last place of a character -/

/-- A character stands nowhere, or it stands somewhere for the last time. -/
theorem notMem_or_exists_last (c : Char) (cs : List Char) :
    c ∉ cs ∨ ∃ before after, cs = before ++ c :: after ∧ c ∉ after := by
  by_cases h : c ∈ cs
  · obtain ⟨after, before, heq, hafter⟩ := List.eq_append_cons_of_mem (List.mem_reverse.mpr h)
    refine .inr ⟨before.reverse, after.reverse, ?_, fun hmem => hafter (List.mem_reverse.mp hmem)⟩
    rw [← List.reverse_reverse cs, heq, List.reverse_append, List.reverse_cons, List.append_assoc,
      List.singleton_append]
  · exact .inl h

theorem takeWhile_ne {c : Char} {cs : List Char} (h : c ∉ cs) (rest : List Char) :
    (cs ++ c :: rest).takeWhile (· != c) = cs := by
  have hcs : ∀ d ∈ cs, (d != c) = true := fun d hd => by simpa using ne_of_mem_of_not_mem hd h
  rw [List.takeWhile_append_of_pos hcs, List.takeWhile_cons_of_neg (by simp), List.append_nil]

/-- What stands behind the last place of a character. -/
theorem behind_last {c : Char} {after : List Char} (h : c ∉ after) (before : List Char) :
    ((before ++ c :: after).reverse.takeWhile (· != c)).reverse = after := by
  rw [List.reverse_append, List.reverse_cons, List.append_assoc, List.singleton_append,
    takeWhile_ne (fun hmem => h (List.mem_reverse.mp hmem)), List.reverse_reverse]

/-! ## Components -/

theorem components_ne_nil (cs : List Char) : components cs ≠ [] := by
  cases cs with
  | nil => exact List.cons_ne_nil _ _
  | cons c cs =>
    rw [components]
    split
    next => exact List.cons_ne_nil _ _
    next => split <;> exact List.cons_ne_nil _ _

theorem components_append_slash (cs cs' : List Char) :
    components (cs ++ '/' :: cs') = components cs ++ components cs' := by
  induction cs with
  | nil => rfl
  | cons c cs ih =>
    rw [List.cons_append, components, components, ih]
    by_cases hc : c = '/'
    · rw [if_pos hc, if_pos hc, List.cons_append]
    · rw [if_neg hc, if_neg hc]
      cases h : components cs with
      | nil => exact absurd h (components_ne_nil cs)
      | cons first rest => rfl

theorem components_of_notMem {cs : List Char} (h : '/' ∉ cs) : components cs = [cs] := by
  induction cs with
  | nil => rfl
  | cons c cs ih =>
    have hc : c ≠ '/' := (List.ne_of_not_mem_cons h).symm
    rw [components, if_neg hc, ih (List.not_mem_of_not_mem_cons h)]

/-! ## The parts of a path -/

/-- How a component ends behind its name. Points in front of all else begin no extension. -/
inductive IsExtension : List Char → List Char → Prop where
  | none (points : Nat) {rest : List Char} : '.' ∉ rest →
      IsExtension (List.replicate points '.' ++ rest) []
  | point {name letters : List Char} : (∃ c ∈ name, c ≠ '.') → '.' ∉ letters →
      IsExtension name ('.' :: letters)

/-- A path in three parts: the folders that it goes through, its last component up to the extension,
and the extension. -/
structure IsSplit (path folders name extension : List Char) : Prop where
  append_eq : folders ++ (name ++ extension) = path
  folders_cases : folders = [] ∨ ∃ around, folders = around ++ ['/']
  slash_notMem : '/' ∉ name ++ extension
  isExtension : IsExtension name extension

/-- A component is its leading points and what stands behind them. -/
theorem exists_leading (component : List Char) : ∃ points rest,
    component = List.replicate points '.' ++ rest ∧ ∀ c cs, rest = c :: cs → c ≠ '.' := by
  induction component with
  | nil => exact ⟨0, [], rfl, nofun⟩
  | cons c cs ih =>
    by_cases hc : c = '.'
    · obtain ⟨points, rest, rfl, hrest⟩ := ih
      subst hc
      exact ⟨points + 1, rest, rfl, hrest⟩
    · refine ⟨0, c :: cs, rfl, ?_⟩
      rintro d ds ⟨⟩
      exact hc

theorem exists_isExtension (component : List Char) :
    ∃ name extension, name ++ extension = component ∧ IsExtension name extension := by
  obtain ⟨points, rest, rfl, hrest⟩ := exists_leading component
  rcases notMem_or_exists_last '.' rest with hnone | ⟨before, letters, rfl, hletters⟩
  · exact ⟨_, [], List.append_nil _, .none points hnone⟩
  · refine ⟨List.replicate points '.' ++ before, '.' :: letters, List.append_assoc _ _ _,
      .point ?_ hletters⟩
    cases before with
    | nil => exact absurd rfl (hrest '.' letters rfl)
    | cons c cs =>
      exact ⟨c, List.mem_append_right _ List.mem_cons_self, hrest c (cs ++ '.' :: letters) rfl⟩

theorem exists_isSplit (path : List Char) :
    ∃ folders name extension, IsSplit path folders name extension := by
  rcases notMem_or_exists_last '/' path with hnone | ⟨around, last, rfl, hlast⟩
  · obtain ⟨name, extension, rfl, hextension⟩ := exists_isExtension path
    exact ⟨[], name, extension, rfl, .inl rfl, hnone, hextension⟩
  · obtain ⟨name, extension, rfl, hextension⟩ := exists_isExtension last
    refine ⟨around ++ ['/'], name, extension, ?_, .inr ⟨around, rfl⟩, hlast, hextension⟩
    rw [List.append_assoc, List.singleton_append]

/-! ## Splitting -/

theorem splitLast_append {folders last : List Char}
    (hfolders : folders = [] ∨ ∃ around, folders = around ++ ['/']) (hlast : '/' ∉ last) :
    splitLast (folders ++ last) = (folders, last) := by
  have hbehind : ((folders ++ last).reverse.takeWhile (· != '/')).reverse = last := by
    rcases hfolders with rfl | ⟨around, rfl⟩
    · have hall : ∀ c ∈ last.reverse, (c != '/') = true := fun c hc => by
        simpa using ne_of_mem_of_not_mem (List.mem_reverse.mp hc) hlast
      rw [List.nil_append, ← List.append_nil last.reverse, List.takeWhile_append_of_pos hall,
        List.takeWhile_nil, List.append_nil, List.reverse_reverse]
    · rw [List.append_assoc, List.singleton_append, behind_last hlast]
  have hlength : (folders ++ last).length - last.length = folders.length := by
    rw [List.length_append, Nat.add_sub_cancel]
  simp only [splitLast, hbehind, hlength, List.take_left]

theorem splitLastPoint_append {letters : List Char} (h : '.' ∉ letters) (before : List Char) :
    splitLastPoint (before ++ '.' :: letters) = (before, '.' :: letters) := by
  have hpoint : (before ++ '.' :: letters).contains '.' = true := by simp
  have hlength : (before ++ '.' :: letters).length - letters.length - 1 = before.length := by
    rw [List.length_append, List.length_cons]
    omega
  unfold splitLastPoint
  rw [if_pos hpoint]
  simp only [behind_last h, hlength, List.take_left]

/-- Behind its leading points a component goes on with another character. -/
theorem leading_of_ne (points : Nat) {rest : List Char} (h : ∀ c cs, rest = c :: cs → c ≠ '.') :
    (List.replicate points '.' ++ rest).takeWhile (· == '.') = List.replicate points '.' ∧
      (List.replicate points '.' ++ rest).dropWhile (· == '.') = rest := by
  have hpoints : ∀ c ∈ List.replicate points '.', (c == '.') = true := fun c hc => by
    simpa using List.eq_of_mem_replicate hc
  rw [List.takeWhile_append_of_pos hpoints, List.dropWhile_append_of_pos hpoints]
  cases rest with
  | nil => exact ⟨List.append_nil _, rfl⟩
  | cons c cs =>
    have hc : ¬ (c == '.') = true := by simpa using h c cs rfl
    rw [List.takeWhile_cons_of_neg (p := (· == '.')) hc,
      List.dropWhile_cons_of_neg (p := (· == '.')) hc, List.append_nil]
    exact ⟨rfl, rfl⟩

theorem splitComponent_append {name extension : List Char} (h : IsExtension name extension) :
    splitComponent (name ++ extension) = (name, extension) := by
  cases h with
  | none points hrest =>
    rename_i rest
    have hfirst : ∀ c cs, rest = c :: cs → c ≠ '.' := by
      rintro c cs rfl
      exact (List.ne_of_not_mem_cons hrest).symm
    obtain ⟨htake, hdrop⟩ := leading_of_ne points hfirst
    have hnone : splitLastPoint rest = (rest, []) := by
      unfold splitLastPoint
      exact if_neg (by simpa using hrest)
    rw [List.append_nil]
    simp only [splitComponent, htake, hdrop, hnone]
  | @point name letters hname hletters =>
    obtain ⟨points, rest, rfl, hrest⟩ := exists_leading name
    cases rest with
    | nil =>
      obtain ⟨c, hc, hne⟩ := hname
      rw [List.append_nil] at hc
      exact absurd (List.eq_of_mem_replicate hc) hne
    | cons c cs =>
      have hfirst : ∀ d ds, c :: cs ++ '.' :: letters = d :: ds → d ≠ '.' := by
        rintro d ds ⟨⟩
        exact hrest c cs rfl
      obtain ⟨htake, hdrop⟩ := leading_of_ne points hfirst
      rw [List.append_assoc]
      simp only [splitComponent, htake, hdrop, splitLastPoint_append hletters]

namespace IsSplit

variable {path folders name extension : List Char}

/-- The parts are the ones at which a path is split. -/
theorem split_eq (h : IsSplit path folders name extension) :
    splitExtensionChars path = (folders ++ name, extension) := by
  rw [← h.append_eq]
  simp only [splitExtensionChars, splitLast_append h.folders_cases h.slash_notMem,
    splitComponent_append h.isExtension]

/-- No other parts are. -/
theorem unique (h : IsSplit path folders name extension) {folders' name' extension' : List Char}
    (h' : IsSplit path folders' name' extension') :
    folders' = folders ∧ name' = name ∧ extension' = extension := by
  have hlast := splitLast_append h.folders_cases h.slash_notMem
  have hlast' := splitLast_append h'.folders_cases h'.slash_notMem
  rw [h.append_eq] at hlast
  rw [h'.append_eq, hlast, Prod.mk.injEq] at hlast'
  obtain ⟨hfolders, hcomponent⟩ := hlast'
  have hpoint := splitComponent_append h'.isExtension
  rw [← hcomponent, splitComponent_append h.isExtension, Prod.mk.injEq] at hpoint
  exact ⟨hfolders.symm, hpoint.1.symm, hpoint.2.symm⟩

theorem stem_eq (h : IsSplit path folders name extension) :
    stem (String.ofList path) = String.ofList (folders ++ name) := by
  rw [stem, String.toList_ofList, h.split_eq]

/-- The path with another extension. -/
theorem stem_append (h : IsSplit path folders name extension) (letters : String) :
    stem (String.ofList path) ++ "." ++ letters =
      String.ofList (folders ++ (name ++ '.' :: letters.toList)) := by
  rw [h.stem_eq, ← String.toList_inj, String.toList_append, String.toList_append,
    String.toList_ofList, String.toList_ofList, String.toList_ofList, List.append_assoc,
    List.append_assoc]
  rfl

/-- The extension without its point. -/
theorem extensionName_eq (h : IsSplit path folders name extension) :
    extensionName (String.ofList path) = String.ofList (extension.drop 1) := by
  rw [extensionName, String.toList_ofList, h.split_eq]
  cases h.isExtension with
  | none points hrest => rfl
  | @point name letters hname hletters =>
    have hstop : letters.dropWhile (· == '.') = letters := by
      cases letters with
      | nil => rfl
      | cons c cs =>
        apply List.dropWhile_cons_of_neg
        simpa using (List.ne_of_not_mem_cons hletters).symm
    show String.ofList (letters.dropWhile (· == '.')) = String.ofList letters
    rw [hstop]

end IsSplit

/-- A path without its extension has no other characters. -/
theorem mem_of_mem_stem {path : String} {c : Char} (h : c ∈ (stem path).toList) :
    c ∈ path.toList := by
  obtain ⟨folders, name, extension, hsplit⟩ := exists_isSplit path.toList
  have hstem := hsplit.stem_eq
  rw [String.ofList_toList] at hstem
  rw [hstem, String.toList_ofList] at h
  rw [← hsplit.append_eq, ← List.append_assoc]
  exact List.mem_append_left _ h

/-- A path is kept where its extension is replaced by its own. -/
theorem stem_append_eq_iff (path : String) {letters : String} (h : letters ≠ "") :
    stem path ++ "." ++ letters = path ↔ extensionName path = letters := by
  obtain ⟨folders, name, extension, hsplit⟩ := exists_isSplit path.toList
  have hderived := hsplit.stem_append letters
  have hextension := hsplit.extensionName_eq
  rw [String.ofList_toList] at hderived hextension
  rw [hderived, hextension, ← String.toList_inj, ← String.toList_inj, String.toList_ofList,
    String.toList_ofList, ← hsplit.append_eq, List.append_cancel_left_eq,
    List.append_cancel_left_eq]
  show '.' :: letters.toList = extension ↔ extension.drop 1 = letters.toList
  cases hsplit.isExtension with
  | none points hrest =>
    constructor
    · intro hcons
      cases hcons
    · intro hnil
      exact absurd (String.toList_inj.mp hnil.symm) h
  | point hname hletters =>
    constructor
    · intro hcons
      exact (List.cons.inj hcons).2.symm
    · intro hrest
      exact congrArg ('.' :: ·) hrest.symm

end Boli.Path
