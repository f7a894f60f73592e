import Boli.Proofs.Keyword.Outcomes

/-!
# What becomes of a keyword file

Loading a keyword file ends with a table, or with an error that says what is wrong with the file,
unless an array or an object stands where the first value that names no keyword is looked for
(`ofFile_diagnosed_iff`). All that comes before that value is checked by then: the path, the bytes of
the file, its grammar, the object in it and the values in front. What comes behind is not looked at.
-/

set_option autoImplicit false

namespace Boli.Keyword

variable {tree : FileTree} {path : String}

/-- Whether an error says what is wrong with a keyword file. An array or an object is not told as a
value that names no keyword: it cannot even be looked up. -/
def FileError.isDiagnostic : FileError → Bool
  | table (.compositeKind _) => false
  | table _ => true
  | unreadable _ _ => true
  | notUtf8 _ => true
  | notJson => true
  | numeralTooLong _ => true
  | notAnObject => true

theorem FileError.isDiagnostic_eq_false_iff {error : FileError} :
    error.isDiagnostic = false ↔ ∃ container, error = .table (.compositeKind container) := by
  constructor
  · intro h
    unfold isDiagnostic at h
    split at h
    next container => exact ⟨container, rfl⟩
    all_goals cases h
  · intro h
    obtain ⟨container, rfl⟩ := h
    rfl

/-! ## The stages of loading -/

/-- Before there is a configuration no table can fail. -/
theorem loadConfiguration_ne_table (path : String) (error : TableError) :
    loadConfiguration tree path ≠ .error (.table error) := by
  unfold loadConfiguration readConfiguration
  split
  next => split <;> exact nofun
  next => exact nofun
  next => exact nofun

/-- There is a configuration just where the file can be read and holds an object. -/
theorem loadConfiguration_eq_ok_iff {c : Configuration} :
    loadConfiguration tree path = .ok c ↔
      ∃ text fields, tree.readText path = .ok text ∧ Json.read text = .ok (.object fields) ∧
        c = fileConfiguration fields := by
  constructor
  · intro h
    unfold loadConfiguration at h
    split at h
    next text htext =>
      unfold readConfiguration at h
      split at h
      next fields hfields =>
        cases h
        exact ⟨text, fields, htext, hfields, rfl⟩
      all_goals cases h
    all_goals cases h
  · intro h
    obtain ⟨text, fields, htext, hfields, rfl⟩ := h
    rw [loadConfiguration, htext]
    show readConfiguration text = _
    rw [readConfiguration, hfields]

/-- A table fails on the configuration of its file. -/
theorem ofFile_eq_table_iff {error : TableError} :
    Table.ofFile tree path = .error (.table error) ↔
      ∃ c, loadConfiguration tree path = .ok c ∧ Table.standard.withAliases c = .error error := by
  rw [Table.ofFile, Results.bind_eq_error_iff]
  constructor
  · intro h
    rcases h with hload | ⟨c, hload, herror⟩
    · exact absurd hload (loadConfiguration_ne_table path error)
    · obtain ⟨error', hwith, herror'⟩ := Results.mapError_eq_error_iff.mp herror
      cases herror'
      exact ⟨c, hload, hwith⟩
  · intro h
    obtain ⟨c, hload, hwith⟩ := h
    exact .inr ⟨c, hload, Results.mapError_eq_error_iff.mpr ⟨error, hwith, rfl⟩⟩

/-! ## Containers in a file -/

/-- The file holds an object, and the first value in it that names no keyword is a container. -/
def HoldsContainer (tree : FileTree) (path : String) (container : Container) : Prop :=
  ∃ text fields before words value after, tree.readText path = .ok text ∧
    Json.read text = .ok (.object fields) ∧
    fileGroups fields = before ++ (words, value) :: after ∧ Valid before ∧
    container? value = some container

theorem withAliases_fileConfiguration_iff {fields : List (String × Json)} {container : Container} :
    Table.standard.withAliases (fileConfiguration fields) = .error (.compositeKind container) ↔
      ∃ before words value after, fileGroups fields = before ++ (words, value) :: after ∧
        Valid before ∧ container? value = some container := by
  rw [withAliases_eq_compositeKind_iff]
  constructor
  · intro h
    obtain ⟨before, e, after, hsplit, hvalid, hcontainer⟩ := h
    refine ⟨before.groups, e.1.words, e.2, Configuration.groups after, ?_, hvalid, hcontainer⟩
    rw [← groups_fileConfiguration, hsplit, Configuration.groups, List.map_append]
    rfl
  · intro h
    obtain ⟨before, words, value, after, hsplit, hvalid, hcontainer⟩ := h
    refine ⟨configurationOf before, (.group (words.map .word), value), configurationOf after, ?_, ?_,
      hcontainer⟩
    · rw [fileConfiguration_eq, hsplit, configurationOf, List.map_append]
      rfl
    · rwa [groups_configurationOf]

/-- This is the one case in which nothing is said of the file. -/
theorem ofFile_eq_compositeKind_iff {container : Container} :
    Table.ofFile tree path = .error (.table (.compositeKind container)) ↔
      HoldsContainer tree path container := by
  simp only [ofFile_eq_table_iff, loadConfiguration_eq_ok_iff]
  constructor
  · intro h
    obtain ⟨c, ⟨text, fields, htext, hfields, rfl⟩, hwith⟩ := h
    obtain ⟨before, words, value, after, hsplit, hvalid, hcontainer⟩ :=
      withAliases_fileConfiguration_iff.mp hwith
    exact ⟨text, fields, before, words, value, after, htext, hfields, hsplit, hvalid, hcontainer⟩
  · intro h
    obtain ⟨text, fields, before, words, value, after, htext, hfields, hsplit, hvalid, hcontainer⟩ := h
    exact ⟨_, ⟨text, fields, htext, hfields, rfl⟩,
      withAliases_fileConfiguration_iff.mpr ⟨before, words, value, after, hsplit, hvalid, hcontainer⟩⟩

/-- For every path and every content of the file there: there is a table, or an error that says what
is wrong, just when the first value of the file that names no keyword is not an array or an object.
If it is, the failure is that it cannot be looked up. -/
theorem ofFile_diagnosed_iff (tree : FileTree) (path : String) :
    (((∃ table, Table.ofFile tree path = .ok table) ∨
        ∃ error, Table.ofFile tree path = .error error ∧ error.isDiagnostic = true) ↔
      ¬ ∃ container, HoldsContainer tree path container) ∧
    ∀ container, HoldsContainer tree path container →
      Table.ofFile tree path = .error (.table (.compositeKind container)) := by
  refine ⟨?_, fun container => ofFile_eq_compositeKind_iff.mpr⟩
  simp only [← ofFile_eq_compositeKind_iff]
  cases hfile : Table.ofFile tree path with
  | ok table => exact iff_of_true (.inl ⟨table, rfl⟩) nofun
  | error error =>
    cases hdiagnostic : error.isDiagnostic with
    | true =>
      refine iff_of_true (.inr ⟨error, rfl, hdiagnostic⟩) ?_
      intro h
      obtain ⟨container, herror⟩ := h
      cases herror
      cases hdiagnostic
    | false =>
      obtain ⟨container, rfl⟩ := FileError.isDiagnostic_eq_false_iff.mp hdiagnostic
      refine iff_of_false ?_ (not_not_intro ⟨container, rfl⟩)
      intro h
      rcases h with ⟨table, htable⟩ | ⟨error, herror, htrue⟩
      · cases htable
      · cases herror
        cases htrue

/-- The text of a keyword file with a list for a keyword. -/
def listedKind : String := "\x7b\"likho\": []\x7d"

/-- Nothing is said of the list: it is not even an unknown name. -/
theorem not_ofFile_diagnosed :
    Table.ofFile { files := [(["k.json"], Text.Utf8.encode listedKind)] } "k.json" =
        .error (.table (.compositeKind .array)) ∧
      ¬ ∀ (tree : FileTree) (path : String), (∃ table, Table.ofFile tree path = .ok table) ∨
        ∃ error, Table.ofFile tree path = .error error ∧ error.isDiagnostic = true := by
  have hfile : Table.ofFile { files := [(["k.json"], Text.Utf8.encode listedKind)] } "k.json" =
      .error (.table (.compositeKind .array)) := by
    refine ofFile_eq_compositeKind_iff.mpr ⟨listedKind.toList, [("likho", .array [])], [],
      ["likho"], .array [], [], Results.eq_ok_of_toOption (by decide +kernel),
      Results.eq_ok_of_toOption (by decide +kernel), by decide +kernel, nofun, rfl⟩
  refine ⟨hfile, ?_⟩
  intro hall
  rcases hall _ "k.json" with ⟨table, htable⟩ | ⟨error, herror, hdiagnostic⟩
  · rw [hfile] at htable
    cases htable
  · rw [hfile] at herror
    cases herror
    cases hdiagnostic

end Boli.Keyword
