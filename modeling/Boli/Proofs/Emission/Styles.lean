import Boli.Proofs.Emission.Layout
import Boli.Proofs.Emission.Literals
import Boli.Proofs.Results

/-!
# The surfaces of the catalogue

Every target of brace style has a surface (`exists_style`). Its templates say what the surface says,
where it does not matter how their fixed texts are cut into pieces (`Template.symbols`). All seven
surfaces keep their fixed texts apart (`apart_of_mem_styles`).
-/

set_option autoImplicit false

namespace Boli

open Boli.Parser (comparisonOperators)
open Surface

/-! ## Templates as characters and holes -/

namespace Template

/-- The characters and the holes of a template. -/
def symbols (template : Template) : List (Char ⊕ Piece) :=
  template.flatMap fun
    | .text s => s.toList.map .inl
    | .next => [.inr .next]
    | .named name => [.inr (.named name)]

/-- A template with a text in place of the holes of a name. -/
def settle (name text : String) (template : Template) : Template :=
  template.map fun piece => if piece = .named name then .text text else piece

/-- Symbols with texts for the holes. -/
def spell (value : Piece → String) (symbols : List (Char ⊕ Piece)) : List Char :=
  symbols.flatMap (Sum.elim (fun c => [c]) fun hole => (value hole).toList)

variable {value : Piece → String}

@[simp]
theorem spell_nil : spell value (symbols []) = [] := rfl

@[simp]
theorem spell_text (s : String) (rest : Template) :
    spell value (symbols (.text s :: rest)) = s.toList ++ spell value (symbols rest) := by
  simp [symbols, spell, List.flatMap_map]

@[simp]
theorem spell_next (rest : Template) :
    spell value (symbols (.next :: rest)) = (value .next).toList ++ spell value (symbols rest) := by
  simp [symbols, spell]

@[simp]
theorem spell_named (name : String) (rest : Template) :
    spell value (symbols (.named name :: rest)) =
      (value (.named name)).toList ++ spell value (symbols rest) := by
  simp [symbols, spell]

/-- What a filled template says, with the values that fill it. -/
theorem toList_of_fillFrom {values : List String} {names : Dictionary String String}
    (hvalues : ∀ v ∈ values, v = value .next)
    (hnames : ∀ name v, Dictionary.get? name names = some v → v = value (.named name)) :
    ∀ {template : Template} {index : Nat} {text : String},
      fillFrom values names index template = .ok text → text.toList = spell value template.symbols
  | [], _, text, h => by
    cases h
    rfl
  | .text s :: rest, index, text, h => by
    rw [fillFrom] at h
    obtain ⟨tail, htail, rfl⟩ := Results.exists_of_map_eq_ok h
    rw [String.toList_append, toList_of_fillFrom hvalues hnames htail, spell_text]
  | .next :: rest, index, text, h => by
    rw [fillFrom] at h
    split at h
    next => cases h
    next v hv =>
      obtain ⟨tail, htail, rfl⟩ := Results.exists_of_map_eq_ok h
      rw [String.toList_append, toList_of_fillFrom hvalues hnames htail, spell_next,
        hvalues v (List.mem_of_getElem? hv)]
  | .named name :: rest, index, text, h => by
    rw [fillFrom] at h
    split at h
    next => cases h
    next v hv =>
      obtain ⟨tail, htail, rfl⟩ := Results.exists_of_map_eq_ok h
      rw [String.toList_append, toList_of_fillFrom hvalues hnames htail, spell_named,
        hnames name v hv]

/-- What fills the holes of a template with values under names. -/
def under (names : Dictionary String String) : Piece → String
  | .named name => (names.get? name).getD ""
  | .text _ | .next => ""

theorem toList_fill {template : Template} {v text : String} (h : template.fill v = .ok text) :
    text.toList = spell (fun _ => v) template.symbols :=
  toList_of_fillFrom (by simp) (by simp [Dictionary.get?]) h

theorem toList_fillNamed {template : Template} {names : Dictionary String String} {text : String}
    (h : template.fillNamed names = .ok text) :
    text.toList = spell (under names) template.symbols :=
  toList_of_fillFrom (List.forall_mem_nil _)
    (fun name v hv => by rw [under, hv, Option.getD_some]) h

/-- Settling a hole for the text that fills it makes no difference. -/
theorem spell_settle (name : String) (template : Template) :
    spell value (template.settle name (value (.named name))).symbols =
      spell value template.symbols := by
  induction template with
  | nil => rfl
  | cons piece rest ih =>
    rw [settle, List.map_cons, ← settle]
    split
    next heq => rw [heq, spell_text, spell_named, ih]
    next =>
      cases piece with
      | text s => rw [spell_text, spell_text, ih]
      | next => rw [spell_next, spell_next, ih]
      | named name' => rw [spell_named, spell_named, ih]

end Template

/-! ## Targets and their surfaces -/

open Template

/-- The template of a call. -/
def Surface.Call.template (c : Surface.Call) : Template :=
  [.text c.start, .named "left", .text c.middle, .named "right", .text c.finish]

/-- Whether no statement begins at a depth in front of a text, by what it begins with. -/
def Surface.closes (S : Surface) (d : Nat) (r : List Char) : Bool :=
  r.isEmpty || (S.indent d ++ "return 0".toList).isPrefixOf r ||
    match d with
    | 0 => false
    | d + 1 => (S.indent d ++ ['\x7d']).isPrefixOf r

theorem Surface.Opens.ne_nil {S : Surface} {o : Opening} {x : List Char} (h : S.Opens o x) :
    x ≠ [] := by
  cases h with
  | name _ hname _ =>
    obtain ⟨c, cs, hletters, -, -⟩ := exists_cons_of_isName hname
    simp [hletters]
  | lead _ hx =>
    intro hnil
    rw [(List.append_eq_nil_iff.1 hnil).2] at hx
    cases hx

theorem Surface.ends_of_closes {S : Surface} (hS : S.Apart) {d : Nat} {r : List Char}
    (h : S.closes d r = true) : S.Ends d r := by
  unfold closes at h
  rw [Bool.or_eq_true, Bool.or_eq_true] at h
  rcases h with (hempty | hreturn) | hclose
  · rw [List.isEmpty_iff] at hempty
    subst hempty
    intro o x hopens _ heq
    exact hopens.ne_nil (List.append_eq_nil_iff.1 heq.symm).2
  · obtain ⟨z, rfl⟩ := List.isPrefixOf_iff_prefix.1 hreturn
    intro o x hopens hkind heq
    rw [List.append_assoc, List.append_cancel_left_eq] at heq
    have hfinish : S.Opens (.lead .finish "return ") ("return ".toList ++ '0' :: z) :=
      .lead (by simp [openings]) rfl
    rw [← heq] at hopens
    exact hkind (congrArg Opening.kind (opens_unique hS hopens hfinish))
  · cases d with
    | zero => cases hclose
    | succ d =>
      obtain ⟨z, rfl⟩ := List.isPrefixOf_iff_prefix.1 hclose
      rw [List.append_assoc]
      exact ends_close hS d z

/-- A target writes what a surface says. -/
structure Target.Shows (t : Target) (S : Surface) : Prop where
  declaration : ∀ type ∈ "" :: t.typeNames.map Prod.snd, ∃ lead ∈ S.declarations,
    (t.declaration.settle "type" type).symbols =
      symbols [.text lead, .named "name", .text S.declarationSign, .named "value"]
  assignment : t.assignment.symbols = symbols [.named "name", " = ", .named "value"]
  print : ∀ e ∈ t.printTemplates, ∃ lead ∈ S.prints,
    e.2.symbols = symbols [.text lead, .named "value", .text S.printEnd]
  string : t.stringTemplate.symbols =
    symbols [.text S.textStart, .next, "\x22", .text S.textEnd]
  operators : ∀ e ∈ t.operators, e.1 ∉ comparisonOperators ∧
    ∃ c ∈ S.call.toList, c.operator = e.1 ∧ e.2.symbols = c.template.symbols
  concatenation : ∀ template ∈ t.concatenation,
    template.symbols = symbols [.named "left", " + ", .named "right"] ∨
      ∃ c ∈ S.call.toList, c.operator = "+" ∧ template.symbols = c.template.symbols
  stringify : t.stringify.symbols = symbols [.next] ∨
    ∃ c ∈ S.conversion.toList, t.stringify.symbols = symbols [.text c.1, .next, .text c.2]
  condition : t.conditionFormat.symbols =
    symbols [.text S.conditionStart, .next, .text S.conditionEnd]
  keywords : t.ifKeyword = "if" ∧ t.elseIfKeyword = "else if" ∧ t.elseKeyword = "else" ∧
    t.whileKeyword = S.loopKeyword
  blocks : t.blockStyle = .braces ∧ t.emptyBlock = none
  stop : t.terminator ++ "\n" = S.stop
  unit : t.indentUnit = S.unit
  bodyLevel : 0 ≤ t.bodyLevel
  closing : S.closes t.bodyLevel.toNat (rows t.closing) = true

namespace Surface

def javaScript : Surface where
  declarations := ["let "]
  prints := ["console.log("]
  call := some { operator := "/", start := "Math.trunc(", middle := " / ", finish := ")" }

def c : Surface where
  declarations := ["char* ", "int ", " "]
  prints := ["printf(\"%d\\n\", ", "printf(\"%s\\n\", "]

def cpp : Surface where
  declarations := ["string ", "int ", " "]
  prints := ["cout << "]
  printEnd := " << endl"
  call := some { operator := "+", start := "string(", middle := ") + ", finish := "" }
  conversion := some ("to_string(", ")")

def go : Surface where
  declarations := [""]
  declarationSign := " := "
  prints := ["fmt.Println("]
  conditionStart := ""
  conditionEnd := ""
  loopKeyword := "for"
  conversion := some ("fmt.Sprint(", ")")
  stop := "\n"

def rust : Surface where
  declarations := ["let mut "]
  prints := ["println!(\"\x7b\x7d\", "]
  conditionStart := ""
  conditionEnd := ""
  textStart := "String::from(\""
  textEnd := ")"
  call :=
    some { operator := "+", start := "format!(\"\x7b\x7d\x7b\x7d\", ", middle := ", ", finish := ")" }

def kotlin : Surface where
  declarations := ["var "]
  prints := ["println("]
  conversion := some ("", ".toString()")
  stop := "\n"
  unit := "    "

def java : Surface where
  declarations := ["String ", "int ", " "]
  prints := ["System.out.println("]
  unit := "    "

end Surface

/-- The targets of brace style with their surfaces. -/
def styles : List (Target × Surface) :=
  [(.javaScript, .javaScript), (.c, .c), (.cpp, .cpp), (.go, .go), (.rust, .rust),
    (.kotlin, .kotlin), (.java, .java)]

theorem exists_style {t : Target} (ht : t ∈ Target.catalogue) (hbraces : t.blockStyle = .braces) :
    ∃ S, (t, S) ∈ styles := by
  have hall : ∀ t ∈ Target.catalogue, t.blockStyle = .braces → t ∈ styles.map Prod.fst := by decide
  obtain ⟨⟨_, S⟩, hmem, rfl⟩ := List.mem_map.1 (hall t ht hbraces)
  exact ⟨S, hmem⟩

theorem shows_of_mem_styles {t : Target} {S : Surface} (h : (t, S) ∈ styles) : t.Shows S := by
  have hvalues : ∀ e ∈ styles,
      e.1.stringTemplate.symbols =
        symbols [.text e.2.textStart, .next, "\x22", .text e.2.textEnd] ∧
      (∀ o ∈ e.1.operators, o.1 ∉ comparisonOperators ∧
        ∃ c ∈ e.2.call.toList, c.operator = o.1 ∧ o.2.symbols = c.template.symbols) ∧
      (∀ template ∈ e.1.concatenation,
        template.symbols = symbols [.named "left", " + ", .named "right"] ∨
          ∃ c ∈ e.2.call.toList, c.operator = "+" ∧ template.symbols = c.template.symbols) ∧
      (e.1.stringify.symbols = symbols [.next] ∨
        ∃ c ∈ e.2.conversion.toList,
          e.1.stringify.symbols = symbols [.text c.1, .next, .text c.2]) ∧
      e.1.conditionFormat.symbols =
        symbols [.text e.2.conditionStart, .next, .text e.2.conditionEnd] := by
    decide +kernel
  have hlines : ∀ e ∈ styles,
      (∀ type ∈ "" :: e.1.typeNames.map Prod.snd, ∃ lead ∈ e.2.declarations,
        (e.1.declaration.settle "type" type).symbols =
          symbols [.text lead, .named "name", .text e.2.declarationSign, .named "value"]) ∧
      e.1.assignment.symbols = symbols [.named "name", " = ", .named "value"] ∧
      (∀ p ∈ e.1.printTemplates, ∃ lead ∈ e.2.prints,
        p.2.symbols = symbols [.text lead, .named "value", .text e.2.printEnd]) := by
    decide +kernel
  have hblocks : ∀ e ∈ styles,
      (e.1.ifKeyword = "if" ∧ e.1.elseIfKeyword = "else if" ∧ e.1.elseKeyword = "else" ∧
        e.1.whileKeyword = e.2.loopKeyword) ∧
      (e.1.blockStyle = .braces ∧ e.1.emptyBlock = none) ∧
      e.1.terminator ++ "\n" = e.2.stop ∧ e.1.indentUnit = e.2.unit ∧ 0 ≤ e.1.bodyLevel ∧
      e.2.closes e.1.bodyLevel.toNat (rows e.1.closing) = true := by
    decide +kernel
  obtain ⟨hs, ho, hc, hy, hf⟩ := hvalues _ h
  obtain ⟨hd, ha, hp⟩ := hlines _ h
  obtain ⟨hk, hb, hst, hu, hl, hcl⟩ := hblocks _ h
  exact ⟨hd, ha, hp, hs, ho, hc, hy, hf, hk, hb, hst, hu, hl, hcl⟩

theorem apart_of_mem_styles {t : Target} {S : Surface} (h : (t, S) ∈ styles) : S.Apart := by
  have hvalues : ∀ e ∈ styles,
      (∀ f ∈ e.2.starts, begins f.2.toList = true) ∧
      (∀ f ∈ e.2.starts, f.2.toList.dropWhile Char.isAlphanum ≠ []) ∧
      (∀ f ∈ e.2.starts, ∀ f' ∈ e.2.starts, f.2.toList <+: f'.2.toList → f = f') ∧
      e.2.rests [' '] = true ∧ (∀ c ∈ e.2.call, e.2.rests c.middle.toList = true) ∧
      (∀ c ∈ e.2.call, c.finish = "" ∨ e.2.rests c.finish.toList = true) ∧
      (∀ c ∈ e.2.conversion, e.2.follows c.2.toList = true) ∧
      (∀ c ∈ e.2.conversion, c.1 = "" → c.2.toList.head? = some '.') := by
    decide +kernel
  have hlines : ∀ e ∈ styles,
      (∀ o ∈ e.2.openings, o.ended = true) ∧
      (∀ o ∈ e.2.openings, ∀ o' ∈ e.2.openings, o = o' ∨ o.apart o' = true) ∧
      e.2.stops e.2.stop.toList = true ∧
      e.2.stops (e.2.printEnd.toList ++ e.2.stop.toList) = true ∧
      e.2.follows (e.2.conditionEnd ++ " \x7b\n").toList = true ∧
      e.2.follows e.2.declarationSign.toList = true ∧ e.2.unit.toList.head? = some ' ' := by
    decide +kernel
  obtain ⟨hb, hm, hst, hbl, hmi, hfi, hco, hsu⟩ := hvalues _ h
  obtain ⟨he, ha, hsp, hpr, hcn, hde, hun⟩ := hlines _ h
  exact ⟨⟨hb, hm, hst, hbl, hmi, hfi, hco, hsu⟩, he, ha, hsp, hpr, hcn, hde, hun⟩

end Boli
