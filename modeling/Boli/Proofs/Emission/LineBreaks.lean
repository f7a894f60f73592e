import Boli.Proofs.Emission.Styles

/-!
# Line breaks in the output

A text of a source may go over several lines, and a literal in the output then does so too: nothing
escapes a line break. The line breaks inside the literals of an output, and those inside its lines, are
just the ones in the texts that are written, in order (`line_breaks_are_those_of_texts`). So an entry
of the emitter is one line of the output as long as these texts hold none (`lines_single_iff`), and not
in general (`not_lines_single`).

A piece of output **carries** a content if the line breaks in it, and those in the bodies of its
literals, are those of the content (`Literal.Carries`). This composes along `++`, and so it goes from
literals through templates and lines to programs.
-/

set_option autoImplicit false

namespace Boli

open Emission Rendering Literal Template

/-! ## Line breaks and bodies of literals -/

namespace Literal

/-- The characters that end a line. -/
def lineBreaks : List Char := ['\n', '\r']

/-- The line breaks of a text, in order. -/
def breaks (cs : List Char) : List Char := cs.filter (· ∈ lineBreaks)

/-- The bodies of the literals of a text, without the quotes around them. -/
def bodies (m : Mode) : List Char → List Char
  | [] => []
  | c :: cs =>
    if m = .code ∨ m.next c = .code then bodies (m.next c) cs else c :: bodies (m.next c) cs

variable {m m' m'' : Mode} {v w cs ds : List Char}

theorem breaks_append (cs ds : List Char) : breaks (cs ++ ds) = breaks cs ++ breaks ds :=
  List.filter_append cs ds

theorem breaks_cons (c : Char) (cs : List Char) :
    breaks (c :: cs) = if c ∈ lineBreaks then c :: breaks cs else breaks cs := by
  simp only [breaks, List.filter_cons, decide_eq_true_eq]

theorem breaks_cons_of_notMem {c : Char} (h : c ∉ lineBreaks) (cs : List Char) :
    breaks (c :: cs) = breaks cs := by
  rw [breaks_cons, if_neg h]

theorem bodies_append (m : Mode) (cs ds : List Char) :
    bodies m (cs ++ ds) = bodies m cs ++ bodies (scan m cs) ds := by
  induction cs generalizing m with
  | nil => rfl
  | cons c cs ih =>
    rw [List.cons_append, bodies, bodies, ih]
    split
    next => rfl
    next => rfl

theorem bodies_sublist (m : Mode) (cs : List Char) : (bodies m cs).Sublist cs := by
  induction cs generalizing m with
  | nil => exact List.Sublist.slnil
  | cons c cs ih =>
    rw [bodies]
    split
    next => exact (ih _).cons c
    next => exact (ih _).cons_cons c

/-- What is left out when bodies are erased is the bodies. -/
theorem Inside.bodies_eq (h : Inside m cs m') : bodies m cs = cs := by
  obtain ⟨-, herase⟩ := h
  induction cs generalizing m with
  | nil => rfl
  | cons c cs ih =>
    rw [erase] at herase
    rw [bodies]
    split at herase
    next => cases herase
    next hbody => rw [if_neg hbody, ih herase]

/-- Escaping adds no line break and takes none away. -/
theorem breaks_escapeFrom (run : Nat) (cs : List Char) :
    breaks (Target.escapeFrom run cs) = breaks cs := by
  have hbackslashes : ∀ n : Nat, breaks (List.replicate n '\\') = [] := fun n =>
    List.filter_eq_nil_iff.mpr fun c hc => by
      rw [List.eq_of_mem_replicate hc]
      decide
  induction cs generalizing run with
  | nil => exact hbackslashes _
  | cons c cs ih =>
    rw [Target.escapeFrom]
    split
    next hc =>
      rw [ih, hc]
      exact (breaks_cons_of_notMem (by decide) cs).symm
    next =>
      split
      next hc =>
        rw [breaks_append, hbackslashes, hc, breaks_cons_of_notMem (by decide),
          breaks_cons_of_notMem (by decide), ih]
        rfl
      next => rw [breaks_append, hbackslashes, List.nil_append, breaks_cons, breaks_cons, ih]

/-! ## Contents that are carried -/

/-- A text takes the scan from one place to another, and the line breaks in it are those of a content,
as are the ones in the bodies of its literals. -/
structure Carries (m : Mode) (v : List Char) (m' : Mode) (content : List Char) : Prop where
  scan_eq : scan m v = m'
  breaks_eq : breaks v = breaks content
  breaks_bodies : breaks (bodies m v) = breaks content

namespace Carries

/-- A text without line breaks carries nothing. -/
theorem fixed (hscan : scan m v = m') (hv : breaks v = []) : Carries m v m' [] where
  scan_eq := hscan
  breaks_eq := hv
  breaks_bodies := by
    have hsub : (breaks (bodies m v)).Sublist (breaks v) := (bodies_sublist m v).filter _
    rw [hv] at hsub
    exact List.sublist_nil.mp hsub

theorem nil : Carries m [] m [] := fixed rfl rfl

theorem append (h : Carries m v m' cs) (h' : Carries m' w m'' ds) :
    Carries m (v ++ w) m'' (cs ++ ds) where
  scan_eq := by rw [scan_append, h.scan_eq, h'.scan_eq]
  breaks_eq := by rw [breaks_append, breaks_append, h.breaks_eq, h'.breaks_eq]
  breaks_bodies := by
    rw [bodies_append, breaks_append, breaks_append, h.scan_eq, h.breaks_bodies, h'.breaks_bodies]

/-- What stands in front of a text that carries a content carries nothing. -/
theorem append_left (h : Carries m v m' []) (h' : Carries m' w m'' cs) : Carries m (v ++ w) m'' cs :=
  h.append h'

theorem append_right (h : Carries m v m' cs) (h' : Carries m' w m'' []) :
    Carries m (v ++ w) m'' cs := by
  have happend := h.append h'
  rwa [List.append_nil] at happend

/-- The content of a literal is carried by what is written for it. -/
theorem escapeContent (s : String) :
    Carries .literal (Target.escapeContent s).toList .literal s.toList := by
  have hinside := Inside.escapeFrom s.toList 0
  have hbreaks := breaks_escapeFrom 0 s.toList
  rw [Target.escapeContent, String.toList_ofList]
  exact ⟨hinside.scan_eq, hbreaks, by rw [hinside.bodies_eq, hbreaks]⟩

end Carries

/-- A character that is neither a double quote nor a line break. -/
def IsInline (c : Char) : Prop := c ≠ '\x22' ∧ c ∉ lineBreaks

instance (c : Char) : Decidable (IsInline c) := inferInstanceAs (Decidable (_ ∧ _))

/-- A text in one line and without quotes. -/
def InlineText (v : String) : Prop := ∀ c ∈ v.toList, IsInline c

-- Goes through the text; there is also a decision that goes through all characters.
instance (v : String) : Decidable (InlineText v) := List.decidableBAll IsInline v.toList

theorem InlineText.append {v w : String} (h : InlineText v) (h' : InlineText w) :
    InlineText (v ++ w) := by
  rw [InlineText, String.toList_append]
  exact List.forall_mem_append.mpr ⟨h, h'⟩

/-- Such a text fits wherever there is code, and carries nothing. -/
theorem InlineText.carries {v : String} (h : InlineText v) : Carries .code v.toList .code [] := by
  unfold InlineText at h
  generalize v.toList = cs at h
  induction cs with
  | nil => exact .nil
  | cons c cs ih =>
    obtain ⟨⟨hquote, hbreak⟩, hcs⟩ := List.forall_mem_cons.mp h
    have hc : Carries .code [c] .code [] := .fixed (if_neg hquote) (breaks_cons_of_notMem hbreak [])
    exact hc.append (ih hcs)

theorem isInline_of_isAlphanum {c : Char} (h : c.isAlphanum = true) : IsInline c := by
  have hne {d : Char} (hd : d.isAlphanum = false) : c ≠ d := by
    rintro rfl
    rw [hd] at h
    cases h
  simp only [IsInline, lineBreaks, List.mem_cons, List.not_mem_nil, or_false, not_or]
  exact ⟨hne rfl, hne rfl, hne rfl⟩

theorem inlineText_of_write {n : Int} {v : String} (h : Text.Numeral.write n = .ok v) :
    InlineText v := by
  intro c hc
  rcases isDigit_of_write h c hc with hdigit | rfl
  · exact isInline_of_isAlphanum (by rw [Char.isAlphanum, hdigit, Bool.or_true])
  · decide

end Literal

/-! ## Templates -/

namespace Template

/-- The fixed texts of a template. -/
def texts (template : Template) : List String :=
  template.filterMap fun
    | .text s => some s
    | .next | .named _ => none

/-- The holes of a template, in order. -/
def holes (template : Template) : List Piece :=
  template.filter fun
    | .text _ => false
    | .next | .named _ => true

/-- A template of code with these holes, which stand where values of a sort fit, and with fixed texts
that hold no line break. -/
def Conveys (hole : Mode) (template : Template) (holes : List Piece) : Prop :=
  Seals hole template ∧ template.holes = holes ∧ ∀ s ∈ template.texts, breaks s.toList = []

instance (hole : Mode) (template : Template) (holes : List Piece) :
    Decidable (template.Conveys hole holes) := inferInstanceAs (Decidable (_ ∧ _ ∧ _))

/-- A template carries what the values in its holes carry, in order. -/
theorem carries_spell {hole : Mode} {value : Piece → String} {content : Piece → List Char}
    (hvalue : ∀ piece, Carries hole (value piece).toList hole (content piece)) :
    ∀ {template : Template} {m m' : Mode} {due due' : List Char},
      (∀ s ∈ template.texts, breaks s.toList = []) →
      leads hole m due template = some (m', due') →
      Carries m (spell value template.symbols) m' (template.holes.flatMap content)
  | [], _, _, _, _, _, hleads => by
    cases hleads
    exact .nil
  | .text s :: rest, m, m', due, due', htexts, hleads => by
    obtain ⟨hs, hrest⟩ := List.forall_mem_cons.mp htexts
    obtain ⟨due₁, -, hleads⟩ := Option.bind_eq_some_iff.mp hleads
    rw [spell_text]
    exact (Carries.fixed rfl hs).append_left (carries_spell hvalue hrest hleads)
  | .next :: rest, m, m', due, due', htexts, hleads => by
    rw [leads] at hleads
    split at hleads
    next hm =>
      subst hm
      rw [spell_next]
      exact (hvalue .next).append (carries_spell hvalue htexts hleads)
    next => cases hleads
  | .named name :: rest, m, m', due, due', htexts, hleads => by
    rw [leads] at hleads
    split at hleads
    next hm =>
      subst hm
      rw [spell_named]
      exact (hvalue (.named name)).append (carries_spell hvalue htexts hleads)
    next => cases hleads

/-- Something for the holes that take a value in order, and something else for all others. -/
def atNext {α : Type} (other a : α) : Piece → α
  | .next => a
  | .text _ | .named _ => other

theorem carries_fill {hole : Mode} {template : Template} {v text : String} {cs : List Char}
    (htemplate : template.Conveys hole [.next]) (hv : Carries hole v.toList hole cs)
    (h : template.fill v = .ok text) : Carries .code text.toList .code cs := by
  obtain ⟨hseals, hholes, htexts⟩ := htemplate
  have hspell : text.toList = spell (atNext "" v) template.symbols :=
    toList_of_fillFrom (by simp [atNext]) (by simp [Dictionary.get?]) h
  have hcarries : Carries .code (spell (atNext "" v) template.symbols) .code
      (template.holes.flatMap (atNext [] cs)) := by
    refine carries_spell (fun piece => ?_) htexts hseals
    cases piece with
    | next => exact hv
    | text s => exact .nil
    | named name => exact .nil
  rw [hholes, List.flatMap_singleton] at hcarries
  rw [hspell]
  exact hcarries

/-- What the values for the holes of a template carry, by the names of the holes. -/
def carriedUnder (names : Dictionary String (List Char)) : Piece → List Char
  | .named name => (names.get? name).getD []
  | .text _ | .next => []

/-- Values under names carry contents under the same names. -/
def NamesCarry (names : Dictionary String String) (contents : Dictionary String (List Char)) : Prop :=
  ∀ name, Carries .code ((names.get? name).getD "").toList .code ((contents.get? name).getD [])

theorem NamesCarry.nil : NamesCarry [] [] := fun _ => .nil

theorem NamesCarry.cons {names : Dictionary String String} {contents : Dictionary String (List Char)}
    {v : String} {cs : List Char} (key : String) (hv : Carries .code v.toList .code cs)
    (h : NamesCarry names contents) : NamesCarry ((key, v) :: names) ((key, cs) :: contents) := by
  intro name
  rw [Dictionary.get?, Dictionary.get?]
  split
  next => exact hv
  next => exact h name

theorem carries_fillNamed {template : Template} {holes : List Piece} {names : Dictionary String String}
    {contents : Dictionary String (List Char)} {text : String}
    (htemplate : template.Conveys .code holes) (hnames : NamesCarry names contents)
    (h : template.fillNamed names = .ok text) :
    Carries .code text.toList .code (holes.flatMap (carriedUnder contents)) := by
  obtain ⟨hseals, hholes, htexts⟩ := htemplate
  rw [toList_fillNamed h, ← hholes]
  refine carries_spell (fun piece => ?_) htexts hseals
  cases piece with
  | next => exact .nil
  | text s => exact .nil
  | named name => exact hnames name

end Template

/-! ## Contents of a program -/

/-- What stands in the texts of an expression, in order. -/
def Expression.contents : Expression → List Char
  | .text s => s.toList
  | .binary _ left right => left.contents ++ right.contents
  | .number _ | .identifier _ | .foreign _ _ => []

/-- What stands in the texts of a condition, in order. -/
def Condition.contents : Condition → List Char
  | .compare left _ right => left.contents ++ right.contents
  | .foreign _ _ => []

namespace Rendering

mutual

/-- What stands in the texts that are written for a statement, in order. -/
def contents (t : Target) (b : Bindings) : Statement → List Char
  | .declare _ e | .assign _ e | .evaluate e | .print e => e.contents
  | .branch c body rest =>
    c.contents ++ (allContents t b body ++ restContents t (allAfter t b body) rest)
  | .loop c body => c.contents ++ allContents t b body
  | .foreign _ _ => []

/-- What stands in the texts that are written for what follows the body of a branch, in order. -/
def restContents (t : Target) (b : Bindings) : Otherwise → List Char
  | .nothing => []
  | .last body => allContents t b body
  | .elseIf c body rest =>
    c.contents ++ (allContents t b body ++ restContents t (allAfter t b body) rest)

/-- What stands in the texts that are written for statements, in order. Nothing is for one that a
comment line stands for. -/
def allContents (t : Target) (b : Bindings) : List Statement → List Char
  | [] => []
  | s :: ss =>
    (if (rejected t b s).isSome then [] else contents t b s) ++ allContents t (after t b s) ss

end

/-- What stands in the texts that are written for a program, in order. -/
def programContents (t : Target) : Program → List Char
  | .statements ss => allContents t [] ss
  | .foreign _ _ => []

end Rendering

/-! ## Targets -/

/-- The templates of a target have a hole for each value that they are for, and neither they nor other
texts of the target hold a line break. -/
structure Target.Unbroken (t : Target) : Prop where
  declaration : t.declaration.Conveys .code [.named "type", .named "name", .named "value"] ∨
    t.declaration.Conveys .code [.named "name", .named "value"]
  assignment : t.assignment.Conveys .code [.named "name", .named "value"]
  print : ∀ e ∈ t.printTemplates, e.2.Conveys .code [.named "value"]
  string : t.stringTemplate.Conveys .literal [.next]
  operators : ∀ e ∈ t.operators, e.2.Conveys .code [.named "left", .named "right"]
  concatenation : ∀ template ∈ t.concatenation, template.Conveys .code [.named "left", .named "right"]
  stringify : t.stringify.Conveys .code [.next]
  condition : t.conditionFormat.Conveys .code [.next]
  words : ∀ s ∈ t.words, InlineText s
  frame : ∀ s ∈ t.opening ++ t.closing, scan .code s.toList = .code ∧ breaks s.toList = []

theorem Target.unbroken_of_mem_catalogue {t : Target} (h : t ∈ catalogue) : t.Unbroken := by
  have hall : ∀ t ∈ catalogue,
      (t.declaration.Conveys .code [.named "type", .named "name", .named "value"] ∨
        t.declaration.Conveys .code [.named "name", .named "value"]) ∧
      t.assignment.Conveys .code [.named "name", .named "value"] ∧
      (∀ e ∈ t.printTemplates, e.2.Conveys .code [.named "value"]) ∧
      t.stringTemplate.Conveys .literal [.next] ∧
      (∀ e ∈ t.operators, e.2.Conveys .code [.named "left", .named "right"]) ∧
      (∀ template ∈ t.concatenation, template.Conveys .code [.named "left", .named "right"]) ∧
      t.stringify.Conveys .code [.next] ∧ t.conditionFormat.Conveys .code [.next] ∧
      (∀ s ∈ t.words, InlineText s) ∧
      (∀ s ∈ t.opening ++ t.closing, scan .code s.toList = .code ∧ breaks s.toList = []) := by
    decide +kernel
  obtain ⟨hd, ha, hp, hs, ho, hc, hy, hf, hw, hframe⟩ := hall t h
  exact ⟨hd, ha, hp, hs, ho, hc, hy, hf, hw, hframe⟩

/-! ## Texts -/

/-- A template for an operation carries what its operands do. -/
theorem carries_operands {template : Template} {l r text : String} {cs ds : List Char}
    (htemplate : template.Conveys .code [.named "left", .named "right"])
    (hl : Carries .code l.toList .code cs) (hr : Carries .code r.toList .code ds)
    (h : template.fillNamed (Target.operands l r) = .ok text) :
    Carries .code text.toList .code (cs ++ ds) := by
  have hcarries := carries_fillNamed htemplate (.cons "left" hl (.cons "right" hr .nil)) h
  simpa [carriedUnder, Dictionary.get?] using hcarries

/-- The names among tokens are in one line and without quotes. -/
def InlineNames (tokens : List Token) : Prop := ∀ name, IsNameOf tokens name → InlineText name

section Texts

variable {t : Target} {tokens : List Token} (ht : t.Unbroken)

include ht

theorem carries_binary {operator l r text : String} {cs ds : List Char} (hop : InlineText operator)
    (hl : Carries .code l.toList .code cs) (hr : Carries .code r.toList .code ds)
    (h : t.binary operator l r = .ok text) : Carries .code text.toList .code (cs ++ ds) := by
  unfold Target.binary at h
  split at h
  next =>
    cases h
    have hblank : Carries .code " ".toList .code [] := InlineText.carries (by decide)
    simp only [String.toList_append]
    exact (((hl.append_right hblank).append_right hop.carries).append_right hblank).append hr
  next template hget =>
    exact carries_operands (ht.operators _ (Dictionary.mem_of_get? hget)) hl hr h

theorem carries_concatenate {l r text : String} {cs ds : List Char}
    (hl : Carries .code l.toList .code cs) (hr : Carries .code r.toList .code ds)
    (h : t.concatenate l r = .ok (some text)) : Carries .code text.toList .code (cs ++ ds) := by
  unfold Target.concatenate at h
  split at h
  next => cases h
  next template htemplate =>
    obtain ⟨_, hfill, hsame⟩ := Results.exists_of_map_eq_ok h
    cases hsame
    exact carries_operands (ht.concatenation template htemplate) hl hr hfill

theorem carries_asString {b : Bindings} {e : Expression} {v text : String} {cs : List Char}
    (hv : Carries .code v.toList .code cs) (h : asString t b e v = .ok text) :
    Carries .code text.toList .code cs := by
  unfold asString at h
  split at h
  next =>
    cases h
    exact hv
  next => exact carries_fill ht.stringify hv (Results.eq_ok_of_mapError h)

variable (hnames : InlineNames tokens) {b : Bindings}

include hnames

theorem carries_primary {e : Expression} (he : e.IsPrimaryOf tokens) {text : String}
    (h : expression t b e = .ok text) : Carries .code text.toList .code e.contents := by
  cases e with
  | number n => exact (inlineText_of_write (Results.eq_ok_of_mapError h)).carries
  | text s => exact carries_fill ht.string (.escapeContent s) (Results.eq_ok_of_mapError h)
  | identifier name =>
    cases h
    exact (hnames _ he).carries
  | binary operator left right => exact he.elim
  | foreign kind data => exact he.elim

theorem carries_expression {e : Expression} (he : e.IsBuiltOf tokens) {text : String}
    (h : expression t b e = .ok text) : Carries .code text.toList .code e.contents := by
  cases e with
  | number n => exact carries_primary ht hnames (e := .number n) he h
  | text s => exact carries_primary ht hnames (e := .text s) he h
  | identifier name => exact carries_primary ht hnames (e := .identifier name) he h
  | foreign kind data => exact he.elim
  | binary operator left right =>
    obtain ⟨hoperator, hleft, hright⟩ := he
    rw [expression] at h
    obtain ⟨l, hl, h⟩ := Results.exists_of_bind_eq_ok h
    obtain ⟨r, hr, h⟩ := Results.exists_of_bind_eq_ok h
    have hl := carries_primary ht hnames hleft hl
    have hr := carries_primary ht hnames hright hr
    split at h
    next =>
      obtain ⟨l', hl', h⟩ := Results.exists_of_bind_eq_ok h
      obtain ⟨r', hr', h⟩ := Results.exists_of_bind_eq_ok h
      obtain ⟨joined, hjoined, h⟩ := Results.exists_of_bind_eq_ok h
      cases joined with
      | none => cases h
      | some joined =>
        cases h
        exact carries_concatenate ht (carries_asString ht hl hl') (carries_asString ht hr hr')
          (Results.eq_ok_of_mapError hjoined)
    next =>
      have hinline : ∀ operator ∈ Parser.arithmeticOperators, InlineText operator := by decide
      exact carries_binary ht (hinline operator hoperator) hl hr (Results.eq_ok_of_mapError h)

theorem carries_condition {c : Condition} (hc : c.IsBuiltOf tokens) {text : String}
    (h : condition t b c = .ok text) : Carries .code text.toList .code c.contents := by
  cases c with
  | foreign kind data => exact hc.elim
  | compare left operator right =>
    obtain ⟨hoperator, hleft, hright⟩ := hc
    rw [condition] at h
    obtain ⟨l, hl, h⟩ := Results.exists_of_bind_eq_ok h
    obtain ⟨r, hr, h⟩ := Results.exists_of_bind_eq_ok h
    obtain ⟨v, hv, h⟩ := Results.exists_of_bind_eq_ok h
    have hinline : ∀ operator ∈ Parser.comparisonOperators, InlineText operator := by decide
    have hv := carries_binary ht (hinline operator hoperator) (carries_primary ht hnames hleft hl)
      (carries_primary ht hnames hright hr) (Results.eq_ok_of_mapError hv)
    exact carries_fill ht.condition hv (Results.eq_ok_of_mapError h)

variable (hc : t.Complete)

include hc

/-- The text of an expression that is not refused carries what stands in its texts. -/
theorem exists_carried {e : Expression} (he : e.IsBuiltOf tokens)
    (h : refusal (expression t b e) = none) :
    ∃ v, expression t b e = .ok v ∧ Carries .code v.toList .code e.contents := by
  have hwritable := (Form.builtOf_implies_writable tokens).value e he
  obtain ⟨v, hv⟩ := exists_ok (expression_settled hc b e hwritable) h
  exact ⟨v, hv, carries_expression ht hnames he hv⟩

theorem carries_declarationText {name : String} {e : Expression} (hname : IsNameOf tokens name)
    (he : e.IsBuiltOf tokens) (h : rejected t b (.declare name e) = none) :
    Carries .code (shown (declarationText t b name e)).toList .code e.contents := by
  obtain ⟨v, hv, hcarries⟩ := exists_carried ht hnames hc he h
  obtain ⟨text, htext⟩ := Template.exists_fillNamed t.declaration
    [("type", t.typeName (valueKind b e)), ("name", name), ("value", v)] hc.declaration
  have hline : declarationText t b name e = .ok text := filled_eq hv htext
  have htype : InlineText (t.typeName (valueKind b e)) := by
    rcases List.mem_cons.mp (t.typeName_mem (valueKind b e)) with hnone | hmem
    · rw [hnone]
      exact List.forall_mem_nil _
    · exact ht.words _ (List.mem_append_right _ hmem)
  have hcarried := NamesCarry.cons "type" htype.carries
    (.cons "name" (hnames name hname).carries (.cons "value" hcarries .nil))
  rw [hline]
  show Carries .code text.toList .code e.contents
  rcases ht.declaration with hconveys | hconveys
  · simpa [carriedUnder, Dictionary.get?] using carries_fillNamed hconveys hcarried htext
  · simpa [carriedUnder, Dictionary.get?] using carries_fillNamed hconveys hcarried htext

theorem carries_assignmentText {name : String} {e : Expression} (hname : IsNameOf tokens name)
    (he : e.IsBuiltOf tokens) (h : rejected t b (.assign name e) = none) :
    Carries .code (shown (assignmentText t b name e)).toList .code e.contents := by
  obtain ⟨v, hv, hcarries⟩ := exists_carried ht hnames hc he h
  obtain ⟨text, htext⟩ := Template.exists_fillNamed t.assignment [("name", name), ("value", v)]
    hc.assignment
  have hline : assignmentText t b name e = .ok text := filled_eq hv htext
  have hcarried := NamesCarry.cons "name" (hnames name hname).carries
    (.cons "value" hcarries .nil)
  rw [hline]
  show Carries .code text.toList .code e.contents
  simpa [carriedUnder, Dictionary.get?] using carries_fillNamed ht.assignment hcarried htext

theorem carries_printText {e : Expression} (he : e.IsBuiltOf tokens)
    (h : rejected t b (.print e) = none) :
    Carries .code (shown (printText t b e)).toList .code e.contents := by
  obtain ⟨v, hv, hcarries⟩ := exists_carried ht hnames hc he h
  obtain ⟨template, htemplate, hfits⟩ := hc.exists_printTemplate (valueKind b e)
  obtain ⟨text, htext⟩ := Template.exists_fillNamed template [("value", v)] hfits
  obtain ⟨kind, hmem⟩ := Target.mem_of_printTemplate htemplate
  have hline : printText t b e = .ok text := by
    rw [printText, htemplate]
    exact filled_eq hv htext
  rw [hline]
  show Carries .code text.toList .code e.contents
  simpa [carriedUnder, Dictionary.get?] using
    carries_fillNamed (ht.print _ hmem) (NamesCarry.cons "value" hcarries .nil) htext

theorem carries_header {keyword : String} (hkeyword : keyword ∈ t.words) {c : Condition}
    (hcond : c.IsBuiltOf tokens) :
    Carries .code (keyword ++ " " ++ shown (condition t b c)).toList .code c.contents := by
  have hwritable := (Form.builtOf_implies_writable tokens).condition c hcond
  obtain ⟨text, htext⟩ := exists_ok (condition_settled hc b c hwritable)
    (refusal_condition hc b hcond)
  have hlead : InlineText (keyword ++ " ") := (ht.words keyword hkeyword).append (by decide)
  rw [htext, String.toList_append]
  exact hlead.carries.append_left (carries_condition ht hnames hcond htext)

end Texts

/-! ## Lines -/

/-- The lines carry contents one after the other. -/
inductive LinesCarry (t : Target) : List Line → List Char → Prop where
  | nil : LinesCarry t [] []
  | cons {l : Line} {ls : List Line} {cs ds : List Char} :
    Carries .code (l.render t).toList .code cs → LinesCarry t ls ds → LinesCarry t (l :: ls) (cs ++ ds)

namespace LinesCarry

variable {t : Target} {ls ls' : List Line} {cs ds : List Char}

theorem append (h : LinesCarry t ls cs) (h' : LinesCarry t ls' ds) :
    LinesCarry t (ls ++ ls') (cs ++ ds) := by
  induction h with
  | nil => exact h'
  | cons hl _ ih =>
    rw [List.cons_append, List.append_assoc]
    exact .cons hl ih

theorem append_right (h : LinesCarry t ls cs) (h' : LinesCarry t ls' []) :
    LinesCarry t (ls ++ ls') cs := by
  have happend := h.append h'
  rwa [List.append_nil] at happend

theorem inlineText_indentation (ht : t.Unbroken) (depth : Int) : InlineText (indentation t depth) := by
  unfold indentation repeated
  generalize depth.toNat = n
  induction n with
  | zero => exact List.forall_mem_nil _
  | succ n ih =>
    rw [List.replicate_succ, String.join_cons]
    exact (ht.words _ (by simp [Target.words])).append ih

theorem line (ht : t.Unbroken) (depth : Int) {v : String} (h : Carries .code v.toList .code cs) :
    LinesCarry t [⟨depth, v⟩] cs := by
  have hline : Carries .code (Line.render t ⟨depth, v⟩).toList .code cs := by
    rw [Line.render, String.toList_append]
    exact (inlineText_indentation ht depth).carries.append_left h
  have hlines := cons hline nil
  rwa [List.append_nil] at hlines

/-- A simple statement is one line. -/
theorem simple (ht : t.Unbroken) (depth : Int) {v : String} (h : Carries .code v.toList .code cs) :
    LinesCarry t [⟨depth, v ++ t.terminator⟩] cs := by
  apply line ht depth
  rw [String.toList_append]
  exact h.append_right (ht.words _ (by simp [Target.words])).carries

theorem closer (ht : t.Unbroken) (depth : Int) : LinesCarry t (closer t depth) [] := by
  unfold Rendering.closer
  cases t.blockStyle with
  | braces => exact line ht depth (InlineText.carries (by decide))
  | colon => exact .nil

theorem filler (ht : t.Unbroken) (depth : Int) (body : List Statement) :
    LinesCarry t (filler t depth body) [] := by
  unfold Rendering.filler
  split
  next text hfiller =>
    exact line ht depth (ht.words _ (by simp [Target.words, hfiller])).carries
  next => exact .nil

theorem block (ht : t.Unbroken) (depth : Int) {header : String} (body : List Statement)
    (hheader : Carries .code header.toList .code cs) (hbody : LinesCarry t ls ds) :
    LinesCarry t (blockLines t depth header body ls) (cs ++ ds) := by
  have hopener : Carries .code (opener t header).toList .code cs := by
    unfold opener
    cases t.blockStyle with
    | braces =>
      rw [String.toList_append]
      exact hheader.append_right (InlineText.carries (by decide))
    | colon =>
      rw [String.toList_append]
      exact hheader.append_right (InlineText.carries (by decide))
  exact (line ht depth hopener).append ((filler ht (depth + 1) body).append hbody)

theorem carries_continuation {header : String} (t : Target)
    (hheader : Carries .code header.toList .code cs) :
    Carries .code (continuation t header).toList .code cs := by
  unfold continuation
  cases t.blockStyle with
  | braces =>
    rw [String.toList_append]
    exact (InlineText.carries (by decide)).append_left hheader
  | colon => exact hheader

/-- A comment line for an operation. -/
theorem comment (ht : t.Unbroken) (depth : Int) :
    LinesCarry t [⟨depth, comment t "BinaryExpression"⟩] [] := by
  have hmark : InlineText t.commentMark := ht.words _ (by simp [Target.words])
  exact line ht depth ((hmark.append (by decide)).append (by decide)).carries

/-- Entries that hold no line break of their own, as code. -/
theorem frame {texts : List String}
    (h : ∀ s ∈ texts, scan .code s.toList = .code ∧ breaks s.toList = []) :
    LinesCarry t (texts.map (Line.mk 0)) [] := by
  induction texts with
  | nil => exact .nil
  | cons s texts ih =>
    obtain ⟨⟨hscan, hs⟩, htexts⟩ := List.forall_mem_cons.mp h
    have hline : Carries .code (Line.render t ⟨0, s⟩).toList .code [] := by
      rw [show Line.render t ⟨0, s⟩ = s from String.empty_append]
      exact .fixed hscan hs
    exact .cons hline (ih htexts)

end LinesCarry

variable {t : Target} {tokens : List Token}

mutual

theorem lines_carry (ht : t.Unbroken) (hc : t.Complete) (hnames : InlineNames tokens) :
    ∀ {s : Statement} (b : Bindings) (depth : Int), s.Has (.builtOf tokens) →
      rejected t b s = none → LinesCarry t (lines t b depth s) (contents t b s)
  | .declare name e, b, depth, ⟨hname, he⟩, h =>
    .simple ht depth (carries_declarationText ht hnames hc hname he h)
  | .assign name e, b, depth, ⟨hname, he⟩, h =>
    .simple ht depth (carries_assignmentText ht hnames hc hname he h)
  | .print e, b, depth, he, h => .simple ht depth (carries_printText ht hnames hc he h)
  | .evaluate e, b, depth, ⟨name, hname, hn⟩, _ => by
    subst hname
    exact .simple ht depth (hnames name hn).carries
  | .foreign _ _, _, _, h, _ => h.elim
  | .branch c body rest, b, depth, ⟨hcond, hbody, hrest⟩, _ => by
    have hkeyword : t.ifKeyword ∈ t.words := by simp [Target.words]
    have hheader := carries_header ht hnames hc (b := b) hkeyword hcond
    have hlines := allLines_carry ht hc hnames b (depth + 1) hbody
    have hlast := restLines_carry ht hc hnames (allAfter t b body) depth hrest
    rw [lines, contents, ← List.append_assoc]
    exact ((LinesCarry.block ht depth body hheader hlines).append hlast).append_right
      (.closer ht depth)
  | .loop c body, b, depth, ⟨hcond, hbody⟩, _ => by
    have hkeyword : t.whileKeyword ∈ t.words := by simp [Target.words]
    have hheader := carries_header ht hnames hc (b := b) hkeyword hcond
    have hlines := allLines_carry ht hc hnames b (depth + 1) hbody
    rw [lines, contents]
    exact (LinesCarry.block ht depth body hheader hlines).append_right (.closer ht depth)

theorem restLines_carry (ht : t.Unbroken) (hc : t.Complete) (hnames : InlineNames tokens) :
    ∀ {r : Otherwise} (b : Bindings) (depth : Int), r.Has (.builtOf tokens) →
      LinesCarry t (restLines t b depth r) (restContents t b r)
  | .nothing, _, _, _ => .nil
  | .last body, b, depth, hbody => by
    have hheader : InlineText t.elseKeyword := ht.words _ (by simp [Target.words])
    exact LinesCarry.block ht depth body (LinesCarry.carries_continuation t hheader.carries)
      (allLines_carry ht hc hnames b (depth + 1) hbody)
  | .elseIf c body rest, b, depth, ⟨hcond, hbody, hrest⟩ => by
    have hkeyword : t.elseIfKeyword ∈ t.words := by simp [Target.words]
    have hheader := carries_header ht hnames hc (b := b) hkeyword hcond
    have hlines := allLines_carry ht hc hnames b (depth + 1) hbody
    have hlast := restLines_carry ht hc hnames (allAfter t b body) depth hrest
    rw [restLines, restContents, ← List.append_assoc]
    exact (LinesCarry.block ht depth body (LinesCarry.carries_continuation t hheader) hlines).append
      hlast

/-- The lines of statements carry what stands in the texts that are written for them. -/
theorem allLines_carry (ht : t.Unbroken) (hc : t.Complete) (hnames : InlineNames tokens) :
    ∀ {ss : List Statement} (b : Bindings) (depth : Int), AllHave (.builtOf tokens) ss →
      LinesCarry t (allLines t b depth ss) (allContents t b ss)
  | [], _, _, _ => .nil
  | s :: ss, b, depth, ⟨hs, hss⟩ => by
    rw [allLines, allContents]
    refine .append ?_ (allLines_carry ht hc hnames _ depth hss)
    cases hkind : rejected t b s with
    | none => exact lines_carry ht hc hnames b depth hs hkind
    | some kind =>
      -- Only operations are dropped, so the kind in a comment line holds no line break.
      have hmem : kind ∈ dropsIn t b s ++ (rejected t b s).toList := by
        rw [hkind]
        exact List.mem_append_right _ (List.mem_singleton_self kind)
      obtain ⟨rfl, -⟩ := (mem_drops_statement hc kind b hs).mp hmem
      exact .comment ht depth

end

/-! ## Outputs -/

namespace LinesCarry

variable {ls : List Line} {cs : List Char}

/-- The line breaks between lines are not in literals. -/
theorem breaks_bodies_rows (h : LinesCarry t ls cs) :
    breaks (bodies .code (rows (ls.map (Line.render t)))) = breaks cs := by
  induction h with
  | nil => rfl
  | cons hl _ ih =>
    rw [List.map_cons, rows, List.flatMap_cons, ← rows, bodies_append, bodies_append, scan_append,
      hl.scan_eq, show bodies .code ['\n'] = [] from rfl, show scan .code ['\n'] = .code from rfl,
      List.append_nil, breaks_append, breaks_append, hl.breaks_bodies, ih]

theorem breaks_flatMap (h : LinesCarry t ls cs) :
    breaks (ls.flatMap fun l => (l.render t).toList) = breaks cs := by
  induction h with
  | nil => rfl
  | cons hl _ ih => rw [List.flatMap_cons, breaks_append, breaks_append, hl.breaks_eq, ih]

end LinesCarry

/-- The text that is given is that of the lines at the end, and these carry what stands in the texts
that are written. -/
theorem exists_lines_carry (ht : t ∈ Target.catalogue) {policy : Policy} {p : Program}
    (hp : Accepted p) {out : String} (hout : emit t policy p = .ok out) :
    ∃ σ : State, EStateM.run (program t policy p) {} = .ok out σ ∧
      out.toList = rows (σ.lines.map (Line.render t)) ∧
      LinesCarry t σ.lines (programContents t p) := by
  obtain ⟨table, source, tokens, mode, htokens, hparse⟩ := hp
  obtain ⟨ss, rfl, hss⟩ := exists_built_of_parse hparse
  have hcomplete := Target.complete_of_mem_catalogue ht
  have hunbroken := Target.unbroken_of_mem_catalogue ht
  have hnames : InlineNames tokens := fun name hname c hc =>
    isInline_of_isAlphanum (isAlphanum_of_isNameOf htokens hname c hc)
  have hwritable := allHave_of_implies (Form.builtOf_implies_writable tokens) ss hss
  obtain ⟨hdrops, rfl⟩ := (emit_eq_ok_iff hcomplete policy hwritable).mp hout
  let σ := written (start t) (filler t t.bodyLevel ss ++ allLines t [] t.bodyLevel ss)
    (allAfter t [] ss) (allDrops t [] ss)
  have hbody : body t policy ss (start t) = .ok () σ :=
    (body_goes hcomplete policy hwritable (start t)).run_eq_ok hdrops
  have hopening := Target.Closed.opening_ne_nil (Target.closed_of_mem_catalogue ht)
  have hlines := (LinesCarry.filler hunbroken t.bodyLevel ss).append
    (allLines_carry hunbroken hcomplete hnames [] t.bodyLevel hss)
  obtain ⟨hfirst, hlast⟩ := List.forall_mem_append.mp hunbroken.frame
  refine ⟨closed t σ, run_program_eq_ok_iff.mpr ⟨σ, hbody, rfl, rfl⟩, ?_, ?_⟩
  · have hne : (closed t σ).lines.map (Line.render t) ≠ [] := by simp [closed, σ, written, start, hopening]
    rw [← toList_intercalate_append hne]
    rfl
  · exact ((LinesCarry.frame hfirst).append hlines).append_right (.frame hlast)

/-- The line feeds of an output end its lines or stand in them. -/
theorem count_rows (texts : List String) :
    (rows texts).count '\n' = texts.length + (texts.flatMap String.toList).count '\n' := by
  induction texts with
  | nil => rfl
  | cons s texts ih =>
    rw [rows, List.flatMap_cons, ← rows, List.flatMap_cons, List.count_append, List.count_append,
      List.count_append, ih, List.length_cons, List.count_singleton_self]
    omega

theorem count_breaks (cs : List Char) : (breaks cs).count '\n' = cs.count '\n' :=
  List.count_filter (by decide)

/-- The line breaks in the literals of an output, and those in its lines, are the ones of the texts
that are written, in order. All others end a line. -/
theorem line_breaks_are_those_of_texts (ht : t ∈ Target.catalogue) {policy : Policy} {p : Program}
    (hp : Accepted p) {out : String} (hout : emit t policy p = .ok out) :
    breaks (bodies .code out.toList) = breaks (programContents t p) ∧
      ∃ σ : State, EStateM.run (program t policy p) {} = .ok out σ ∧
        breaks (σ.lines.flatMap fun l => (l.render t).toList) = breaks (programContents t p) ∧
        out.toList.count '\n' = σ.lines.length + (programContents t p).count '\n' := by
  obtain ⟨σ, hrun, hrows, hlines⟩ := exists_lines_carry ht hp hout
  have hflat := hlines.breaks_flatMap
  rw [hrows]
  refine ⟨hlines.breaks_bodies_rows, σ, hrun, hflat, ?_⟩
  rw [count_rows, List.length_map, List.flatMap_map, ← count_breaks (programContents t p), ← hflat,
    count_breaks]

/-- No literal of an output holds a line break just when no text that is written does, and then each
entry of the emitter is one line. -/
theorem lines_single_iff (ht : t ∈ Target.catalogue) {policy : Policy} {p : Program}
    (hp : Accepted p) {out : String} (hout : emit t policy p = .ok out) :
    (breaks (bodies .code out.toList) = [] ↔ breaks (programContents t p) = []) ∧
      ∃ σ : State, EStateM.run (program t policy p) {} = .ok out σ ∧
        ((∀ l ∈ σ.lines, breaks (l.render t).toList = []) ↔ breaks (programContents t p) = []) := by
  obtain ⟨hbodies, σ, hrun, hlines, -⟩ := line_breaks_are_those_of_texts ht hp hout
  refine ⟨by rw [hbodies], σ, hrun, ?_⟩
  rw [← hlines, breaks, List.filter_flatMap, List.flatMap_eq_nil_iff]
  rfl

/-- A sum of texts that the target cannot write, and a text in one line. -/
theorem lines_single_droppedSum :
    let p : Program := .statements
      [.declare "s" (.binary "+" (.text "a\n") (.text "\rb")), .print (.text "c\\n")]
    let out := "#include <stdio.h>\n\nint main() \x7b\n" ++
      "  // Unsupported statement type: BinaryExpression\n" ++
      "  printf(\x22%s\\n\x22, \x22c\\n\x22);\n  return 0;\n\x7d\n"
    Target.c ∈ Target.catalogue ∧ Accepted p ∧ emit .c .comment p = .ok out ∧
      breaks (bodies .code out.toList) = [] ∧
      ∃ σ : State, EStateM.run (program .c .comment p) {} = .ok out σ ∧
        ∀ l ∈ σ.lines, breaks (l.render .c).toList = [] := by
  intro p out
  have ht : Target.c ∈ Target.catalogue := by simp [Target.catalogue]
  have hp : Accepted p :=
    accepted_of_tokens "ye s = 'a\n' + '\rb' bol 'c\\n'" (by decide +kernel)
  have hout : emit .c .comment p = .ok out := Results.eq_ok_of_toOption (by decide +kernel)
  have hnone : breaks (programContents .c p) = [] := by decide +kernel
  obtain ⟨hbodies, σ, hrun, hlines⟩ := lines_single_iff ht hp hout
  exact ⟨ht, hp, hout, hbodies.mpr hnone, σ, hrun, hlines.mpr hnone⟩

/-- A text over two lines is written over two lines, also where a literal cannot go over several. -/
theorem not_lines_single :
    ¬ ∀ t ∈ Target.catalogue, t.name ∈ ["js", "c", "cpp", "go", "kt", "java", "py"] →
      ∀ (policy : Policy) (p : Program), Accepted p → ∀ out, emit t policy p = .ok out →
        breaks (bodies .code out.toList) = [] ∧
          ∀ σ : State, EStateM.run (program t policy p) {} = .ok out σ →
            ∀ l ∈ σ.lines, breaks (l.render t).toList = [] := by
  intro h
  have ht : Target.javaScript ∈ Target.catalogue := by simp [Target.catalogue]
  have hp : Accepted (.statements [.print (.text "a\nb")]) :=
    accepted_of_tokens "bol \x22a\nb\x22" (by decide +kernel)
  have hout : emit .javaScript .fail (.statements [.print (.text "a\nb")]) =
      .ok "// Generated JavaScript code\n\nconsole.log(\x22a\nb\x22);\n" :=
    Results.eq_ok_of_toOption (by decide +kernel)
  obtain ⟨hbodies, -⟩ := h _ ht (by decide) .fail _ hp _ hout
  revert hbodies
  decide +kernel

end Boli
