import Boli.Proofs.Emission.Injective
import Boli.Proofs.Emission.Lines

/-!
# Shapes of lines

What a line shows of the structure of a program is read off its text (`Target.shapeOf`). The mark of
a block stands at its end: a brace, or a colon where there are no braces. Texts of simple statements
end with another character, since the last thing in them is a fixed text of the target, a digit, a
quote or the last letter of a name. So the shape that is read is the one of the part that the line
stands for (`shapeOf_of_spells`).
-/

set_option autoImplicit false

namespace Boli

open Emission Rendering Outline Template

/-- The shape of a line, read off its text. Comment lines are not told from simple statements. -/
def Target.shapeOf (t : Target) (text : String) : Shape :=
  match t.blockStyle, text.toList.getLast? with
  | .braces, some '\x7d' => .closing
  | .braces, some '\x7b' =>
    if "\x7d ".toList <+: text.toList then .continuation else .opening
  | .colon, some ':' =>
    if t.elseIfKeyword.toList <+: text.toList ∨ t.elseKeyword.toList <+: text.toList then
      .continuation
    else .opening
  | _, _ => .simple

/-! ## Texts that end without a mark -/

/-- Whether a character marks a block. -/
def isBlockMark (c : Char) : Bool := c = '\x7b' || c = '\x7d' || c = ':'

/-- A text ends with a character that marks no block. -/
def EndsPlain (cs : List Char) : Prop := ∃ c, cs.getLast? = some c ∧ isBlockMark c = false

section EndsPlain

variable {cs cs' : List Char}

theorem EndsPlain.append (cs : List Char) (h : EndsPlain cs') : EndsPlain (cs ++ cs') := by
  obtain ⟨c, hlast, hc⟩ := h
  exact ⟨c, by rw [List.getLast?_append, hlast, Option.some_or], hc⟩

theorem EndsPlain.of_all (hne : cs ≠ []) (h : ∀ c ∈ cs, isBlockMark c = false) :
    EndsPlain cs :=
  ⟨cs.getLast hne, List.getLast?_eq_some_getLast hne, h _ (List.getLast_mem hne)⟩

instance : Decidable (EndsPlain cs) :=
  decidable_of_iff (cs.getLast?.any fun c => !isBlockMark c) (by
    simp [EndsPlain, Option.any_eq_true])

theorem isBlockMark_of_isAlphanum {c : Char} (h : c.isAlphanum = true) :
    isBlockMark c = false := by
  rw [isBlockMark]
  by_contra hmark
  simp only [Bool.not_eq_false, Bool.or_eq_true, decide_eq_true_eq] at hmark
  rcases hmark with (rfl | rfl) | rfl <;> exact absurd h (by decide)

/-- Whether a template ends with text that marks no block, or with one of the holes. -/
def Template.endsPlain (holes : List Piece) : Template → Bool
  | [] => false
  | [.text s] => decide (EndsPlain s.toList)
  | [hole] => decide (hole ∈ holes)
  | _ :: rest => endsPlain holes rest

theorem endsPlain_spell {value : Piece → String} {holes : List Piece}
    (hholes : ∀ hole ∈ holes, EndsPlain (value hole).toList) :
    ∀ template : Template, template.endsPlain holes = true →
      EndsPlain (spell value template.symbols)
  | [], h => nomatch h
  | [.text s], h => by
    rw [spell_text, spell_nil, List.append_nil]
    exact of_decide_eq_true h
  | [.next], h => by
    rw [spell_next, spell_nil, List.append_nil]
    exact hholes _ (of_decide_eq_true h)
  | [.named name], h => by
    rw [spell_named, spell_nil, List.append_nil]
    exact hholes _ (of_decide_eq_true h)
  | .text s :: piece :: rest, h => by
    rw [spell_text]
    exact (endsPlain_spell hholes (piece :: rest) h).append _
  | .next :: piece :: rest, h => by
    rw [spell_next]
    exact (endsPlain_spell hholes (piece :: rest) h).append _
  | .named name :: piece :: rest, h => by
    rw [spell_named]
    exact (endsPlain_spell hholes (piece :: rest) h).append _

end EndsPlain

/-! ## Texts of a target -/

/-- What a target writes at the end of a simple statement marks no block, and its branches and loops
start otherwise than the further branches. -/
structure Target.Legible (t : Target) : Prop where
  terminator : t.terminator = "" ∨ EndsPlain t.terminator.toList
  declaration : t.declaration.endsPlain [.named "value"] = true
  assignment : t.assignment.endsPlain [.named "value"] = true
  print : ∀ e ∈ t.printTemplates, e.2.endsPlain [.named "value"] = true
  string : t.stringTemplate.endsPlain [] = true
  operators : ∀ e ∈ t.operators, e.2.endsPlain [.named "right"] = true
  concatenation : ∀ template ∈ t.concatenation, template.endsPlain [.named "right"] = true
  stringify : t.stringify.endsPlain [.next] = true
  emptyBlock : ∀ text ∈ t.emptyBlock, EndsPlain text.toList
  keywords : ∀ keyword ∈ [t.ifKeyword, t.whileKeyword], keyword.toList.head? ∉
    [none, some '\x7d', t.elseIfKeyword.toList.head?, t.elseKeyword.toList.head?]
  continuations : t.elseIfKeyword ≠ "" ∧ t.elseKeyword ≠ ""

theorem Target.legible_of_mem_catalogue {t : Target} (ht : t ∈ Target.catalogue) : t.Legible := by
  have hall : ∀ t ∈ Target.catalogue,
      (t.terminator = "" ∨ EndsPlain t.terminator.toList) ∧
      t.declaration.endsPlain [.named "value"] = true ∧
      t.assignment.endsPlain [.named "value"] = true ∧
      (∀ e ∈ t.printTemplates, e.2.endsPlain [.named "value"] = true) ∧
      t.stringTemplate.endsPlain [] = true ∧
      (∀ e ∈ t.operators, e.2.endsPlain [.named "right"] = true) ∧
      (∀ template ∈ t.concatenation, template.endsPlain [.named "right"] = true) ∧
      t.stringify.endsPlain [.next] = true ∧
      (∀ text ∈ t.emptyBlock, EndsPlain text.toList) ∧
      (∀ keyword ∈ [t.ifKeyword, t.whileKeyword], keyword.toList.head? ∉
        [none, some '\x7d', t.elseIfKeyword.toList.head?, t.elseKeyword.toList.head?]) ∧
      t.elseIfKeyword ≠ "" ∧ t.elseKeyword ≠ "" := by
    decide +kernel
  obtain ⟨hterminator, hd, ha, hp, hs, ho, hc, hy, he, hk, hcontinuations⟩ := hall t ht
  exact ⟨hterminator, hd, ha, hp, hs, ho, hc, hy, he, hk, hcontinuations⟩

section Legible

variable {t : Target} {b : Bindings}

theorem endsPlain_of_primary (ht : t.Legible) {e : Expression} (he : e.IsPrimary .empty)
    {text : String} (h : expression t b e = .ok text) : EndsPlain text.toList := by
  cases e with
  | number n =>
    rw [toList_write he.1 h]
    apply EndsPlain.of_all Nat.toDigits_ne_nil
    intro c hc
    exact isBlockMark_of_isAlphanum (Surface.isAlphanum_of_mem_toDigits c hc)
  | text s =>
    rw [toList_fill (Results.eq_ok_of_mapError h)]
    exact endsPlain_spell (List.forall_mem_nil _) _ ht.string
  | identifier name =>
    cases h
    obtain ⟨c, cs, hname, -, hrun⟩ := Surface.exists_cons_of_isName he
    apply EndsPlain.of_all (by rw [hname]; exact List.cons_ne_nil c cs)
    intro d hd
    exact isBlockMark_of_isAlphanum (hrun d hd)
  | binary operator left right => exact he.elim
  | foreign kind data => exact he.elim

theorem endsPlain_of_asString (ht : t.Legible) {e : Expression} {v text : String}
    (hv : EndsPlain v.toList) (h : asString t b e v = .ok text) : EndsPlain text.toList := by
  unfold asString at h
  split at h
  next =>
    cases h
    exact hv
  next =>
    rw [toList_fill (Results.eq_ok_of_mapError h)]
    exact endsPlain_spell (fun _ _ => hv) _ ht.stringify

theorem endsPlain_of_operands {template : Template} {l r text : String}
    (htemplate : template.endsPlain [.named "right"] = true) (hr : EndsPlain r.toList)
    (h : template.fillNamed (Target.operands l r) = .ok text) : EndsPlain text.toList := by
  rw [toList_fillNamed h]
  apply endsPlain_spell _ _ htemplate
  intro hole hhole
  rw [List.mem_singleton.mp hhole]
  exact hr

theorem endsPlain_of_expression (ht : t.Legible) {e : Expression} (he : e.WellFormed .empty)
    {text : String} (h : expression t b e = .ok text) : EndsPlain text.toList := by
  cases e with
  | number n => exact endsPlain_of_primary (e := .number n) ht he h
  | text s => exact endsPlain_of_primary (e := .text s) ht he h
  | identifier name => exact endsPlain_of_primary (e := .identifier name) ht he h
  | foreign kind data => exact he.elim
  | binary operator left right =>
    rw [expression] at h
    obtain ⟨l, -, h⟩ := Results.exists_of_bind_eq_ok h
    obtain ⟨r, hr, h⟩ := Results.exists_of_bind_eq_ok h
    have hplain := endsPlain_of_primary ht he.2.2 hr
    split at h
    next =>
      obtain ⟨l', -, h⟩ := Results.exists_of_bind_eq_ok h
      obtain ⟨r', hr', h⟩ := Results.exists_of_bind_eq_ok h
      obtain ⟨joined, hjoined, h⟩ := Results.exists_of_bind_eq_ok h
      cases joined with
      | none => cases h
      | some joined =>
        cases h
        replace hjoined := Results.eq_ok_of_mapError hjoined
        unfold Target.concatenate at hjoined
        split at hjoined
        next => cases hjoined
        next template htemplate =>
          obtain ⟨_, hfill, hsame⟩ := Results.exists_of_map_eq_ok hjoined
          cases hsame
          exact endsPlain_of_operands (ht.concatenation template htemplate)
            (endsPlain_of_asString ht hplain hr') hfill
    next =>
      replace h := Results.eq_ok_of_mapError h
      unfold Target.binary at h
      split at h
      next =>
        cases h
        rw [String.toList_append]
        exact hplain.append _
      next template hget =>
        exact endsPlain_of_operands (ht.operators _ (Dictionary.mem_of_get? hget)) hplain h

/-! ## Lines -/

theorem shapeOf_of_endsPlain {text : String} (h : EndsPlain text.toList) :
    t.shapeOf text = .simple := by
  obtain ⟨c, hlast, hc⟩ := h
  unfold Target.shapeOf
  rw [hlast]
  split
  next heq =>
    cases heq
    cases hc
  next heq =>
    cases heq
    cases hc
  next heq =>
    cases heq
    cases hc
  next => rfl

/-- The terminator hides no mark and adds none. -/
theorem shapeOf_terminated (ht : t.Legible) {text : String} (h : EndsPlain text.toList) :
    t.shapeOf (text ++ t.terminator) = .simple := by
  apply shapeOf_of_endsPlain
  rcases ht.terminator with hempty | hplain
  · rw [hempty, String.append_empty]
    exact h
  · rw [String.toList_append]
    exact hplain.append _

/-- A simple statement that fills a template with a value. -/
theorem shapeOf_filled (ht : t.Legible) {template : Template} {names : Dictionary String String}
    {value text : String} (htemplate : template.endsPlain [.named "value"] = true)
    (hvalue : names.get? "value" = some value) (hplain : EndsPlain value.toList)
    (h : (template.fillNamed names).mapError Failure.template = .ok text) :
    t.shapeOf (text ++ t.terminator) = .simple := by
  apply shapeOf_terminated ht
  rw [toList_fillNamed (Results.eq_ok_of_mapError h)]
  apply endsPlain_spell _ _ htemplate
  intro hole hhole
  rw [List.mem_singleton.mp hhole, under, hvalue]
  exact hplain

/-- A text that starts with another letter than a word does not start with the word. -/
theorem not_prefix_of_head {word keyword text : List Char} (hkeyword : keyword <+: text)
    (hword : word.head? ≠ keyword.head?) (hkne : keyword ≠ []) (hwne : word ≠ []) :
    ¬ word <+: text := by
  intro h
  obtain ⟨c, cs, rfl⟩ := List.exists_cons_of_ne_nil hkne
  obtain ⟨d, ds, rfl⟩ := List.exists_cons_of_ne_nil hwne
  obtain ⟨rest, rfl⟩ := hkeyword
  obtain ⟨rest', heq⟩ := h
  exact hword (congrArg some (List.cons.inj heq).1)

/-- The text that opens a block below a header is read by what the header starts with. -/
theorem shapeOf_opener_braces (hstyle : t.blockStyle = .braces) (header : String) :
    t.shapeOf (opener t header) =
      if "\x7d ".toList <+: header.toList ++ " \x7b".toList then .continuation else .opening := by
  have hlast : (opener t header).toList.getLast? = some '\x7b' := by
    rw [opener, hstyle, String.toList_append, List.getLast?_append]
    rfl
  rw [Target.shapeOf, hlast, hstyle, opener, hstyle, String.toList_append]
  rfl

theorem shapeOf_opener_colon (hstyle : t.blockStyle = .colon) (header : String) :
    t.shapeOf (opener t header) =
      if t.elseIfKeyword.toList <+: header.toList ++ ":".toList ∨
        t.elseKeyword.toList <+: header.toList ++ ":".toList then .continuation else .opening := by
  have hlast : (opener t header).toList.getLast? = some ':' := by
    rw [opener, hstyle, String.toList_append, List.getLast?_append]
    rfl
  rw [Target.shapeOf, hlast, hstyle, opener, hstyle, String.toList_append]
  rfl

theorem shapeOf_opening (ht : t.Legible) {keyword : String}
    (hkeyword : keyword ∈ [t.ifKeyword, t.whileKeyword]) (text : String) :
    t.shapeOf (opener t (keyword ++ " " ++ text)) = .opening := by
  have hhead := ht.keywords keyword hkeyword
  simp only [List.mem_cons, List.not_mem_nil, or_false, not_or] at hhead
  obtain ⟨hnone, hbrace, helseIf, helse⟩ := hhead
  have hne : keyword.toList ≠ [] := by
    intro hnil
    rw [hnil] at hnone
    exact hnone rfl
  have hstarts (tail : List Char) : keyword.toList <+: (keyword ++ " " ++ text).toList ++ tail := by
    rw [String.toList_append, String.toList_append, List.append_assoc, List.append_assoc]
    exact List.prefix_append _ _
  cases hstyle : t.blockStyle with
  | braces =>
    rw [shapeOf_opener_braces hstyle, if_neg]
    exact not_prefix_of_head (hstarts _) (Ne.symm hbrace) hne (List.cons_ne_nil _ _)
  | colon =>
    rw [shapeOf_opener_colon hstyle, if_neg]
    rintro (hbegins | hbegins)
    · exact not_prefix_of_head (hstarts _) (Ne.symm helseIf) hne
        (mt String.toList_eq_nil_iff.mp ht.continuations.1) hbegins
    · exact not_prefix_of_head (hstarts _) (Ne.symm helse) hne
        (mt String.toList_eq_nil_iff.mp ht.continuations.2) hbegins

theorem shapeOf_continuation {keyword : String}
    (hkeyword : keyword ∈ [t.elseIfKeyword, t.elseKeyword]) (text : String) :
    t.shapeOf (opener t (continuation t (keyword ++ text))) = .continuation := by
  cases hstyle : t.blockStyle with
  | braces =>
    rw [shapeOf_opener_braces hstyle, if_pos]
    rw [continuation, hstyle, String.toList_append, List.append_assoc]
    exact List.prefix_append _ _
  | colon =>
    rw [shapeOf_opener_colon hstyle, if_pos]
    rw [continuation, hstyle, String.toList_append, List.append_assoc]
    simp only [List.mem_cons, List.not_mem_nil, or_false] at hkeyword
    rcases hkeyword with rfl | rfl
    · exact .inl (List.prefix_append _ _)
    · exact .inr (List.prefix_append _ _)

/-- The shape that is read off a text is the one of the part that the text stands for. Closing lines
are there in brace style alone. -/
theorem shapeOf_of_spells (ht : t.Legible) {part : Part} {text : String}
    (h : Spells t part text) (hplain : part.Has (.wellFormed .empty)) (hcomment : part.shape ≠ .comment)
    (hclosing : part.shape = .closing → t.blockStyle = .braces) :
    t.shapeOf text = part.shape := by
  cases h with
  | declare h =>
    obtain ⟨value, hvalue, h⟩ := Results.exists_of_bind_eq_ok h
    exact shapeOf_filled ht ht.declaration rfl (endsPlain_of_expression ht hplain.2 hvalue) h
  | assign h =>
    obtain ⟨value, hvalue, h⟩ := Results.exists_of_bind_eq_ok h
    exact shapeOf_filled ht ht.assignment rfl (endsPlain_of_expression ht hplain.2 hvalue) h
  | evaluate h =>
    obtain ⟨name, rfl, hname⟩ := hplain
    exact shapeOf_terminated ht (endsPlain_of_expression (e := .identifier name) ht hname h)
  | print h =>
    obtain ⟨template, htemplate, h⟩ := Results.exists_of_bind_eq_ok h
    obtain ⟨value, hvalue, h⟩ := Results.exists_of_bind_eq_ok h
    obtain ⟨kind, hmem⟩ := Target.mem_of_printTemplate (Results.eq_ok_of_mapError htemplate)
    exact shapeOf_filled ht (ht.print _ hmem) rfl (endsPlain_of_expression ht hplain hvalue) h
  | filler htext => exact shapeOf_of_endsPlain (ht.emptyBlock _ htext)
  | branch _ => exact shapeOf_opening ht List.mem_cons_self _
  | loop _ => exact shapeOf_opening ht (List.mem_cons_of_mem _ List.mem_cons_self) _
  | elseIf _ =>
    rw [String.append_assoc]
    exact shapeOf_continuation List.mem_cons_self _
  | last =>
    have hlast := shapeOf_continuation (t := t) (List.mem_cons_of_mem _ List.mem_cons_self) ""
    rwa [String.append_empty] at hlast
  | closing =>
    rw [Target.shapeOf, hclosing rfl]
    rfl
  | dropped kind => exact absurd rfl hcomment

end Legible

end Boli
