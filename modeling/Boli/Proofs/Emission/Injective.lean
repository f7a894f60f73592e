import Boli.Proofs.Emission.Styles

/-!
# Outputs of brace style tell their programs

What a target of brace style writes for a program is laid out as its surface says (`exists_shown`),
and so the program can be read back from it: of two programs with the same output, one is the other
(`emit_injective`). The kinds of names, on which much of an output depends, play no part in this.
-/

set_option autoImplicit false

namespace Boli

open Boli.Parser (arithmeticOperators comparisonOperators)
open Emission Rendering Template

theorem Accepted.exists_wellFormed {p : Program} (h : Accepted p) :
    ∃ ss, p = .statements ss ∧ AllHave (.wellFormed .empty) ss := by
  obtain ⟨table, source, tokens, mode, htokens, hparse⟩ := h
  have hp := wellFormed_of_parse htokens hparse
  cases p with
  | statements ss => exact ⟨ss, rfl, allHave_of_implies (Form.wellFormed_implies_empty table) ss hp⟩
  | foreign kind data => exact hp.elim

/-! ## Texts -/

section Texts

variable {t : Target} {S : Surface} {b : Bindings}

theorem toList_write {n : Int} (hn : 0 ≤ n) {text : String}
    (h : (Text.Numeral.write n).mapError Failure.numeral = .ok text) :
    text.toList = Nat.toDigits 10 n.natAbs := by
  unfold Text.Numeral.write at h
  simp only at h
  split at h
  next => cases h
  next =>
    cases h
    rw [if_neg (Int.not_lt.2 hn), String.toList_ofList]

theorem toList_primary (h : t.Shows S) {e : Expression} (he : e.IsPrimary .empty) {text : String}
    (htext : expression t b e = .ok text) : text.toList = S.primary e := by
  cases e with
  | number n => exact toList_write he.1 htext
  | text s =>
    rw [toList_fill (Results.eq_ok_of_mapError htext), h.string]
    simp [Surface.primary, Target.escapeContent]
  | identifier name =>
    cases htext
    rfl
  | binary operator left right => exact he.elim
  | foreign kind data => exact he.elim

theorem under_operands (l r : String) :
    under (Target.operands l r) (.named "left") = l ∧
      under (Target.operands l r) (.named "right") = r :=
  ⟨rfl, rfl⟩

theorem toList_call {template : Template} {c : Surface.Call} {l r text : String}
    (htext : template.fillNamed (Target.operands l r) = .ok text)
    (hsymbols : template.symbols = c.template.symbols) :
    text.toList = c.start.toList ++
      (l.toList ++ (c.middle.toList ++ (r.toList ++ c.finish.toList))) := by
  rw [toList_fillNamed htext, hsymbols]
  simp [Surface.Call.template, under_operands]

theorem joined_of_binary (h : t.Shows S) {operator l r text : String}
    (htext : t.binary operator l r = .ok text) :
    S.Joined operator l.toList r.toList text.toList := by
  unfold Target.binary at htext
  split at htext
  next =>
    cases htext
    simpa using Surface.Joined.between
  next template hget =>
    obtain ⟨-, c, hc, hoperator, hsymbols⟩ := h.operators _ (Dictionary.mem_of_get? hget)
    rw [toList_call htext hsymbols]
    exact .call (Option.mem_toList.1 hc) hoperator

/-- A comparison is written between its operands. -/
theorem toList_comparison (h : t.Shows S) {operator l r text : String}
    (hoperator : operator ∈ comparisonOperators) (htext : t.binary operator l r = .ok text) :
    text.toList = l.toList ++ ' ' :: (operator.toList ++ ' ' :: r.toList) := by
  unfold Target.binary at htext
  split at htext
  next =>
    cases htext
    simp
  next template hget =>
    exact absurd hoperator (h.operators _ (Dictionary.mem_of_get? hget)).1

theorem joined_of_concatenate (h : t.Shows S) {l r text : String}
    (htext : t.concatenate l r = .ok (some text)) :
    S.Joined "+" l.toList r.toList text.toList := by
  unfold Target.concatenate at htext
  split at htext
  next => cases htext
  next template htemplate =>
    obtain ⟨text', hfill, hsame⟩ := Results.exists_of_map_eq_ok htext
    cases hsame
    rcases h.concatenation template htemplate with hsymbols | ⟨c, hc, hoperator, hsymbols⟩
    · rw [toList_fillNamed hfill, hsymbols]
      have hbetween : S.Joined "+" l.toList r.toList _ := .between
      simpa [under_operands] using hbetween
    · rw [toList_call hfill hsymbols]
      exact .call (Option.mem_toList.1 hc) hoperator

theorem operand_of_asString (h : t.Shows S) {e : Expression} (he : e.IsPrimary .empty)
    {v text : String} (hv : v.toList = S.primary e) (htext : asString t b e v = .ok text) :
    S.Operand e text.toList := by
  unfold asString at htext
  split at htext
  next =>
    cases htext
    rw [hv]
    exact .plain he
  next =>
    rw [toList_fill (Results.eq_ok_of_mapError htext)]
    rcases h.stringify with hsymbols | ⟨c, hc, hsymbols⟩
    · rw [hsymbols]
      simpa [hv] using Surface.Operand.plain he
    · rw [hsymbols]
      simpa [hv] using Surface.Operand.converted he (Option.mem_toList.1 hc)

theorem value_of_binary (h : t.Shows S) {operator : String} {left right : Expression}
    (hoperator : operator ∈ arithmeticOperators) (hleft : left.IsPrimary .empty)
    (hright : right.IsPrimary .empty) {text : String}
    (htext : expression t b (.binary operator left right) = .ok text) :
    S.Value (.binary operator left right) text.toList := by
  rw [expression] at htext
  obtain ⟨l, hl, htext⟩ := Results.exists_of_bind_eq_ok htext
  obtain ⟨r, hr, htext⟩ := Results.exists_of_bind_eq_ok htext
  have hl := toList_primary h hleft hl
  have hr := toList_primary h hright hr
  split at htext
  next hsum =>
    obtain ⟨rfl, -⟩ := hsum
    obtain ⟨l', hl', htext⟩ := Results.exists_of_bind_eq_ok htext
    obtain ⟨r', hr', htext⟩ := Results.exists_of_bind_eq_ok htext
    obtain ⟨sum, hsum, htext⟩ := Results.exists_of_bind_eq_ok htext
    cases sum with
    | none => cases htext
    | some text' =>
      cases htext
      exact .binary hoperator (operand_of_asString h hleft hl hl')
        (operand_of_asString h hright hr hr')
        (joined_of_concatenate h (Results.eq_ok_of_mapError hsum))
  next =>
    have hjoined := joined_of_binary h (Results.eq_ok_of_mapError htext)
    rw [hl, hr] at hjoined
    exact .binary hoperator (.plain hleft) (.plain hright) hjoined

theorem value_of_expression (h : t.Shows S) {e : Expression} (he : e.WellFormed .empty)
    {text : String} (htext : expression t b e = .ok text) : S.Value e text.toList := by
  cases e with
  | number n =>
    rw [toList_primary h (e := .number n) he htext]
    exact .primary he
  | text s =>
    rw [toList_primary h (e := .text s) he htext]
    exact .primary he
  | identifier name =>
    rw [toList_primary h (e := .identifier name) he htext]
    exact .primary he
  | binary operator left right => exact value_of_binary h he.1 he.2.1 he.2.2 htext
  | foreign kind data => exact he.elim

theorem compared_of_condition (h : t.Shows S) {c : Condition} (hc : c.WellFormed .empty)
    {text : String} (htext : condition t b c = .ok text) :
    ∃ k, S.Compared c k ∧
      text.toList = S.conditionStart.toList ++ (k ++ S.conditionEnd.toList) := by
  cases c with
  | foreign kind data => exact hc.elim
  | compare left operator right =>
    obtain ⟨hoperator, hleft, hright⟩ := hc
    rw [condition] at htext
    obtain ⟨l, hl, htext⟩ := Results.exists_of_bind_eq_ok htext
    obtain ⟨r, hr, htext⟩ := Results.exists_of_bind_eq_ok htext
    obtain ⟨v, hv, htext⟩ := Results.exists_of_bind_eq_ok htext
    have hv := toList_comparison h hoperator (Results.eq_ok_of_mapError hv)
    rw [toList_primary h hleft hl, toList_primary h hright hr] at hv
    rw [toList_fill (Results.eq_ok_of_mapError htext), h.condition]
    refine ⟨v.toList, ?_, by simp⟩
    rw [hv]
    exact .compare hoperator hleft hright

/-! ## Lines -/

theorem exists_value (h : t.Shows S) (hc : t.Complete) {e : Expression} (he : e.WellFormed .empty)
    (hrefusal : refusal (expression t b e) = none) :
    ∃ text, expression t b e = .ok text ∧ S.Value e text.toList := by
  have hwritable := (Form.wellFormed_implies_writable .empty).value e he
  obtain ⟨text, htext⟩ := exists_ok (expression_settled hc b e hwritable) hrefusal
  exact ⟨text, htext, value_of_expression h he htext⟩

theorem exists_compared (h : t.Shows S) (hc : t.Complete) {c : Condition}
    (hcond : c.WellFormed .empty) (hrefusal : refusal (condition t b c) = none) :
    ∃ k, S.Compared c k ∧
      (shown (condition t b c)).toList =
        S.conditionStart.toList ++ (k ++ S.conditionEnd.toList) := by
  have hwritable := (Form.wellFormed_implies_writable .empty).condition c hcond
  obtain ⟨text, htext⟩ := exists_ok (condition_settled hc b c hwritable) hrefusal
  rw [htext]
  exact compared_of_condition h hcond htext

theorem toList_indentation (h : t.Shows S) (d : Nat) :
    (indentation t d).toList = S.indent d := by
  unfold indentation repeated Surface.indent
  rw [Int.toNat_natCast, h.unit]
  induction d with
  | zero => rfl
  | succ d ih => rw [List.replicate_succ, String.join_cons, String.toList_append, ih]; rfl

theorem rows_append (texts texts' : List String) :
    rows (texts ++ texts') = rows texts ++ rows texts' :=
  List.flatMap_append

/-- One line as it is written. -/
theorem rows_line (h : t.Shows S) (d : Nat) (text : String) (ls : List Line) :
    rows ((⟨d, text⟩ :: ls).map (Line.render t)) =
      S.indent d ++ (text.toList ++ '\n' :: rows (ls.map (Line.render t))) := by
  rw [List.map_cons, rows, List.flatMap_cons, ← rows, Line.render, String.toList_append,
    toList_indentation h]
  simp

theorem rows_simple (h : t.Shows S) (d : Nat) (text : String) :
    rows ([Line.mk d (text ++ t.terminator)].map (Line.render t)) =
      S.indent d ++ (text.toList ++ S.stop.toList) := by
  rw [rows_line h, ← h.stop]
  simp [rows]

/-- No block needs a statement that fills it. -/
theorem filler_eq_nil (h : t.Shows S) (depth : Int) (body : List Statement) :
    filler t depth body = [] := by
  unfold filler
  rw [h.blocks.2]
  cases body with
  | nil => rfl
  | cons s ss => rfl

theorem rows_block (h : t.Shows S) (d : Nat) (header : String) (body : List Statement)
    (inner ls : List Line) :
    rows ((blockLines t d header body inner ++ ls).map (Line.render t)) =
      S.indent d ++ (header.toList ++ (" \x7b\n".toList ++
        (rows (inner.map (Line.render t)) ++ rows (ls.map (Line.render t))))) := by
  have hopener : opener t header = header ++ " \x7b" := by
    rw [opener, h.blocks.1]
  rw [blockLines, filler_eq_nil h, hopener, List.nil_append, List.cons_append, rows_line h,
    List.map_append, rows_append]
  simp

theorem rows_closer (h : t.Shows S) (d : Nat) :
    rows ((closer t d).map (Line.render t)) = S.indent d ++ ['\x7d', '\n'] := by
  rw [closer, h.blocks.1]
  exact rows_line h d "\x7d" []

/-- A condition with its block, behind a fixed text and what stands in front of it. -/
theorem rows_guarded (h : t.Shows S) (d : Nat) (before : List Char) {header lead : String}
    {k x z : List Char}
    (hheader : header.toList = before ++ (lead.toList ++ (k ++ S.conditionEnd.toList)))
    (body : List Statement) {inner ls : List Line} (hx : rows (inner.map (Line.render t)) = x)
    (hz : rows (ls.map (Line.render t)) = S.indent d ++ '\x7d' :: z) :
    rows ((blockLines t d header body inner ++ ls).map (Line.render t)) =
      S.indent d ++ (before ++ S.guarded d lead k x z) := by
  rw [rows_block h, hx, hz, hheader]
  simp [Surface.guarded]

/-! ## Statements -/

theorem declare_shown (h : t.Shows S) (hc : t.Complete) (b : Bindings) (d : Nat) {name : String}
    {e : Expression} (hname : IsName .empty name) (he : e.WellFormed .empty)
    (hrejected : rejected t b (.declare name e) = none) :
    ∃ x, S.Shown d (.declare name e) x ∧
      rows ((lines t b d (.declare name e)).map (Line.render t)) = S.indent d ++ x := by
  obtain ⟨v, hv, hvalue⟩ := exists_value h hc he hrejected
  obtain ⟨text, htext⟩ := Template.exists_fillNamed t.declaration
    [("type", t.typeName (valueKind b e)), ("name", name), ("value", v)] hc.declaration
  obtain ⟨lead, hlead, hsymbols⟩ := h.declaration _ (t.typeName_mem (valueKind b e))
  have hline : declarationText t b name e = .ok text := filled_eq hv htext
  refine ⟨_, ⟨hname, lead, hlead, v.toList, hvalue, rfl⟩, ?_⟩
  rw [lines, hline]
  refine (rows_simple h d text).trans ?_
  -- the surface is given for the template with the type in place of its hole
  rw [toList_fillNamed htext, ← spell_settle "type", show under _ (.named "type") =
    t.typeName (valueKind b e) from rfl, hsymbols]
  simp [under, Dictionary.get?]

theorem assign_shown (h : t.Shows S) (hc : t.Complete) (b : Bindings) (d : Nat) {name : String}
    {e : Expression} (hname : IsName .empty name) (he : e.WellFormed .empty)
    (hrejected : rejected t b (.assign name e) = none) :
    ∃ x, S.Shown d (.assign name e) x ∧
      rows ((lines t b d (.assign name e)).map (Line.render t)) = S.indent d ++ x := by
  obtain ⟨v, hv, hvalue⟩ := exists_value h hc he hrejected
  obtain ⟨text, htext⟩ := Template.exists_fillNamed t.assignment [("name", name), ("value", v)]
    hc.assignment
  have hline : assignmentText t b name e = .ok text := filled_eq hv htext
  refine ⟨_, ⟨hname, v.toList, hvalue, rfl⟩, ?_⟩
  rw [lines, hline]
  refine (rows_simple h d text).trans ?_
  rw [toList_fillNamed htext, h.assignment]
  simp [under, Dictionary.get?]

theorem print_shown (h : t.Shows S) (hc : t.Complete) (b : Bindings) (d : Nat) {e : Expression}
    (he : e.WellFormed .empty) (hrejected : rejected t b (.print e) = none) :
    ∃ x, S.Shown d (.print e) x ∧
      rows ((lines t b d (.print e)).map (Line.render t)) = S.indent d ++ x := by
  obtain ⟨v, hv, hvalue⟩ := exists_value h hc he hrejected
  obtain ⟨template, htemplate, hfits⟩ := hc.exists_printTemplate (valueKind b e)
  obtain ⟨text, htext⟩ := Template.exists_fillNamed template [("value", v)] hfits
  obtain ⟨lead, hlead, hsymbols⟩ : ∃ lead ∈ S.prints,
      template.symbols = symbols [.text lead, .named "value", .text S.printEnd] := by
    obtain ⟨kind, hmem⟩ := Target.mem_of_printTemplate htemplate
    exact h.print _ hmem
  have hline : printText t b e = .ok text := by
    rw [printText, htemplate]
    exact filled_eq hv htext
  refine ⟨_, ⟨lead, hlead, v.toList, hvalue, rfl⟩, ?_⟩
  rw [lines, hline]
  refine (rows_simple h d text).trans ?_
  rw [toList_fillNamed htext, hsymbols]
  simp [under, Dictionary.get?]

mutual

/-- A statement that is not dropped is laid out as the surface says. -/
theorem exists_shown (h : t.Shows S) (hc : t.Complete) : ∀ {s : Statement} (b : Bindings) (d : Nat),
    s.Has (.wellFormed .empty) → rejected t b s = none → dropsIn t b s = [] →
      ∃ x, S.Shown d s x ∧ rows ((lines t b d s).map (Line.render t)) = S.indent d ++ x
  | .declare name e, b, d, ⟨hname, he⟩, hrejected, _ => declare_shown h hc b d hname he hrejected
  | .assign name e, b, d, ⟨hname, he⟩, hrejected, _ => assign_shown h hc b d hname he hrejected
  | .print e, b, d, he, hrejected, _ => print_shown h hc b d he hrejected
  | .evaluate e, b, d, ⟨name, hlone, hname⟩, _, _ => by
    subst hlone
    exact ⟨_, ⟨name, rfl, hname, rfl⟩, rows_simple h d name⟩
  | .branch c body rest, b, d, ⟨hcond, hbody, hrest⟩, hrejected, hdrops => by
    obtain ⟨hrefusal, hrejected⟩ := Option.or_eq_none_iff.1 hrejected
    rw [dropsIn, hrefusal] at hdrops
    obtain ⟨hdrops, hdrops'⟩ := List.append_eq_nil_iff.1 hdrops
    obtain ⟨k, hk, htext⟩ := exists_compared h hc hcond hrefusal
    obtain ⟨x, hx, hlines⟩ := exists_allShown h hc b (d + 1) hbody hdrops
    obtain ⟨z, hz, hclose⟩ := exists_restShown h hc (allAfter t b body) d hrest hrejected hdrops'
    refine ⟨_, ⟨k, x, z, hk, hx, hz, rfl⟩, ?_⟩
    rw [lines, List.append_assoc]
    refine rows_guarded h d [] ?_ body hlines hclose
    simp [h.keywords.1, htext]
  | .loop c body, b, d, ⟨hcond, hbody⟩, hrefusal, hdrops => by
    have hnone : refusal (condition t b c) = none := hrefusal
    rw [dropsIn, hnone] at hdrops
    obtain ⟨k, hk, htext⟩ := exists_compared h hc hcond hrefusal
    obtain ⟨x, hx, hlines⟩ := exists_allShown h hc b (d + 1) hbody hdrops
    refine ⟨_, ⟨k, x, hk, hx, rfl⟩, ?_⟩
    rw [lines]
    refine rows_guarded h d [] ?_ body hlines (rows_closer h d)
    simp [h.keywords.2.2.2, htext]
  | .foreign _ _, _, _, hforeign, _, _ => hforeign.elim

theorem exists_restShown (h : t.Shows S) (hc : t.Complete) : ∀ {r : Otherwise} (b : Bindings)
    (d : Nat), r.Has (.wellFormed .empty) → restRejected t b r = none → restDrops t b r = [] →
      ∃ z, S.RestShown d r z ∧
        rows ((restLines t b d r ++ closer t d).map (Line.render t)) = S.indent d ++ '\x7d' :: z
  | .nothing, b, d, _, _, _ => ⟨_, rfl, rows_closer h d⟩
  | .last body, b, d, hbody, _, hdrops => by
    obtain ⟨x, hx, hlines⟩ := exists_allShown h hc b (d + 1) hbody hdrops
    have hcontinuation : continuation t t.elseKeyword = "\x7d else" := by
      rw [continuation, h.blocks.1, h.keywords.2.2.1]
      rfl
    refine ⟨_, ⟨x, hx, rfl⟩, ?_⟩
    rw [restLines, hcontinuation, rows_block h, rows_closer h]
    simp [← hlines]
  | .elseIf c body rest, b, d, ⟨hcond, hbody, hrest⟩, hrejected, hdrops => by
    obtain ⟨hrefusal, hrejected⟩ := Option.or_eq_none_iff.1 hrejected
    rw [restDrops, hrefusal] at hdrops
    obtain ⟨hdrops, hdrops'⟩ := List.append_eq_nil_iff.1 hdrops
    obtain ⟨k, hk, htext⟩ := exists_compared h hc hcond hrefusal
    obtain ⟨x, hx, hlines⟩ := exists_allShown h hc b (d + 1) hbody hdrops
    obtain ⟨z, hz, hclose⟩ := exists_restShown h hc (allAfter t b body) d hrest hrejected hdrops'
    refine ⟨_, ⟨k, x, z, hk, hx, hz, rfl⟩, ?_⟩
    rw [restLines, List.append_assoc]
    refine rows_guarded h d ['\x7d'] ?_ body hlines hclose
    simp [continuation, h.blocks.1, h.keywords.2.1, htext]

/-- Statements of which nothing is dropped are laid out as the surface says. -/
theorem exists_allShown (h : t.Shows S) (hc : t.Complete) : ∀ {ss : List Statement} (b : Bindings)
    (d : Nat), AllHave (.wellFormed .empty) ss → allDrops t b ss = [] →
      ∃ x, S.AllShown d ss x ∧ rows ((allLines t b d ss).map (Line.render t)) = x
  | [], _, _, _, _ => ⟨[], rfl, rfl⟩
  | s :: ss, b, d, ⟨hs, hss⟩, hdrops => by
    rw [allDrops] at hdrops
    obtain ⟨hfirst, hdrops⟩ := List.append_eq_nil_iff.1 hdrops
    obtain ⟨hin, hrejected⟩ := List.append_eq_nil_iff.1 hfirst
    have hnone : rejected t b s = none := Option.toList_eq_nil_iff.1 hrejected
    obtain ⟨y, hy, hlines⟩ := exists_shown h hc b d hs hnone hin
    obtain ⟨z, hz, hrest⟩ := exists_allShown h hc (after t b s) d hss hdrops
    refine ⟨_, ⟨y, z, hy, hz, rfl⟩, ?_⟩
    rw [allLines, hnone, List.map_append, rows_append, hrest]
    exact (congrArg (· ++ z) hlines).trans (List.append_assoc _ _ _)

end

/-- An output, with the statements laid out between the lines of the target. -/
theorem exists_text_eq (h : t.Shows S) (hc : t.Complete) (hclosed : t.Closed) {ss : List Statement}
    (hss : AllHave (.wellFormed .empty) ss) (hdrops : allDrops t [] ss = []) :
    ∃ x, S.AllShown t.bodyLevel.toNat ss x ∧
      (text t ss).toList = rows t.opening ++ (x ++ rows t.closing) := by
  obtain ⟨x, hx, hlines⟩ := exists_allShown h hc [] t.bodyLevel.toNat hss hdrops
  refine ⟨x, hx, ?_⟩
  rw [toList_text hclosed, filler_eq_nil h, List.nil_append, List.append_assoc]
  rw [Int.toNat_of_nonneg h.bodyLevel] at hlines
  rw [hlines]

end Texts

/-! ## Programs -/

/-- No two programs have the same output in a target of brace style. -/
theorem emit_injective {t : Target} (ht : t ∈ Target.catalogue) (hbraces : t.blockStyle = .braces)
    {p p' : Program} (hp : Accepted p) (hp' : Accepted p') {out : String}
    (hout : emit t .fail p = .ok out) (hout' : emit t .fail p' = .ok out) : p = p' := by
  obtain ⟨S, hstyle⟩ := exists_style ht hbraces
  have hshows := shows_of_mem_styles hstyle
  have hapart := apart_of_mem_styles hstyle
  have hc := Target.complete_of_mem_catalogue ht
  have hclosed := Target.closed_of_mem_catalogue ht
  obtain ⟨ss, rfl, hss⟩ := hp.exists_wellFormed
  obtain ⟨ss', rfl, hss'⟩ := hp'.exists_wellFormed
  have himplies := Form.wellFormed_implies_writable .empty
  obtain ⟨hdrops, rfl⟩ := (emit_fail_eq_ok_iff hc (allHave_of_implies himplies ss hss)).1 hout
  obtain ⟨hdrops', htext⟩ := (emit_fail_eq_ok_iff hc (allHave_of_implies himplies ss' hss')).1 hout'
  obtain ⟨x, hx, hlines⟩ := exists_text_eq hshows hc hclosed hss hdrops
  obtain ⟨x', hx', hlines'⟩ := exists_text_eq hshows hc hclosed hss' hdrops'
  have hends := Surface.ends_of_closes hapart hshows.closing
  have heq : x ++ rows t.closing = x' ++ rows t.closing := by
    rw [htext, hlines'] at hlines
    exact (List.append_cancel_left hlines).symm
  rw [(Surface.allShown_cancel hapart hx hx' hends hends heq).1]

/-- A name and contents of texts that look like code of the target. -/
def codeInTexts : Program :=
  .statements [.declare "return" (.text "0;\n\x7d else \x7b"),
    .branch (.compare (.identifier "return") "==" (.text "\x22")) []
      (.last [.evaluate (.identifier "if")]),
    .print (.binary "+" (.identifier "return") (.number 1))]

/-- Two sources with one output. -/
theorem emit_injective_codeInTexts :
    let read (source : String) := (tokenize .standard source).toOption.bind fun tokens =>
      (parse .strict tokens).toOption
    let source := "ye return = \x220;\n\x7d else \x7b\x22; agar return == \x27\x22\x27 \x7b\x7d " ++
      "varna \x7bif;\x7d bol return + 1;"
    let source' := "ye return=\x270;\n\x7d else \x7b\x27 agar return==\x27\x22\x27 \x7b \x7d " ++
      "varna \x7b if \x7d bol return+01"
    let out := "#include <iostream>\n#include <string>\nusing namespace std;\n\n" ++
      "int main() \x7b\n  string return = \x220;\n\x7d else \x7b\x22;\n" ++
      "  if (return == \x22\\\x22\x22) \x7b\n  \x7d else \x7b\n    if;\n  \x7d\n" ++
      "  cout << string(return) + to_string(1) << endl;\n  return 0;\n\x7d\n"
    Target.cpp ∈ Target.catalogue ∧ Target.cpp.blockStyle = .braces ∧
      ∃ p p', read source = some p ∧ read source' = some p' ∧ Accepted p ∧ Accepted p' ∧
        emit .cpp .fail p = .ok out ∧ emit .cpp .fail p' = .ok out ∧ p = p' := by
  intro read source source' out
  have ht : Target.cpp ∈ Target.catalogue := by simp [Target.catalogue]
  have hread : read source = some codeInTexts := by decide +kernel
  have hread' : read source' = some codeInTexts := by decide +kernel
  have hp : Accepted codeInTexts := accepted_of_tokens source hread
  have hp' : Accepted codeInTexts := accepted_of_tokens source' hread'
  have hout : emit .cpp .fail codeInTexts = .ok out := Results.eq_ok_of_toOption (by decide +kernel)
  exact ⟨ht, rfl, codeInTexts, codeInTexts, hread, hread', hp, hp', hout, hout,
    emit_injective ht rfl hp hp' hout hout⟩

end Boli
