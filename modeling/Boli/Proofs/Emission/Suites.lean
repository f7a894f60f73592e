import Boli.Proofs.Emission.Lines

/-!
# Suites

Where blocks are delimited by a colon and indentation, a header asks for a suite: before the
indentation is back at the header, a line one level deeper that is no comment. The filler for empty
blocks sees to this for bodies without statements. It is chosen by what the tree holds, before the
comment policy drops anything, so that a body all of whose statements are dropped is left with
comment lines alone (`not_suites_filled`). Such bodies are the only way to lose a suite, and there
is none where emission fails for every drop (`suites_filled_iff`).
-/

set_option autoImplicit false

namespace Boli.Outline

open Emission

/-! ## Headers and what stands below them -/

/-- Of the entries behind a header at a depth, one is a level deeper and no comment, before the
depth is that of the header again. -/
def HasSuite (d : Nat) (behind : List Entry) : Prop :=
  ∃ e ∈ behind.takeWhile (d < ·.depth), e.depth = d + 1 ∧ e.part.shape ≠ .comment

instance (d : Nat) (behind : List Entry) : Decidable (HasSuite d behind) :=
  inferInstanceAs (Decidable (∃ e ∈ _, _))

/-- Every header among the entries has a suite. -/
def HeadersHaveSuites : List Entry → Prop
  | [] => True
  | e :: es => (e.part.shape.isHeader = true → HasSuite e.depth es) ∧ HeadersHaveSuites es

/-- The header of the whole program, which stands at depth 0, has a suite, and so has every header
in it. -/
def SuitesFilled (ss : List Statement) : Prop :=
  HasSuite 0 (bodyOutline .colon 1 ss) ∧ HeadersHaveSuites (bodyOutline .colon 1 ss)

/-! ## Bodies that keep something -/

/-- A body that does not lose all of its statements: it has none, or keeps one. -/
def Keeps (body : List Statement) : Prop := body = [] ∨ ∃ s ∈ body, s.isNative = true

mutual

/-- No body in a statement loses all of its statements. -/
def BodiesKeep : Statement → Prop
  | .branch _ body rest => Keeps body ∧ AllBodiesKeep body ∧ RestBodiesKeep rest
  | .loop _ body => Keeps body ∧ AllBodiesKeep body
  | .declare _ _ | .assign _ _ | .evaluate _ | .print _ | .foreign _ _ => True

/-- No body in what follows the body of a branch loses all of its statements. -/
def RestBodiesKeep : Otherwise → Prop
  | .nothing => True
  | .last body => Keeps body ∧ AllBodiesKeep body
  | .elseIf _ body rest => Keeps body ∧ AllBodiesKeep body ∧ RestBodiesKeep rest

/-- No body in statements loses all of its statements. What stands in a dropped statement does not
count, since it has no lines. -/
def AllBodiesKeep : List Statement → Prop
  | [] => True
  | s :: ss => (s.isNative = true → BodiesKeep s) ∧ AllBodiesKeep ss

end

/-! ## What statements leave behind a header -/

/-- Statements leave a line that is no comment just when one of them is kept. -/
theorem exists_kept_iff {style : BlockStyle} {d : Nat} {ss : List Statement} :
    (∃ e ∈ allOutline style d ss, e.depth = d ∧ e.part.shape ≠ .comment) ↔
      ∃ s ∈ ss, s.isNative = true := by
  constructor
  · intro h
    obtain ⟨e, he, -, hshape⟩ := h
    induction ss with
    | nil => cases he
    | cons s ss ih =>
      rw [allOutline] at he
      rcases List.mem_append.mp he with he | he
      · by_cases hs : s.isNative = true
        · exact ⟨s, List.mem_cons_self, hs⟩
        · rw [if_neg hs] at he
          rw [List.mem_singleton.mp he] at hshape
          exact absurd rfl hshape
      · obtain ⟨s', hs', hnative⟩ := ih he
        exact ⟨s', List.mem_cons_of_mem s hs', hnative⟩
  · intro h
    obtain ⟨s, hs, hnative⟩ := h
    induction ss with
    | nil => cases hs
    | cons s' ss ih =>
      rw [allOutline]
      rcases List.mem_cons.mp hs with rfl | hs
      · obtain ⟨part, es, houtline, hshape⟩ := exists_outline_eq style d hnative
        rw [if_pos hnative, houtline]
        refine ⟨⟨d, part⟩, List.mem_cons_self, rfl, ?_⟩
        rcases hshape with hshape | hshape
        · rw [hshape]
          nofun
        · rw [hshape]
          nofun
      · obtain ⟨e, he, hd, hshape⟩ := ih hs
        exact ⟨e, List.mem_append_right _ he, hd, hshape⟩

/-- What follows a block does not go on inside of it. -/
def Stops (d : Nat) (es : List Entry) : Prop := ∀ e ∈ es.head?, e.depth ≤ d

theorem Stops.nil (d : Nat) : Stops d [] := by
  intro e he
  cases he

theorem Stops.cons (d : Nat) (part : Part) (es : List Entry) : Stops d (⟨d, part⟩ :: es) := by
  intro e he
  cases he
  exact Nat.le_refl d

theorem Stops.succ {d : Nat} {es : List Entry} (h : Stops d es) : Stops (d + 1) es := by
  intro e he
  exact Nat.le_succ_of_le (h e he)

theorem stops_restOutline {d : Nat} (style : BlockStyle) {es : List Entry} (h : Stops d es)
    (r : Otherwise) : Stops d (restOutline style d r ++ es) := by
  cases r with
  | nothing => exact h
  | last body => exact .cons d _ _
  | elseIf c body rest => exact .cons d _ _

theorem stops_allOutline {d : Nat} (style : BlockStyle) {es : List Entry} (h : Stops d es)
    (ss : List Statement) : Stops d (allOutline style d ss ++ es) := by
  cases ss with
  | nil => exact h
  | cons s ss =>
    obtain ⟨part, es', houtline, -⟩ := exists_allOutline_eq style d s ss
    rw [houtline]
    exact .cons d _ _

/-- Behind a header stand the entries of its body, as far as they count. -/
theorem takeWhile_block {d : Nat} (body : List Statement) {es : List Entry} (h : Stops d es) :
    (bodyOutline .colon (d + 1) body ++ es).takeWhile (d < ·.depth) =
      bodyOutline .colon (d + 1) body := by
  have hbody : ∀ e ∈ bodyOutline .colon (d + 1) body, decide (d < e.depth) = true := by
    intro e he
    exact decide_eq_true (allFit_bodyOutline (d + 1) (allHave_any body) e he).depth
  rw [List.takeWhile_append_of_pos hbody]
  cases es with
  | nil => rw [List.takeWhile_nil, List.append_nil]
  | cons e es =>
    have hstop : ¬ d < e.depth := Nat.not_lt.mpr (h e rfl)
    rw [List.takeWhile_cons_of_neg (by simpa using hstop), List.append_nil]

/-- A header has a suite just when its body does not lose all of its statements. -/
theorem hasSuite_iff {d : Nat} (body : List Statement) {es : List Entry} (h : Stops d es) :
    HasSuite d (bodyOutline .colon (d + 1) body ++ es) ↔ Keeps body := by
  rw [HasSuite, takeWhile_block body h]
  cases body with
  | nil =>
    constructor
    · intro _
      exact .inl rfl
    · intro _
      exact ⟨⟨d + 1, .filler⟩, List.mem_cons_self, rfl, nofun⟩
  | cons s ss =>
    constructor
    · intro hsuite
      exact .inr (exists_kept_iff.mp hsuite)
    · intro hkeeps
      exact exists_kept_iff.mpr (hkeeps.resolve_left nofun)

/-! ## Suites of whole trees -/

theorem headersHaveSuites_bodyOutline (d : Nat) (body : List Statement) (es : List Entry) :
    HeadersHaveSuites (bodyOutline .colon d body ++ es) ↔
      HeadersHaveSuites (allOutline .colon d body ++ es) := by
  cases body with
  | nil =>
    constructor
    · intro h
      exact h.2
    · intro h
      exact ⟨nofun, h⟩
  | cons s ss => exact Iff.rfl

theorem headersHaveSuites_block {d : Nat} {part : Part} {body : List Statement} {es : List Entry}
    (hpart : part.shape.isHeader = true) (hes : Stops d es)
    (hbody : HeadersHaveSuites (allOutline .colon (d + 1) body ++ es) ↔
      AllBodiesKeep body ∧ HeadersHaveSuites es) :
    HeadersHaveSuites (⟨d, part⟩ ::
        (filling .colon (d + 1) body ++ allOutline .colon (d + 1) body) ++ es) ↔
      (Keeps body ∧ AllBodiesKeep body) ∧ HeadersHaveSuites es := by
  show (_ → HasSuite d (bodyOutline .colon (d + 1) body ++ es)) ∧
    HeadersHaveSuites (bodyOutline .colon (d + 1) body ++ es) ↔ _
  rw [hasSuite_iff body hes, headersHaveSuites_bodyOutline, hbody, and_assoc]
  constructor
  · intro h
    exact ⟨h.1 hpart, h.2⟩
  · intro h
    exact ⟨fun _ => h.1, h.2⟩

mutual

theorem headersHaveSuites_outline :
    ∀ (s : Statement) (d : Nat) (es : List Entry), Stops d es →
      (HeadersHaveSuites (outline .colon d s ++ es) ↔ BodiesKeep s ∧ HeadersHaveSuites es)
  | .declare _ _, d, es, _ | .assign _ _, d, es, _ | .evaluate _, d, es, _ | .print _, d, es, _ => by
    constructor
    · intro h
      exact ⟨trivial, h.2⟩
    · intro h
      exact ⟨nofun, h.2⟩
  | .foreign _ _, d, es, _ => Iff.of_eq (true_and _).symm
  | .branch c body rest, d, es, h => by
    have hrest := headersHaveSuites_restOutline rest d es h
    have hstops := stops_restOutline .colon h rest
    have hbody := headersHaveSuites_allOutline body (d + 1) _ hstops.succ
    rw [outline, closing, List.append_nil, List.append_assoc, BodiesKeep,
      headersHaveSuites_block rfl hstops hbody, hrest]
    simp only [and_assoc]
  | .loop c body, d, es, h => by
    have hbody := headersHaveSuites_allOutline body (d + 1) es h.succ
    rw [outline, closing, List.append_nil, BodiesKeep, headersHaveSuites_block rfl h hbody]

theorem headersHaveSuites_restOutline :
    ∀ (r : Otherwise) (d : Nat) (es : List Entry), Stops d es →
      (HeadersHaveSuites (restOutline .colon d r ++ es) ↔
        RestBodiesKeep r ∧ HeadersHaveSuites es)
  | .nothing, d, es, _ => Iff.of_eq (true_and _).symm
  | .last body, d, es, h => by
    have hbody := headersHaveSuites_allOutline body (d + 1) es h.succ
    rw [restOutline, RestBodiesKeep, headersHaveSuites_block rfl h hbody]
  | .elseIf c body rest, d, es, h => by
    have hrest := headersHaveSuites_restOutline rest d es h
    have hstops := stops_restOutline .colon h rest
    have hbody := headersHaveSuites_allOutline body (d + 1) _ hstops.succ
    rw [restOutline, List.append_assoc, RestBodiesKeep,
      headersHaveSuites_block rfl hstops hbody, hrest]
    simp only [and_assoc]

/-- The headers of statements have suites just when no body loses all of its statements. -/
theorem headersHaveSuites_allOutline :
    ∀ (ss : List Statement) (d : Nat) (es : List Entry), Stops d es →
      (HeadersHaveSuites (allOutline .colon d ss ++ es) ↔
        AllBodiesKeep ss ∧ HeadersHaveSuites es)
  | [], d, es, _ => Iff.of_eq (true_and _).symm
  | s :: ss, d, es, h => by
    have hss := headersHaveSuites_allOutline ss d es h
    have hstops := stops_allOutline .colon h ss
    rw [allOutline, List.append_assoc, AllBodiesKeep]
    by_cases hs : s.isNative = true
    · rw [if_pos hs, headersHaveSuites_outline s d _ hstops, hss]
      simp only [hs, true_implies, and_assoc]
    · rw [if_neg hs]
      show (_ → _) ∧ HeadersHaveSuites (allOutline .colon d ss ++ es) ↔ _
      rw [hss]
      simp only [hs, false_implies, true_and, Part.shape, Shape.isHeader, Bool.false_eq_true]

end

theorem suitesFilled_iff (ss : List Statement) :
    SuitesFilled ss ↔ Keeps ss ∧ AllBodiesKeep ss := by
  have hmain := hasSuite_iff ss (Stops.nil 0)
  have hheaders := headersHaveSuites_bodyOutline 1 ss []
  rw [headersHaveSuites_allOutline ss 1 [] (Stops.nil 1)] at hheaders
  rw [List.append_nil] at hmain hheaders
  rw [SuitesFilled, hmain, hheaders, HeadersHaveSuites, and_true]

/-! ## Where nothing is dropped -/

section Uncommented

variable {style : BlockStyle}

theorem isNative_of_uncommented {d : Nat} {ss : List Statement}
    (h : Uncommented (allOutline style d ss)) : ∀ s ∈ ss, s.isNative = true := by
  intro s hs
  induction ss with
  | nil => cases hs
  | cons s' ss ih =>
    rw [allOutline] at h
    rcases List.mem_cons.mp hs with rfl | hs
    · by_contra hforeign
      rw [if_neg hforeign] at h
      exact h _ (List.mem_append_left _ List.mem_cons_self) rfl
    · exact ih (fun e he => h e (List.mem_append_right _ he)) hs

theorem keeps_of_uncommented {d : Nat} {ss : List Statement}
    (h : Uncommented (allOutline style d ss)) : Keeps ss := by
  cases ss with
  | nil => exact .inl rfl
  | cons s ss =>
    exact .inr ⟨s, List.mem_cons_self, isNative_of_uncommented h s List.mem_cons_self⟩

theorem uncommented_of_block {d : Nat} {part : Part} {body : List Statement} {es : List Entry}
    (h : Uncommented (⟨d, part⟩ ::
      (filling style (d + 1) body ++ allOutline style (d + 1) body) ++ es)) :
    Uncommented (allOutline style (d + 1) body) ∧ Uncommented es := by
  constructor
  · intro e he
    exact h e (List.mem_append_left _ (List.mem_cons_of_mem _ (List.mem_append_right _ he)))
  · intro e he
    exact h e (List.mem_append_right _ he)

mutual

theorem bodiesKeep_of_uncommented :
    ∀ (s : Statement) (d : Nat), Uncommented (outline style d s) → BodiesKeep s
  | .declare _ _, _, _ | .assign _ _, _, _ | .evaluate _, _, _ | .print _, _, _ => trivial
  | .foreign _ _, _, _ => trivial
  | .branch c body rest, d, h => by
    rw [outline] at h
    obtain ⟨hbody, hbehind⟩ := uncommented_of_block h
    refine ⟨keeps_of_uncommented hbody, allBodiesKeep_of_uncommented body (d + 1) hbody, ?_⟩
    apply restBodiesKeep_of_uncommented rest d
    intro e he
    exact hbehind e (List.mem_append_left _ he)
  | .loop c body, d, h => by
    rw [outline] at h
    obtain ⟨hbody, -⟩ := uncommented_of_block h
    exact ⟨keeps_of_uncommented hbody, allBodiesKeep_of_uncommented body (d + 1) hbody⟩

theorem restBodiesKeep_of_uncommented :
    ∀ (r : Otherwise) (d : Nat), Uncommented (restOutline style d r) → RestBodiesKeep r
  | .nothing, _, _ => trivial
  | .last body, d, h => by
    rw [restOutline, ← List.append_nil (_ :: _)] at h
    obtain ⟨hbody, -⟩ := uncommented_of_block h
    exact ⟨keeps_of_uncommented hbody, allBodiesKeep_of_uncommented body (d + 1) hbody⟩
  | .elseIf c body rest, d, h => by
    rw [restOutline] at h
    obtain ⟨hbody, hrest⟩ := uncommented_of_block h
    exact ⟨keeps_of_uncommented hbody, allBodiesKeep_of_uncommented body (d + 1) hbody,
      restBodiesKeep_of_uncommented rest d hrest⟩

theorem allBodiesKeep_of_uncommented :
    ∀ (ss : List Statement) (d : Nat), Uncommented (allOutline style d ss) → AllBodiesKeep ss
  | [], _, _ => trivial
  | s :: ss, d, h => by
    have hs := isNative_of_uncommented h s List.mem_cons_self
    rw [allOutline, if_pos hs] at h
    constructor
    · intro _
      apply bodiesKeep_of_uncommented s d
      intro e he
      exact h e (List.mem_append_left _ he)
    · apply allBodiesKeep_of_uncommented ss d
      intro e he
      exact h e (List.mem_append_right _ he)

end

end Uncommented

/-! ## Python -/

/-- Whenever there is a Python text, its lines are the outline of the program below the header of
its main function. Each header has a suite just when no body loses all of its statements to the
comment policy; a body without statements loses none. Where emission fails for every drop, each
header has one. -/
theorem suites_filled_iff {policy : Policy} {ss : List Statement} {out : String} {σ : State}
    (h : EStateM.run (program .python policy (.statements ss)) {} = .ok out σ) :
    out = σ.output .python ∧
    (∃ ls, σ.lines = ⟨0, "def main():"⟩ :: ls ++ Target.python.closing.map (⟨0, ·⟩) ∧
      List.Forall₂ (Stands .python 0) (bodyOutline .colon 1 ss) ls) ∧
    (SuitesFilled ss ↔ Keeps ss ∧ AllBodiesKeep ss) ∧
    (policy = .fail → SuitesFilled ss) := by
  have hfills : Fills .python := ⟨fun _ => rfl, fun _ => rfl⟩
  have hlevel : Target.python.bodyLevel = 0 + (1 : Nat) := rfl
  obtain ⟨hout, hlines, hkept⟩ := exists_lines_of_program hfills (.inr nofun) hlevel h
  refine ⟨hout, hlines, suitesFilled_iff ss, ?_⟩
  intro hfail
  have hall : Uncommented (allOutline .colon 1 ss) := by
    intro e he
    exact hkept hfail e (List.mem_append_right _ he)
  exact (suitesFilled_iff ss).mpr
    ⟨keeps_of_uncommented hall, allBodiesKeep_of_uncommented ss 1 hall⟩

/-- A branch one of whose bodies has no statements and another one of which keeps one of two. -/
def halfDropped : List Statement :=
  [.branch (.compare (.identifier "x") "<" (.number 1)) []
    (.last [.foreign "Goto" .null, .print (.identifier "x")])]

theorem suites_filled_halfDropped :
    ∃ σ, EStateM.run (program .python .comment (.statements halfDropped)) {} =
        .ok ("def main():\n    if x < 1:\n        pass\n    else:\n" ++
          "        # Unsupported statement type: Goto\n        print(x)\n" ++
          "\nif __name__ == \"__main__\":\n    main()\n") σ ∧
      SuitesFilled halfDropped := by
  refine ⟨_, rfl, ?_⟩
  have hrun : EStateM.run (program .python .comment (.statements halfDropped)) {} = .ok _ _ := rfl
  obtain ⟨-, -, hiff, -⟩ := suites_filled_iff hrun
  have hkeeps : Keeps halfDropped := .inr ⟨_, List.mem_cons_self, rfl⟩
  have hlast : Keeps [.foreign "Goto" .null, .print (.identifier "x")] :=
    .inr ⟨_, List.mem_cons_of_mem _ List.mem_cons_self, rfl⟩
  exact hiff.mpr ⟨hkeeps, fun _ => ⟨.inl rfl, trivial, hlast, nofun, fun _ => trivial, trivial⟩,
    trivial⟩

/-- A loop whose only statement is foreign. -/
def allDropped : List Statement :=
  [.loop (.compare (.identifier "x") "<" (.number 1)) [.foreign "Goto" .null]]

/-- The comment policy can leave a header with a comment line alone. -/
theorem not_suites_filled :
    emit .python .comment (.statements allDropped) =
        .ok ("def main():\n    while x < 1:\n        # Unsupported statement type: Goto\n" ++
          "\nif __name__ == \"__main__\":\n    main()\n") ∧
      ¬ ∀ (policy : Policy) (ss : List Statement) (out : String) (σ : State),
        EStateM.run (program .python policy (.statements ss)) {} = .ok out σ →
          SuitesFilled ss := by
  refine ⟨rfl, ?_⟩
  intro hall
  obtain ⟨-, hheaders, -⟩ := hall .comment allDropped _ _ rfl
  have hsuite : ¬ HasSuite 1 [⟨2, .dropped (.foreign "Goto" .null)⟩] := by
    decide
  exact hsuite (hheaders rfl)

end Boli.Outline
