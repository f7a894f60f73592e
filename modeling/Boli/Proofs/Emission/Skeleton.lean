import Boli.Proofs.Emission.Shapes

/-!
# Skeletons

The skeleton of a program is its outline with braces. Blocks in it are balanced
(`balanced_skeleton`). Where a strictly parsed program is emitted and emission fails for every drop,
all targets of brace style write one line for each entry of it, and Python writes the same without
the closing lines and with a filler in every empty body (`skeletons_agree`).
-/

set_option autoImplicit false

namespace Boli.Outline

open Emission

/-! ## Balanced blocks -/

/-- How many blocks are open behind an entry, if it may stand where `n` are open. The depth of an
entry is the number of the blocks around it; a header and the end of a block stand outside of it. -/
def openAfter (n : Nat) (e : Entry) : Option Nat :=
  match e.part.shape with
  | .simple | .comment => if e.depth = n then some n else none
  | .opening => if e.depth = n then some (n + 1) else none
  | .continuation => if e.depth + 1 = n then some n else none
  | .closing => if e.depth + 1 = n then some e.depth else none

/-- How many blocks are open behind entries, if they may stand where `n` are open. -/
def openBehind (n : Nat) (es : List Entry) : Option Nat := es.foldlM openAfter n

/-- Every block is closed again, and the first and the last entry stand at the top level. -/
structure Balanced (es : List Entry) : Prop where
  closed : openBehind 0 es = some 0
  first : ∀ e ∈ es.head?, e.depth = 0
  last : ∀ e ∈ es.getLast?, e.depth = 0

section Balanced

variable {n m k : Nat} {e : Entry} {es es' : List Entry}

theorem openBehind_append (h : openBehind n es = some m) (h' : openBehind m es' = some k) :
    openBehind n (es ++ es') = some k := by
  rw [openBehind, List.foldlM_append, ← openBehind, h]
  exact h'

theorem openBehind_cons (h : openAfter n e = some m) (h' : openBehind m es = some k) :
    openBehind n (e :: es) = some k := by
  rw [openBehind, List.foldlM_cons, h]
  exact h'

theorem openBehind_simple {part : Part} (h : part.shape = .simple) :
    openBehind n [⟨n, part⟩] = some n := by
  apply openBehind_cons _ rfl
  rw [openAfter, h]
  exact if_pos rfl

theorem openAfter_opening {part : Part} (h : part.shape = .opening) :
    openAfter n ⟨n, part⟩ = some (n + 1) := by
  rw [openAfter, h]
  exact if_pos rfl

theorem openAfter_continuation {part : Part} (h : part.shape = .continuation) :
    openAfter (n + 1) ⟨n, part⟩ = some (n + 1) := by
  rw [openAfter, h]
  exact if_pos rfl

theorem openBehind_closing : openBehind (n + 1) (closing .braces n) = some n :=
  openBehind_cons (if_pos rfl) rfl

end Balanced

mutual

theorem openBehind_outline : ∀ (d : Nat) (s : Statement), openBehind d (outline .braces d s) = some d
  | _, .declare _ _ | _, .assign _ _ | _, .evaluate _ | _, .print _ => openBehind_simple rfl
  | d, .branch c body rest => by
    have hbody := openBehind_allOutline (d + 1) body
    have hrest := openBehind_restOutline d rest
    exact openBehind_append (openBehind_cons (openAfter_opening rfl) hbody)
      (openBehind_append hrest openBehind_closing)
  | d, .loop c body => by
    have hbody := openBehind_allOutline (d + 1) body
    exact openBehind_append (openBehind_cons (openAfter_opening rfl) hbody) openBehind_closing
  | _, .foreign _ _ => rfl

theorem openBehind_restOutline :
    ∀ (d : Nat) (r : Otherwise), openBehind (d + 1) (restOutline .braces d r) = some (d + 1)
  | _, .nothing => rfl
  | d, .last body => openBehind_cons (openAfter_continuation rfl) (openBehind_allOutline (d + 1) body)
  | d, .elseIf c body rest => by
    have hbody := openBehind_allOutline (d + 1) body
    exact openBehind_append (openBehind_cons (openAfter_continuation rfl) hbody)
      (openBehind_restOutline d rest)

/-- Behind statements as many blocks are open as in front of them. -/
theorem openBehind_allOutline :
    ∀ (d : Nat) (ss : List Statement), openBehind d (allOutline .braces d ss) = some d
  | _, [] => rfl
  | d, s :: ss => by
    rw [allOutline]
    apply openBehind_append _ (openBehind_allOutline d ss)
    by_cases hs : s.isNative = true
    · rw [if_pos hs]
      exact openBehind_outline d s
    · rw [if_neg hs]
      exact openBehind_cons (if_pos rfl) rfl

end

theorem depth_of_openAfter_zero {e : Entry} {n : Nat} (h : openAfter 0 e = some n) :
    e.depth = 0 := by
  rw [openAfter] at h
  split at h
  all_goals
    obtain ⟨hdepth, -⟩ := Option.ite_none_right_eq_some.mp h
    omega

theorem depth_of_openAfter_eq_zero {e : Entry} {n : Nat} (h : openAfter n e = some 0) :
    e.depth = 0 := by
  rw [openAfter] at h
  split at h
  all_goals
    obtain ⟨hdepth, hopen⟩ := Option.ite_none_right_eq_some.mp h
    have hzero := Option.some.inj hopen
    omega

/-- Where all blocks are closed in the end, the first and the last entry stand at the top level. -/
theorem balanced_of_closed {es : List Entry} (h : openBehind 0 es = some 0) : Balanced es := by
  refine ⟨h, ?_, ?_⟩
  · intro e he
    cases es with
    | nil => cases he
    | cons e' es =>
      cases he
      rw [openBehind, List.foldlM_cons] at h
      obtain ⟨m, hm, -⟩ := Option.bind_eq_some_iff.mp h
      exact depth_of_openAfter_zero hm
  · intro e he
    obtain ⟨es', rfl⟩ := List.getLast?_eq_some_iff.mp he
    rw [openBehind, List.foldlM_append] at h
    obtain ⟨m, -, hm⟩ := Option.bind_eq_some_iff.mp h
    rw [List.foldlM_cons] at hm
    obtain ⟨k, hk, hlast⟩ := Option.bind_eq_some_iff.mp hm
    cases hlast
    exact depth_of_openAfter_eq_zero hk

/-- The outline of a program with braces. -/
def skeleton : Program → List Entry
  | .statements ss => allOutline .braces 0 ss
  | .foreign _ _ => []

theorem balanced_skeleton (p : Program) : Balanced (skeleton p) := by
  cases p with
  | statements ss => exact balanced_of_closed (openBehind_allOutline 0 ss)
  | foreign kind data => exact balanced_of_closed rfl

/-! ## Without braces -/

/-- Whether an entry is the header of a body without entries, by what stands behind it. -/
def opensEmpty (e : Entry) (behind : List Entry) : Bool :=
  e.part.shape.isHeader && behind.head?.any (·.part.shape.endsBody)

/-- Entries without those that close blocks, and with a filler in every body without entries. -/
def unbraceFrom : List Entry → List Entry
  | [] => []
  | e :: es =>
    (if e.part.shape = .closing then [] else [e]) ++
      (if opensEmpty e es then [⟨e.depth + 1, .filler⟩] else []) ++ unbraceFrom es

/-- The entries of a program without braces. If there are none it is filled itself. -/
def unbrace : List Entry → List Entry
  | [] => [⟨0, .filler⟩]
  | e :: es => unbraceFrom (e :: es)

/-- The skeleton as a block style has it. -/
def arrange : BlockStyle → List Entry → List Entry
  | .braces, es => es
  | .colon, es => unbrace es

section Unbrace

variable {d : Nat} {part : Part} {es : List Entry}

theorem unbraceFrom_cons_of_not_header (hheader : part.shape.isHeader = false)
    (hclosing : part.shape ≠ .closing) :
    unbraceFrom (⟨d, part⟩ :: es) = ⟨d, part⟩ :: unbraceFrom es := by
  rw [unbraceFrom, if_neg hclosing, opensEmpty, hheader]
  rfl

theorem unbraceFrom_closing : unbraceFrom (closing .braces d ++ es) = unbraceFrom es := by
  rfl

/-- A block loses its closing entry and gains a filler if its body is empty. -/
theorem unbraceFrom_block (part : Part) {body : List Statement} (hheader : part.shape.isHeader = true)
    (hes : es.head?.any (·.part.shape.endsBody) = true)
    (hbody : unbraceFrom (allOutline .braces (d + 1) body ++ es) =
      allOutline .colon (d + 1) body ++ unbraceFrom es) :
    unbraceFrom (⟨d, part⟩ ::
        (filling .braces (d + 1) body ++ allOutline .braces (d + 1) body) ++ es) =
      ⟨d, part⟩ :: (filling .colon (d + 1) body ++ allOutline .colon (d + 1) body) ++
        unbraceFrom es := by
  have hclosing : part.shape ≠ .closing := by
    intro hshape
    rw [hshape] at hheader
    cases hheader
  rw [filling, List.nil_append, List.cons_append, unbraceFrom, if_neg hclosing, hbody, opensEmpty,
    hheader, Bool.true_and]
  cases body with
  | nil =>
    have hempty : ((allOutline .braces (d + 1) [] ++ es).head?.any (·.part.shape.endsBody)) = true :=
      hes
    rw [if_pos hempty]
    rfl
  | cons s ss =>
    obtain ⟨part', es', houtline, hends⟩ := exists_allOutline_eq .braces (d + 1) s ss
    have hfull : ¬ ((allOutline .braces (d + 1) (s :: ss) ++ es).head?.any
        (·.part.shape.endsBody)) = true := by
      rw [houtline]
      show ¬ part'.shape.endsBody = true
      rw [hends]
      nofun
    rw [if_neg hfull]
    rfl

end Unbrace

/-- Behind the body of a branch stands an entry that ends it. -/
theorem head_restOutline (d : Nat) (r : Otherwise) (es : List Entry) :
    ((restOutline .braces d r ++ (closing .braces d ++ es)).head?.any
      (·.part.shape.endsBody)) = true := by
  cases r with
  | nothing => rfl
  | last body => rfl
  | elseIf c body rest => rfl

mutual

theorem unbraceFrom_outline : ∀ (d : Nat) (s : Statement) (es : List Entry),
    unbraceFrom (outline .braces d s ++ es) = outline .colon d s ++ unbraceFrom es
  | _, .declare _ _, es | _, .assign _ _, es | _, .evaluate _, es | _, .print _, es =>
    unbraceFrom_cons_of_not_header rfl nofun
  | _, .foreign _ _, es => rfl
  | d, .branch c body rest, es => by
    have hbody := unbraceFrom_allOutline (d + 1) body
      (restOutline .braces d rest ++ (closing .braces d ++ es))
    have hblock := unbraceFrom_block (.branch c) rfl (head_restOutline d rest es) hbody
    rw [outline, outline, List.append_assoc, List.append_assoc, hblock,
      unbraceFrom_restOutline d rest es, closing, List.append_nil, List.append_assoc]
  | d, .loop c body, es => by
    have hbody := unbraceFrom_allOutline (d + 1) body (closing .braces d ++ es)
    have hblock := unbraceFrom_block (.loop c) rfl rfl hbody
    rw [outline, outline, List.append_assoc, hblock, unbraceFrom_closing, closing, List.append_nil]

theorem unbraceFrom_restOutline : ∀ (d : Nat) (r : Otherwise) (es : List Entry),
    unbraceFrom (restOutline .braces d r ++ (closing .braces d ++ es)) =
      restOutline .colon d r ++ unbraceFrom es
  | _, .nothing, es => unbraceFrom_closing
  | d, .last body, es => by
    have hbody := unbraceFrom_allOutline (d + 1) body (closing .braces d ++ es)
    have hblock := unbraceFrom_block .last rfl rfl hbody
    rw [restOutline, restOutline, hblock, unbraceFrom_closing]
  | d, .elseIf c body rest, es => by
    have hbody := unbraceFrom_allOutline (d + 1) body
      (restOutline .braces d rest ++ (closing .braces d ++ es))
    have hblock := unbraceFrom_block (.elseIf c) rfl (head_restOutline d rest es) hbody
    rw [restOutline, restOutline, List.append_assoc, hblock, unbraceFrom_restOutline d rest es,
      List.append_assoc]

theorem unbraceFrom_allOutline : ∀ (d : Nat) (ss : List Statement) (es : List Entry),
    unbraceFrom (allOutline .braces d ss ++ es) = allOutline .colon d ss ++ unbraceFrom es
  | _, [], es => rfl
  | d, s :: ss, es => by
    rw [allOutline, allOutline, List.append_assoc, List.append_assoc,
      ← unbraceFrom_allOutline d ss es]
    by_cases hs : s.isNative = true
    · rw [if_pos hs, if_pos hs]
      exact unbraceFrom_outline d s _
    · rw [if_neg hs, if_neg hs]
      exact unbraceFrom_cons_of_not_header rfl nofun

end

/-- The outline in each block style is the skeleton as that style has it. -/
theorem arrange_skeleton (style : BlockStyle) (ss : List Statement) :
    arrange style (skeleton (.statements ss)) = bodyOutline style 0 ss := by
  cases style with
  | braces => rfl
  | colon =>
    cases ss with
    | nil => rfl
    | cons s ss =>
      obtain ⟨part, es, hes, -⟩ := exists_allOutline_eq .braces 0 s ss
      have hunbrace := unbraceFrom_allOutline 0 (s :: ss) []
      rw [List.append_nil, unbraceFrom, List.append_nil, hes] at hunbrace
      rw [skeleton, arrange, hes, unbrace, hunbrace]
      rfl

/-! ## Programs that are emitted -/

/-- What the outline says of a line: its depth below the top level, and its shape. -/
def Entry.reading (e : Entry) : Int × Shape := (e.depth, e.part.shape)

/-- What a line of a target shows: its depth below the top level, and its shape. -/
def lineReading (t : Target) (l : Line) : Int × Shape := (l.depth - t.bodyLevel, t.shapeOf l.text)

/-- Lines that stand for entries show what the entries say. -/
theorem map_lineReading {t : Target} (ht : t.Legible) {es : List Entry} {ls : List Line}
    (hfit : AllFit (.wellFormed .empty) t.blockStyle 0 es) (hcomment : Uncommented es)
    (h : List.Forall₂ (Stands t t.bodyLevel) es ls) :
    ls.map (lineReading t) = es.map Entry.reading := by
  induction h with
  | nil => rfl
  | @cons e l es ls hstands _ ih =>
    have hfits := hfit e List.mem_cons_self
    have hshape := shapeOf_of_spells ht hstands.text hfits.form (hcomment e List.mem_cons_self)
      hfits.closing
    have hdepth : l.depth - t.bodyLevel = e.depth := by
      rw [hstands.depth]
      omega
    rw [List.map_cons, List.map_cons, lineReading, hdepth, hshape,
      ih (fun e he => hfit e (List.mem_cons_of_mem _ he))
        (fun e he => hcomment e (List.mem_cons_of_mem _ he))]
    rfl

theorem isNative_of_isPrimaryOf {tokens : List Token} {e : Expression}
    (h : e.IsPrimaryOf tokens) : e.isNative = true := by
  cases e with
  | number n => rfl
  | text s => rfl
  | identifier name => rfl
  | binary operator left right => exact h.elim
  | foreign kind data => exact h.elim

/-- The parser makes no foreign values. -/
theorem native_of_builtOf (tokens : List Token) : (Form.builtOf tokens).Implies .native where
  name _ _ := trivial
  value e he := by
    cases e with
    | binary operator left right =>
      exact Bool.and_eq_true_iff.mpr
        ⟨isNative_of_isPrimaryOf he.2.1, isNative_of_isPrimaryOf he.2.2⟩
    | number n => rfl
    | text s => rfl
    | identifier name => rfl
    | foreign kind data => exact he.elim
  lone e he := by
    obtain ⟨name, rfl, -⟩ := he
    rfl
  condition c hc := by
    cases c with
    | compare left operator right =>
      exact Bool.and_eq_true_iff.mpr
        ⟨isNative_of_isPrimaryOf hc.2.1, isNative_of_isPrimaryOf hc.2.2⟩
    | foreign kind data => exact hc.elim
  foreign h := h

/-- The blocks of a strictly parsed program are balanced, and nothing in its skeleton is a comment.
Whenever a target writes the program, and emission would fail for every drop, the lines of the body
stand for the skeleton as the block style of the target has it: in brace style for the skeleton
itself, without braces for the skeleton that has lost its closing entries and has gained a filler in
every empty body. Where the tokens are those of a source, the depths and texts of the lines alone
show this. -/
theorem skeletons_agree {tokens : List Token} {p : Program} (h : parse .strict tokens = .ok p) :
    Balanced (skeleton p) ∧ Uncommented (skeleton p) ∧
    ∀ t ∈ Target.catalogue, ∀ (out : String) (σ : State),
      EStateM.run (program t .fail p) {} = .ok out σ →
      out = σ.output t ∧ ∃ ls, σ.lines = t.opening.map (⟨0, ·⟩) ++ ls ++ t.closing.map (⟨0, ·⟩) ∧
        List.Forall₂ (Stands t t.bodyLevel) (arrange t.blockStyle (skeleton p)) ls ∧
        ∀ (table : Keyword.Table) (source : String), tokenize table source = .ok tokens →
          ls.map (lineReading t) =
            (arrange t.blockStyle (skeleton p)).map Entry.reading := by
  obtain ⟨ss, rfl, hbuilt⟩ := exists_built_of_parse h
  have hnative := allHave_of_implies (native_of_builtOf tokens) ss hbuilt
  refine ⟨balanced_skeleton _, uncommented_of_fits (allFit_allOutline 0 ss hnative), ?_⟩
  intro t ht out σ hrun
  have hlevel : t.bodyLevel = t.bodyLevel + (0 : Nat) := (Int.add_zero _).symm
  obtain ⟨hout, ⟨ls, hlines, hstands⟩, -⟩ :=
    exists_lines_of_program (fills_of_mem_catalogue ht) (.inl rfl) hlevel hrun
  rw [arrange_skeleton]
  refine ⟨hout, ls, hlines, hstands, ?_⟩
  intro table source htokens
  have hwell : AllHave (.wellFormed table) ss := wellFormed_of_parse htokens h
  have hempty := allHave_of_implies (Form.wellFormed_implies_empty table) ss hwell
  exact map_lineReading (Target.legible_of_mem_catalogue ht) (allFit_bodyOutline 0 hempty)
    (uncommented_of_fits (allFit_bodyOutline 0 hnative)) hstands

/-- A branch with an empty body, a further one around an empty loop, and a last one. -/
def emptyBodies : List Token :=
  [{ kind := .keyword .ifStart, value := "agar" }, { kind := .identifier, value := "x" },
    { kind := .operator, value := "<" }, { kind := .number, value := "1" },
    { kind := .openBrace, value := "\x7b" }, { kind := .closeBrace, value := "\x7d" },
    { kind := .keyword .elseIf, value := "yafir" }, { kind := .identifier, value := "x" },
    { kind := .operator, value := "<" }, { kind := .number, value := "2" },
    { kind := .openBrace, value := "\x7b" },
    { kind := .keyword .whileStart, value := "jabtak" }, { kind := .identifier, value := "x" },
    { kind := .operator, value := "<" }, { kind := .number, value := "3" },
    { kind := .openBrace, value := "\x7b" }, { kind := .closeBrace, value := "\x7d" },
    { kind := .closeBrace, value := "\x7d" },
    { kind := .keyword .elseStart, value := "varna" },
    { kind := .keyword .print, value := "bol" }, { kind := .identifier, value := "x" }]

theorem skeletons_agree_emptyBodies :
    let x : Expression := .identifier "x"
    let p : Program := .statements
      [.branch (.compare x "<" (.number 1)) []
        (.elseIf (.compare x "<" (.number 2)) [.loop (.compare x "<" (.number 3)) []]
          (.last [.print x]))]
    parse .strict emptyBodies = .ok p ∧ Balanced (skeleton p) ∧
      (skeleton p).map Entry.reading = [(0, .opening), (0, .continuation), (1, .opening),
        (1, .closing), (0, .continuation), (1, .simple), (0, .closing)] ∧
      (arrange .colon (skeleton p)).map Entry.reading = [(0, .opening), (1, .simple),
        (0, .continuation), (1, .opening), (2, .simple), (0, .continuation), (1, .simple)] ∧
      ∃ out σ, EStateM.run (program .go .fail p) {} = .ok out σ ∧
        ∃ ls, σ.lines = Target.go.opening.map (⟨0, ·⟩) ++ ls ++ [⟨0, "\x7d"⟩] ∧
          List.Forall₂ (Stands .go 1) (skeleton p) ls := by
  intro x p
  have h : parse .strict emptyBodies = .ok p := Results.eq_ok_of_toOption (by decide +kernel)
  obtain ⟨hbalanced, -, hemits⟩ := skeletons_agree h
  have hgo : Target.go ∈ Target.catalogue := by simp [Target.catalogue]
  refine ⟨h, hbalanced, rfl, rfl, _, _, rfl, ?_⟩
  obtain ⟨-, ls, hlines, hstands, -⟩ := hemits .go hgo _ _ rfl
  exact ⟨ls, hlines, hstands⟩

end Boli.Outline
