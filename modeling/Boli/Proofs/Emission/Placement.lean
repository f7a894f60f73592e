import Boli.Proofs.Emission.Policies
import Mathlib.Data.List.Forall2

/-!
# Statements at their place

Whatever the emitter does for a statement, the lines that were there stay in front, and behind the
statement the depth is what it was. None of the new lines stands less deep than the statement, and
one that is dropped leaves its comment line and no other (`statement_adds_lines`).

Earlier lines and the depth play no part in what is written. Two runs of a statement under the same
kinds of names end alike, with lines that are the same but for their indentation
(`statement_moves`).
-/

set_option autoImplicit false

namespace Boli.Rendering

open Emission

variable {t : Target}

/-! ## How deep lines stand -/

/-- No line stands less deep than `depth`. -/
def Within (depth : Int) (ls : List Line) : Prop := ∀ l ∈ ls, depth ≤ l.depth

theorem Within.append {depth : Int} {ls ls' : List Line} (h : Within depth ls)
    (h' : Within depth ls') : Within depth (ls ++ ls') :=
  List.forall_mem_append.mpr ⟨h, h'⟩

theorem Within.cons {depth : Int} {l : Line} {ls : List Line} (hl : depth ≤ l.depth)
    (h : Within depth ls) : Within depth (l :: ls) :=
  List.forall_mem_cons.mpr ⟨hl, h⟩

theorem within_singleton (depth : Int) (text : String) : Within depth [⟨depth, text⟩] :=
  .cons (Int.le_refl depth) nofun

theorem Within.of_le {depth depth' : Int} {ls : List Line} (h : Within depth' ls)
    (hle : depth ≤ depth') : Within depth ls :=
  fun l hl => Int.le_trans hle (h l hl)

theorem within_filler (depth : Int) (body : List Statement) :
    Within depth (filler t depth body) := by
  unfold filler
  split
  · exact within_singleton depth _
  · exact nofun

theorem within_closer (depth : Int) : Within depth (closer t depth) := by
  unfold closer
  split
  · exact within_singleton depth _
  · exact nofun

theorem within_blockLines (depth : Int) (header : String) (body : List Statement)
    {inner : List Line} (h : Within (depth + 1) inner) :
    Within depth (blockLines t depth header body inner) := by
  have hle : depth ≤ depth + 1 := Int.le_add_one (Int.le_refl depth)
  exact .cons (Int.le_refl depth) (((within_filler (depth + 1) body).append h).of_le hle)

theorem within_replaced {depth : Int} {ls : List Line} (h : Within depth ls)
    (kind : Option String) : Within depth (replaced t depth ls kind) := by
  cases kind with
  | none => exact h
  | some kind => exact within_singleton depth _

mutual

theorem within_lines :
    ∀ (s : Statement) (b : Bindings) (depth : Int), Within depth (lines t b depth s)
  | .foreign _ _, _, _ => nofun
  | .declare _ _, _, depth | .assign _ _, _, depth | .evaluate _, _, depth | .print _, _, depth =>
    within_singleton depth _
  | .branch _ body rest, b, depth =>
    ((within_blockLines depth _ body (within_allLines body b (depth + 1))).append
      (within_restLines rest _ depth)).append (within_closer depth)
  | .loop _ body, b, depth =>
    (within_blockLines depth _ body (within_allLines body b (depth + 1))).append
      (within_closer depth)

theorem within_restLines :
    ∀ (r : Otherwise) (b : Bindings) (depth : Int), Within depth (restLines t b depth r)
  | .nothing, _, _ => nofun
  | .last body, b, depth => within_blockLines depth _ body (within_allLines body b (depth + 1))
  | .elseIf _ body rest, b, depth =>
    (within_blockLines depth _ body (within_allLines body b (depth + 1))).append
      (within_restLines rest _ depth)

/-- The lines of statements stand as deep as the statements, or deeper. -/
theorem within_allLines :
    ∀ (ss : List Statement) (b : Bindings) (depth : Int), Within depth (allLines t b depth ss)
  | [], _, _ => nofun
  | s :: ss, b, depth =>
    (within_replaced (within_lines s b depth) _).append (within_allLines ss _ depth)

end

/-- A statement has a line, its own or a comment. -/
theorem replaced_lines_ne_nil (b : Bindings) (depth : Int) (s : Statement) :
    replaced t depth (lines t b depth s) (rejected t b s) ≠ [] := by
  cases hr : rejected t b s with
  | some kind => exact List.cons_ne_nil _ _
  | none =>
    cases s with
    | foreign kind data => cases hr
    | declare name e => exact List.cons_ne_nil _ _
    | assign name e => exact List.cons_ne_nil _ _
    | evaluate e => exact List.cons_ne_nil _ _
    | print e => exact List.cons_ne_nil _ _
    | branch c body rest => exact List.cons_ne_nil _ _
    | loop c body => exact List.cons_ne_nil _ _

/-! ## Indentation -/

theorem repeated_add (m n : Nat) (text : String) :
    repeated (m + n) text = repeated m text ++ repeated n text := by
  rw [repeated, ← List.replicate_append_replicate, String.join_append]
  rfl

/-- What stands in a line behind the indentation of a depth. -/
def textFrom (t : Target) (depth : Int) (l : Line) : String :=
  repeated (l.depth.toNat - depth.toNat) t.indentUnit ++ l.text

theorem render_eq {depth : Int} {l : Line} (h : depth ≤ l.depth) :
    l.render t = indentation t depth ++ textFrom t depth l := by
  have hsum : l.depth.toNat = depth.toNat + (l.depth.toNat - depth.toNat) := by omega
  rw [Line.render, indentation, hsum, repeated_add, String.append_assoc]
  rfl

/-- A line that stands so many levels deeper. -/
def deeper (levels : Int) (l : Line) : Line := { l with depth := l.depth + levels }

/-- A line that is moved together with a depth looks the same from there. -/
theorem textFrom_deeper {depth levels : Int} {l : Line} (h : 0 ≤ depth)
    (h' : 0 ≤ depth + levels) (hl : depth ≤ l.depth) :
    textFrom t (depth + levels) (deeper levels l) = textFrom t depth l := by
  have hcount : (l.depth + levels).toNat - (depth + levels).toNat =
      l.depth.toNat - depth.toNat := by omega
  rw [textFrom, textFrom, deeper, hcount]

/-! ## Runs at two places -/

/-- Behind `ls` and `ls'` stand the same lines, in the second state so many levels deeper, and both
states know the same kinds. -/
structure Moved (ls ls' : List Line) (levels : Int) (σ τ : State) : Prop where
  lines : ∃ new, σ.lines = ls ++ new ∧ τ.lines = ls' ++ new.map (deeper levels)
  depth : τ.depth = σ.depth + levels
  bindings : σ.bindings = τ.bindings

/-- Nothing the emitter does depends on earlier lines or on the depth. -/
theorem kept_moved (ls ls' : List Line) (levels : Int) : Kept Eq (Moved ls ls' levels) where
  bindings h := h.bindings
  add {σ τ} h text := by
    obtain ⟨new, hσ, hτ⟩ := h.lines
    refine ⟨⟨new ++ [⟨σ.depth, text⟩], ?_, ?_⟩, h.depth, h.bindings⟩
    · rw [hσ, List.append_assoc]
    · rw [hτ, h.depth, List.map_append, List.append_assoc]
      rfl
  move h levels' := ⟨h.lines, by rw [h.depth, Int.add_right_comm], h.bindings⟩
  record h hb := ⟨h.lines, h.depth, hb⟩
  drop h kind := ⟨h.lines, h.depth, h.bindings⟩
  restore h h' := ⟨h.lines, h.depth, h'.bindings⟩

theorem respects_eq (t : Target) : Respects t Eq where
  expression h e := by rw [h]
  print h e := by rw [h]
  declaration h e name value := by rw [h]
  put h e name := by rw [h]

/-- The runs of a statement from two places under the same kinds. -/
theorem statement_moved (t : Target) (policy : Policy) (s : Statement) {σ τ : State}
    (h : σ.bindings = τ.bindings) :
    Outcome (Moved σ.lines τ.lines (τ.depth - σ.depth)) (statement t policy s σ)
      (statement t policy s τ) := by
  refine (kept_moved _ _ _).statement_related (respects_eq t) s σ τ ⟨⟨[], ?_, ?_⟩, ?_, h⟩
  · rw [List.append_nil]
  · rw [List.map_nil, List.append_nil]
  · omega

/-- A run of a statement, be it a failure, keeps the lines that were there. -/
theorem lines_prefix_of_statement {policy : Policy} {s : Statement} {σ τ : State}
    {failure : Failure} (h : statement t policy s σ = .error failure τ) : σ.lines <+: τ.lines := by
  have hmoved := statement_moved t policy s (rfl : σ.bindings = σ.bindings)
  rw [h] at hmoved
  cases hmoved with
  | error hR =>
    obtain ⟨new, hlines, -⟩ := hR.lines
    exact ⟨new, hlines.symm⟩

/-- A statement is written, with lines none of which stands less deep, or it is refused. -/
theorem statement_cases (ht : t.Complete) (policy : Policy) {s : Statement} (h : s.Has .writable)
    (σ : State) :
    (∃ τ ls, statement t policy s σ = .ok () τ ∧ τ.lines = σ.lines ++ ls ∧ ls ≠ [] ∧
      Within σ.depth ls ∧ τ.depth = σ.depth) ∨
    policy = .fail ∧ ∃ kind τ, statement t policy s σ = .error (.unsupported kind t.name) τ := by
  have hgoes : Goes t policy (statement t policy s) σ _ _ none :=
    (construct_goes ht s σ h).guarded
  rcases hgoes.run_cases with hrun | hrefused
  · exact .inl ⟨_, _, hrun, rfl, replaced_lines_ne_nil σ.bindings σ.depth s,
      within_replaced (within_lines s _ _) _, rfl⟩
  · exact .inr hrefused

/-- A dropped statement leaves its comment line, whatever was written for it before. -/
theorem statement_of_dropped {s : Statement} {σ υ : State} {kind target : String}
    (h : construct t .comment s σ = .error (.unsupported kind target) υ) :
    ∃ τ, statement t .comment s σ = .ok () τ ∧
      τ.lines = σ.lines ++ [⟨σ.depth, comment t kind⟩] := by
  let τ : State := { υ with
    lines := σ.lines ++ [⟨σ.depth, comment t kind⟩]
    depth := σ.depth
    dropped := υ.dropped ++ [kind] }
  refine ⟨τ, ?_, rfl⟩
  rw [statement, guarded_run, h]
  rfl

/-! ## What a statement adds -/

/-- Under the comment policy a statement is always written. The lines that were there stay in front,
at least one is added, all those added begin with the indentation of the depth, which is back behind
the statement, and a statement that is dropped adds its comment line alone. Where emission is to
fail, the same holds of what is written, and a failure keeps the lines that were there. -/
theorem statement_adds_lines (ht : t ∈ Target.catalogue) {s : Statement} (hs : s.Has .writable)
    (σ : State) :
    (∃ τ ls, statement t .comment s σ = .ok () τ ∧ τ.lines = σ.lines ++ ls ∧ ls ≠ [] ∧
      (∀ l ∈ ls, ∃ text, l.render t = indentation t σ.depth ++ text) ∧ τ.depth = σ.depth ∧
      ∀ kind target υ, construct t .comment s σ = .error (.unsupported kind target) υ →
        ls = [⟨σ.depth, comment t kind⟩]) ∧
    (∀ τ, statement t .fail s σ = .ok () τ →
      ∃ ls, τ.lines = σ.lines ++ ls ∧ ls ≠ [] ∧
        (∀ l ∈ ls, ∃ text, l.render t = indentation t σ.depth ++ text) ∧ τ.depth = σ.depth) ∧
    ∀ kind target τ, statement t .fail s σ = .error (.unsupported kind target) τ →
      σ.lines <+: τ.lines := by
  have hc := Target.complete_of_mem_catalogue ht
  refine ⟨?_, fun τ hτ => ?_, fun kind target τ hτ => lines_prefix_of_statement hτ⟩
  · rcases statement_cases hc .comment hs σ with ⟨τ, ls, hrun, hlines, hne, hin, hdepth⟩ | ⟨hp, -⟩
    · refine ⟨τ, ls, hrun, hlines, hne, fun l hl => ⟨_, render_eq (hin l hl)⟩, hdepth, ?_⟩
      intro kind target υ hdropped
      obtain ⟨τ', hrun', hlines'⟩ := statement_of_dropped hdropped
      rw [hrun] at hrun'
      cases hrun'
      exact List.append_cancel_left (hlines.symm.trans hlines')
    · cases hp
  · rcases statement_cases hc .fail hs σ with ⟨τ', ls, hrun, hlines, hne, hin, hdepth⟩ | ⟨-, hrun⟩
    · rw [hτ] at hrun
      cases hrun
      exact ⟨ls, hlines, hne, fun l hl => ⟨_, render_eq (hin l hl)⟩, hdepth⟩
    · obtain ⟨kind, τ', hrun⟩ := hrun
      rw [hτ] at hrun
      cases hrun

/-- A branch that is dropped for its second condition, when its first body has been written. -/
def halfWritten : Statement :=
  .branch (.compare (.identifier "x") "<" (.number 1)) [.print (.identifier "x")]
    (.elseIf (.foreign "Call" .null) [.print (.number 2)] .nothing)

/-- The header and the body of the branch are taken back, or stand behind the lines that were there
when emission fails. -/
theorem statement_adds_lines_halfWritten :
    let σ : State := { lines := [⟨0, "def main():"⟩], depth := 1 }
    Target.python ∈ Target.catalogue ∧ halfWritten.Has .writable ∧
      (∃ τ, statement .python .comment halfWritten σ = .ok () τ ∧ τ.depth = 1 ∧
        τ.lines = σ.lines ++ [⟨1, "# Unsupported statement type: Call"⟩]) ∧
      ∃ τ, statement .python .fail halfWritten σ = .error (.unsupported "Call" "py") τ ∧
        σ.lines <+: τ.lines ∧ τ.lines = σ.lines ++ [⟨1, "if x < 1:"⟩, ⟨2, "print(x)"⟩] := by
  intro σ
  have ht : Target.python ∈ Target.catalogue := by simp [Target.catalogue]
  have hone : Text.Numeral.Writable 1 := by decide
  have htwo : Text.Numeral.Writable 2 := by decide
  have hs : halfWritten.Has .writable :=
    ⟨⟨trivial, hone⟩, ⟨trivial, trivial⟩, trivial, ⟨htwo, trivial⟩, trivial⟩
  obtain ⟨⟨τ, ls, hrun, hlines, -, -, hdepth, hdropped⟩, -, hkeeps⟩ :=
    statement_adds_lines ht hs σ
  have hconstruct : construct .python .comment halfWritten σ =
      .error (.unsupported "Call" "py") _ := rfl
  have hls : ls = [⟨1, "# Unsupported statement type: Call"⟩] := hdropped _ _ _ hconstruct
  have hfail : statement .python .fail halfWritten σ = .error (.unsupported "Call" "py") _ := rfl
  exact ⟨ht, hs, ⟨τ, hrun, hdepth, hls ▸ hlines⟩, _, hfail, hkeeps _ _ _ hfail, rfl⟩

/-! ## What it does not depend on -/

/-- Two lines are the same behind the indentation of `depth` in the first and of `depth'` in the
second. -/
def SameBehind (t : Target) (depth depth' : Int) (l l' : Line) : Prop :=
  ∃ text, l.render t = indentation t depth ++ text ∧ l'.render t = indentation t depth' ++ text

theorem sameBehind_deeper {depth levels : Int} {l : Line} (h : 0 ≤ depth)
    (h' : 0 ≤ depth + levels) (hl : depth ≤ l.depth) :
    SameBehind t depth (depth + levels) l (deeper levels l) := by
  refine ⟨textFrom t depth l, render_eq hl, ?_⟩
  have hdeeper : depth + levels ≤ (deeper levels l).depth := Int.add_le_add_right hl levels
  rw [render_eq hdeeper, textFrom_deeper h h' hl]

/-- From states with the same kinds of names, whatever lines they hold and how deep they stand, a
statement is refused for the same node, or adds lines that are pairwise the same behind the
indentation of the depths. Either way the kinds of names are the same again. -/
theorem statement_moves (ht : t ∈ Target.catalogue) (policy : Policy) {s : Statement}
    (hs : s.Has .writable) {σ τ : State} (hσ : 0 ≤ σ.depth) (hτ : 0 ≤ τ.depth)
    (hb : σ.bindings = τ.bindings) :
    (∃ kind σ' τ', statement t policy s σ = .error (.unsupported kind t.name) σ' ∧
      statement t policy s τ = .error (.unsupported kind t.name) τ' ∧
      σ'.bindings = τ'.bindings) ∨
    ∃ σ' τ' ls ls', statement t policy s σ = .ok () σ' ∧ statement t policy s τ = .ok () τ' ∧
      σ'.lines = σ.lines ++ ls ∧ τ'.lines = τ.lines ++ ls' ∧
      List.Forall₂ (SameBehind t σ.depth τ.depth) ls ls' ∧ σ'.bindings = τ'.bindings := by
  have hruns := statement_moved t policy s hb
  have hlevels : σ.depth + (τ.depth - σ.depth) = τ.depth := by omega
  rcases statement_cases (Target.complete_of_mem_catalogue ht) policy hs σ with
    ⟨σ', ls, hrun, hlines, -, hin, -⟩ | ⟨-, kind, σ', hrun⟩
  · cases hrun' : statement t policy s τ <;> rw [hrun, hrun'] at hruns <;> cases hruns
    case ok τ' hR =>
      obtain ⟨new, hnew, hnew'⟩ := hR.lines
      obtain rfl : ls = new := List.append_cancel_left (hlines.symm.trans hnew)
      refine .inr ⟨σ', τ', ls, _, hrun, rfl, hlines, hnew', ?_, hR.bindings⟩
      rw [List.forall₂_map_right_iff, List.forall₂_same]
      intro l hl
      have hsame := sameBehind_deeper (t := t) hσ (hlevels.symm ▸ hτ) (hin l hl)
      rwa [hlevels] at hsame
  · cases hrun' : statement t policy s τ <;> rw [hrun, hrun'] at hruns <;> cases hruns
    case error τ' hR => exact .inl ⟨kind, σ', τ', hrun, rfl, hR.bindings⟩

/-- A loop with a concatenation and a foreign statement in its body. -/
def foreignInLoop : Statement :=
  .loop (.compare (.identifier "s") "==" (.number 1))
    [.print (.binary "+" (.identifier "s") (.number 1)), .foreign "Call" .null]

/-- The loop is written in the same way at the depths 1 and 3. -/
theorem statement_moves_foreignInLoop :
    let σ : State := { depth := 1, bindings := [("s", .string)] }
    let τ : State := { lines := [⟨2, "else"⟩], depth := 3, bindings := [("s", .string)] }
    Target.java ∈ Target.catalogue ∧ foreignInLoop.Has .writable ∧ 0 ≤ σ.depth ∧ 0 ≤ τ.depth ∧
      σ.bindings = τ.bindings ∧
      ∃ σ' τ' ls ls', statement .java .comment foreignInLoop σ = .ok () σ' ∧
        statement .java .comment foreignInLoop τ = .ok () τ' ∧ σ'.lines = σ.lines ++ ls ∧
        τ'.lines = τ.lines ++ ls' ∧ List.Forall₂ (SameBehind .java 1 3) ls ls' ∧
        σ'.bindings = τ'.bindings ∧
        ls = [⟨1, "while (s == 1) \x7b"⟩, ⟨2, "System.out.println(s + 1);"⟩,
          ⟨2, "// Unsupported statement type: Call"⟩, ⟨1, "\x7d"⟩] := by
  intro σ τ
  have ht : Target.java ∈ Target.catalogue := by simp [Target.catalogue]
  have hone : Text.Numeral.Writable 1 := by decide
  have hs : foreignInLoop.Has .writable :=
    ⟨⟨trivial, hone⟩, ⟨trivial, hone⟩, trivial, trivial⟩
  have hσ : 0 ≤ σ.depth := by decide
  have hτ : 0 ≤ τ.depth := by decide
  have hrun : statement .java .comment foreignInLoop σ = .ok () _ := rfl
  refine ⟨ht, hs, hσ, hτ, rfl, ?_⟩
  rcases statement_moves ht .comment hs hσ hτ rfl with
    ⟨kind, σ', τ', hrefused, -⟩ | ⟨σ', τ', ls, ls', hrun', hrun'', hls, hls', hsame, hb⟩
  · rw [hrun] at hrefused
    cases hrefused
  · refine ⟨σ', τ', ls, ls', hrun', hrun'', hls, hls', hsame, hb, ?_⟩
    rw [hrun] at hrun'
    cases hrun'
    exact hls.symm

end Boli.Rendering
