import Boli.Program.Data
import Boli.Proofs.Emission.Outline
import Mathlib.Data.List.Forall2

/-!
# Plain data tell their trees

Two trees without foreign values are the same just when their data are, in whatever order an object
keeps its fields (`Node.eq_iff_sameContent`). So nothing of a tree gets lost in its data: not its
kind, where several kinds have the same fields, and not whether a branch has a last one that holds no
statements or has none.

The field that tells the kind of a node decides which one of the kinds the other node is of, and then
the fields are compared by their names. A branch keeps its continuations in two fields, so that these
are compared by both at once (`Otherwise.eq_of_sameContent`).
-/

set_option autoImplicit false

namespace Boli

/-! ## The content of data -/

namespace Json

/-- Two values hold the same. Arrays do element by element, and objects under each name of a field,
whatever the order of the fields. -/
inductive SameContent : Json → Json → Prop where
  | null : SameContent .null .null
  | bool (b : Bool) : SameContent (.bool b) (.bool b)
  | int (n : Int) : SameContent (.int n) (.int n)
  | float (x : Float) : SameContent (.float x) (.float x)
  | text (s : String) : SameContent (.text s) (.text s)
  | array {as bs : List Json} (h : List.Forall₂ SameContent as bs) :
      SameContent (.array as) (.array bs)
  | object {as bs : List (String × Json)}
      (h : ∀ key, Option.Rel SameContent (Dictionary.get? key as) (Dictionary.get? key bs)) :
      SameContent (.object as) (.object bs)

mutual

theorem SameContent.refl : ∀ a : Json, SameContent a a
  | .null => .null
  | .bool b => .bool b
  | .int n => .int n
  | .float x => .float x
  | .text s => .text s
  | .array as => .array (forall₂_sameContent as)
  | .object fields => .object (rel_get?_sameContent fields)

theorem forall₂_sameContent : ∀ as : List Json, List.Forall₂ SameContent as as
  | [] => .nil
  | a :: as => .cons (.refl a) (forall₂_sameContent as)

theorem rel_get?_sameContent : ∀ (fields : List (String × Json)) (key : String),
    Option.Rel SameContent (Dictionary.get? key fields) (Dictionary.get? key fields)
  | [], _ => .none
  | (name, a) :: fields, key => by
    rw [Dictionary.get?]
    split
    · exact .some (.refl a)
    · exact rel_get?_sameContent fields key

end

namespace SameContent

theorem int_eq {n n' : Int} (h : SameContent (.int n) (.int n')) : n = n' := by
  cases h
  rfl

theorem text_eq {s s' : String} (h : SameContent (.text s) (.text s')) : s = s' := by
  cases h
  rfl

theorem elements {as bs : List Json} (h : SameContent (.array as) (.array bs)) :
    List.Forall₂ SameContent as bs := by
  cases h with
  | array h => exact h

section Fields

variable {kind kind' : String} {fields fields' : List (String × Json)}

/-- What two nodes have under one name is the same. -/
theorem field (h : SameContent (nodeData kind fields) (nodeData kind' fields')) (key : String)
    {a b : Json} (ha : Dictionary.get? key (("kind", .text kind) :: fields) = some a)
    (hb : Dictionary.get? key (("kind", .text kind') :: fields') = some b) : SameContent a b := by
  cases h with
  | object h =>
    have hkey := h key
    rw [ha, hb] at hkey
    cases hkey with
    | some h => exact h

theorem kind_eq (h : SameContent (nodeData kind fields) (nodeData kind' fields')) :
    kind = kind' := (h.field "kind" rfl rfl).text_eq

end Fields

end SameContent

end Json

open Json (SameContent)

/-! ## Kinds -/

/-- No foreign value stands in a program. -/
def Program.IsNative : Program → Prop
  | .statements ss => AllHave .native ss
  | .foreign _ _ => False

/-- No foreign value stands in a node, at any depth. -/
def Node.IsNative : Node → Prop
  | .expression e => e.isNative = true
  | .condition c => c.isNative = true
  | .statement s => s.Has .native
  | .clause c body => c.isNative = true ∧ AllHave .native body
  | .program p => p.IsNative

/-- The data of a native node are an object that tells its kind. -/
theorem Node.IsNative.exists_toJson {a : Node} (h : a.IsNative) :
    ∃ fields, a.toJson = nodeData a.kind fields := by
  cases a with
  | expression e =>
    cases e with
    | foreign kind data => cases h
    | _ => exact ⟨_, rfl⟩
  | condition c =>
    cases c with
    | foreign kind data => cases h
    | _ => exact ⟨_, rfl⟩
  | statement s =>
    cases s with
    | foreign kind data => exact h.elim
    | _ => exact ⟨_, rfl⟩
  | clause c body => exact ⟨_, rfl⟩
  | program p =>
    cases p with
    | foreign kind data => exact h.elim
    | statements ss => exact ⟨_, rfl⟩

theorem Node.kind_eq_of_sameContent {a b : Node} (ha : a.IsNative) (hb : b.IsNative)
    (h : SameContent a.toJson b.toJson) : a.kind = b.kind := by
  obtain ⟨fields, hfields⟩ := ha.exists_toJson
  obtain ⟨fields', hfields'⟩ := hb.exists_toJson
  rw [hfields, hfields'] at h
  exact h.kind_eq

/-! ## Trees -/

theorem Expression.eq_of_sameContent {e e' : Expression} (he : e.isNative = true)
    (he' : e'.isNative = true) (h : SameContent e.toJson e'.toJson) : e = e' := by
  have hkind : e.kind = e'.kind :=
    Node.kind_eq_of_sameContent (a := .expression e) (b := .expression e') he he' h
  cases e with
  | number n =>
    cases e' with
    | number n' => rw [(h.field "value" rfl rfl).int_eq]
    | foreign kind data => cases he'
    | _ => simp [Expression.kind] at hkind
  | text s =>
    cases e' with
    | text s' => rw [(h.field "value" rfl rfl).text_eq]
    | foreign kind data => cases he'
    | _ => simp [Expression.kind] at hkind
  | identifier name =>
    cases e' with
    | identifier name' => rw [(h.field "name" rfl rfl).text_eq]
    | foreign kind data => cases he'
    | _ => simp [Expression.kind] at hkind
  | binary operator left right =>
    cases e' with
    | binary operator' left' right' =>
      obtain ⟨hl, hr⟩ := Bool.and_eq_true_iff.mp he
      obtain ⟨hl', hr'⟩ := Bool.and_eq_true_iff.mp he'
      have hleft := eq_of_sameContent hl hl' (h.field "left" rfl rfl)
      have hright := eq_of_sameContent hr hr' (h.field "right" rfl rfl)
      rw [(h.field "operator" rfl rfl).text_eq, hleft, hright]
    | foreign kind data => cases he'
    | _ => simp [Expression.kind] at hkind
  | foreign kind data => cases he

theorem Condition.eq_of_sameContent {c c' : Condition} (hc : c.isNative = true)
    (hc' : c'.isNative = true) (h : SameContent c.toJson c'.toJson) : c = c' := by
  cases c with
  | compare left operator right =>
    cases c' with
    | compare left' operator' right' =>
      obtain ⟨hl, hr⟩ := Bool.and_eq_true_iff.mp hc
      obtain ⟨hl', hr'⟩ := Bool.and_eq_true_iff.mp hc'
      have hleft := Expression.eq_of_sameContent hl hl' (h.field "left" rfl rfl)
      have hright := Expression.eq_of_sameContent hr hr' (h.field "right" rfl rfl)
      rw [(h.field "operator" rfl rfl).text_eq, hleft, hright]
    | foreign kind data => cases hc'
  | foreign kind data => cases hc

mutual

theorem Statement.eq_of_sameContent {s s' : Statement} (hs : s.Has .native) (hs' : s'.Has .native)
    (h : SameContent s.toJson s'.toJson) : s = s' := by
  have hkind : s.kind = s'.kind :=
    Node.kind_eq_of_sameContent (a := .statement s) (b := .statement s') hs hs' h
  cases s with
  | declare name e =>
    cases s' with
    | declare name' e' =>
      have hvalue := Expression.eq_of_sameContent hs.2 hs'.2 (h.field "initializer" rfl rfl)
      rw [(h.field "name" rfl rfl).text_eq, hvalue]
    | foreign kind data => exact hs'.elim
    | _ => simp [Statement.kind] at hkind
  | assign name e =>
    cases s' with
    | assign name' e' =>
      have hvalue := Expression.eq_of_sameContent hs.2 hs'.2 (h.field "value" rfl rfl)
      rw [(h.field "name" rfl rfl).text_eq, hvalue]
    | foreign kind data => exact hs'.elim
    | _ => simp [Statement.kind] at hkind
  | evaluate e =>
    cases s' with
    | evaluate e' => rw [Expression.eq_of_sameContent hs hs' (h.field "expression" rfl rfl)]
    | foreign kind data => exact hs'.elim
    | _ => simp [Statement.kind] at hkind
  | print e =>
    cases s' with
    | print e' => rw [Expression.eq_of_sameContent hs hs' (h.field "value" rfl rfl)]
    | foreign kind data => exact hs'.elim
    | _ => simp [Statement.kind] at hkind
  | branch c body rest =>
    cases s' with
    | branch c' body' rest' =>
      obtain ⟨hc, hbody, hrest⟩ := hs
      obtain ⟨hc', hbody', hrest'⟩ := hs'
      have hcondition := Condition.eq_of_sameContent hc hc' (h.field "condition" rfl rfl)
      have hstatements := eq_of_forall₂_sameContent hbody hbody'
        (h.field "then_body" rfl rfl).elements
      have hotherwise := Otherwise.eq_of_sameContent hrest hrest'
        (h.field "else_if_clauses" rfl rfl).elements (h.field "else_body" rfl rfl)
      rw [hcondition, hstatements, hotherwise]
    | foreign kind data => exact hs'.elim
    | _ => simp [Statement.kind] at hkind
  | loop c body =>
    cases s' with
    | loop c' body' =>
      have hcondition := Condition.eq_of_sameContent hs.1 hs'.1 (h.field "condition" rfl rfl)
      have hstatements := eq_of_forall₂_sameContent hs.2 hs'.2 (h.field "body" rfl rfl).elements
      rw [hcondition, hstatements]
    | foreign kind data => exact hs'.elim
    | _ => simp [Statement.kind] at hkind
  | foreign kind data => exact hs.elim

/-- The continuations of a branch are told by two of its fields, the further conditions and the last
branch. -/
theorem Otherwise.eq_of_sameContent {r r' : Otherwise} (hr : r.Has .native) (hr' : r'.Has .native)
    (hclauses : List.Forall₂ SameContent r.clausesToJson r'.clausesToJson)
    (hlast : SameContent r.lastToJson r'.lastToJson) : r = r' := by
  cases r with
  | nothing =>
    cases r' with
    | nothing => rfl
    | last body' => cases hlast
    | elseIf c' body' rest' => cases hclauses
  | last body =>
    cases r' with
    | nothing => cases hlast
    | last body' => rw [eq_of_forall₂_sameContent hr hr' hlast.elements]
    | elseIf c' body' rest' => cases hclauses
  | elseIf c body rest =>
    cases r' with
    | nothing => cases hclauses
    | last body' => cases hclauses
    | elseIf c' body' rest' =>
      obtain ⟨hc, hbody, hrest⟩ := hr
      obtain ⟨hc', hbody', hrest'⟩ := hr'
      cases hclauses with
      | cons hclause hmore =>
        have hcondition := Condition.eq_of_sameContent hc hc' (hclause.field "condition" rfl rfl)
        have hstatements := eq_of_forall₂_sameContent hbody hbody'
          (hclause.field "body" rfl rfl).elements
        rw [hcondition, hstatements, Otherwise.eq_of_sameContent hrest hrest' hmore hlast]

theorem eq_of_forall₂_sameContent {ss ss' : List Statement} (hss : AllHave .native ss)
    (hss' : AllHave .native ss')
    (h : List.Forall₂ SameContent (statementsToJson ss) (statementsToJson ss')) : ss = ss' := by
  cases ss with
  | nil =>
    cases ss' with
    | nil => rfl
    | cons s' ss' => cases h
  | cons s ss =>
    cases ss' with
    | nil => cases h
    | cons s' ss' =>
      cases h with
      | cons hfirst hmore =>
        rw [Statement.eq_of_sameContent hss.1 hss'.1 hfirst,
          eq_of_forall₂_sameContent hss.2 hss'.2 hmore]

end

theorem Program.eq_of_sameContent {p p' : Program} (hp : p.IsNative) (hp' : p'.IsNative)
    (h : SameContent p.toJson p'.toJson) : p = p' := by
  cases p with
  | statements ss =>
    cases p' with
    | statements ss' =>
      rw [eq_of_forall₂_sameContent hp hp' (h.field "statements" rfl rfl).elements]
    | foreign kind data => exact hp'.elim
  | foreign kind data => exact hp.elim

/-! ## Nodes -/

/-- The sorts of nodes. -/
inductive NodeSort where
  | expression
  | condition
  | statement
  | clause
  | program
  deriving DecidableEq

/-- The names of the kinds of a sort. -/
def NodeSort.kinds : NodeSort → List String
  | expression => ["NumberLiteral", "StringLiteral", "Identifier", "BinaryExpression"]
  | condition => ["Condition"]
  | statement =>
    ["VarDeclaration", "Assignment", "ExpressionStatement", "Print", "If", "While"]
  | clause => ["ElseIfClause"]
  | program => ["Program"]

/-- No two sorts have a kind of the same name. -/
theorem NodeSort.eq_of_mem_kinds {σ τ : NodeSort} {kind : String} (hσ : kind ∈ σ.kinds)
    (hτ : kind ∈ τ.kinds) : σ = τ := by
  have hdisjoint : σ ≠ τ → ∀ k ∈ σ.kinds, k ∉ τ.kinds := by
    cases σ <;> cases τ <;> decide
  by_contra hne
  exact hdisjoint hne kind hσ hτ

/-- The sort of a node. -/
def Node.sort : Node → NodeSort
  | expression _ => .expression
  | condition _ => .condition
  | statement _ => .statement
  | clause _ _ => .clause
  | program _ => .program

theorem Node.IsNative.kind_mem {a : Node} (h : a.IsNative) : a.kind ∈ a.sort.kinds := by
  cases a with
  | expression e =>
    cases e with
    | foreign kind data => cases h
    | _ => simp [Node.kind, Expression.kind, Node.sort, NodeSort.kinds]
  | condition c =>
    cases c with
    | foreign kind data => cases h
    | compare left operator right => exact List.mem_singleton_self _
  | statement s =>
    cases s with
    | foreign kind data => exact h.elim
    | _ => simp [Node.kind, Statement.kind, Node.sort, NodeSort.kinds]
  | clause c body => exact List.mem_singleton_self _
  | program p =>
    cases p with
    | foreign kind data => exact h.elim
    | statements ss => exact List.mem_singleton_self _

/-- Two nodes without foreign values are the same just when their data hold the same. Kinds with the
same fields, a last branch without statements and none, and literals of different kinds are told
apart, wherever they stand. -/
theorem Node.eq_iff_sameContent {a b : Node} (ha : a.IsNative) (hb : b.IsNative) :
    a = b ↔ SameContent a.toJson b.toJson := by
  constructor
  · rintro rfl
    exact .refl _
  intro h
  have hkind := Node.kind_eq_of_sameContent ha hb h
  have hsort : a.sort = b.sort := NodeSort.eq_of_mem_kinds ha.kind_mem (hkind ▸ hb.kind_mem)
  cases a with
  | expression e =>
    cases b with
    | expression e' => rw [Expression.eq_of_sameContent ha hb h]
    | _ => cases hsort
  | condition c =>
    cases b with
    | condition c' => rw [Condition.eq_of_sameContent ha hb h]
    | _ => cases hsort
  | statement s =>
    cases b with
    | statement s' => rw [Statement.eq_of_sameContent ha hb h]
    | _ => cases hsort
  | clause c body =>
    cases b with
    | clause c' body' =>
      have hcondition := Condition.eq_of_sameContent ha.1 hb.1 (h.field "condition" rfl rfl)
      have hstatements := eq_of_forall₂_sameContent ha.2 hb.2 (h.field "body" rfl rfl).elements
      rw [hcondition, hstatements]
    | _ => cases hsort
  | program p =>
    cases b with
    | program p' => rw [Program.eq_of_sameContent ha hb h]
    | _ => cases hsort

/-- A branch inside a further condition inside a loop, with a continuation and a value to print. -/
def innerBranch (rest : Otherwise) (value : Expression) : Node :=
  let c : Condition := .compare (.identifier "x") "<" (.number 3)
  .program (.statements
    [.loop c [.branch c [] (.elseIf c [.branch c [.print value] rest] .nothing)]])

theorem isNative_innerBranch {rest : Otherwise} {value : Expression} (hrest : rest.Has .native)
    (hvalue : value.isNative = true) : (innerBranch rest value).IsNative :=
  ⟨⟨rfl, ⟨rfl, trivial, rfl, ⟨⟨rfl, ⟨hvalue, trivial⟩, hrest⟩, trivial⟩, trivial⟩, trivial⟩, trivial⟩

theorem Node.eq_iff_sameContent_innerBranch :
    let c : Condition := .compare (.identifier "x") "<" (.number 3)
    let missing := innerBranch .nothing (.number 1)
    let empty := innerBranch (.last []) (.number 1)
    let spelled := innerBranch .nothing (.text "1")
    missing.IsNative ∧ empty.IsNative ∧ spelled.IsNative ∧
    ¬SameContent missing.toJson empty.toJson ∧ ¬SameContent missing.toJson spelled.toJson ∧
    (Node.clause c []).IsNative ∧ (Node.statement (.loop c [])).IsNative ∧
    ¬SameContent (Node.clause c []).toJson (Node.statement (.loop c [])).toJson := by
  intro c missing empty spelled
  have hmissing : missing.IsNative := isNative_innerBranch trivial rfl
  have hlast : Otherwise.Has .native (.last []) := trivial
  have hempty : empty.IsNative := isNative_innerBranch hlast rfl
  have hspelled : spelled.IsNative := isNative_innerBranch trivial rfl
  have hclause : (Node.clause c []).IsNative := ⟨rfl, trivial⟩
  have hloop : (Node.statement (.loop c [])).IsNative := ⟨rfl, trivial⟩
  refine ⟨hmissing, hempty, hspelled, fun h => ?_, fun h => ?_, hclause, hloop, fun h => ?_⟩
  · exact absurd ((Node.eq_iff_sameContent hmissing hempty).mpr h) (by decide)
  · exact absurd ((Node.eq_iff_sameContent hmissing hspelled).mpr h) (by decide)
  · exact absurd ((Node.eq_iff_sameContent hclause hloop).mpr h) (by decide)

end Boli
