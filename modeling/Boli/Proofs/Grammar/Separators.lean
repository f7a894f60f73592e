import Boli.Proofs.Grammar.Meaning

/-!
# Separators carry no meaning

A derivation has places for separators, which may be filled or not: a semicolon behind a simple
statement and a marker before the body of a loop. Emptying all of them gives its bare form, from
which everything can be told that is said of the derivation but its text: what it means
(`Stmts.means_bare`) and whether it is innermost (`Stmts.innermost_bare`).

So two texts mean the same if they have derivations of one bare form. Deleting separators leaves a
text of the same bare form (`Stmts.exists_thinned`), and so does putting a semicolon behind a simple
statement that has none (`Stmts.exists_stopped`).
-/

set_option autoImplicit false

namespace Boli

/-- A semicolon, or the marker that may stand before the body of a loop. -/
def Token.IsSeparator (t : Token) : Prop := t.kind = .semicolon ∨ t.kind = .keyword .loopStart

instance (t : Token) : Decidable t.IsSeparator := inferInstanceAs (Decidable (_ ∨ _))

namespace Grammar

open Boli.Parser (assignOperator)

/-! ## Deleting separators -/

/-- The second sequence is what is left of the first when some of its separators are deleted. -/
inductive Thinned : List Token → List Token → Prop where
  | nil : Thinned [] []
  | keep (t : Token) {ts us : List Token} (h : Thinned ts us) : Thinned (t :: ts) (t :: us)
  | drop {t : Token} (ht : t.IsSeparator) {ts us : List Token} (h : Thinned ts us) :
    Thinned (t :: ts) us

namespace Thinned

variable {t : Token} {ts ts' us : List Token}

/-- Tokens are deleted from the two parts of a sequence one by one. -/
theorem split (h : Thinned (ts ++ ts') us) :
    ∃ u u', us = u ++ u' ∧ Thinned ts u ∧ Thinned ts' u' := by
  induction ts generalizing us with
  | nil => exact ⟨[], us, rfl, .nil, h⟩
  | cons t ts ih =>
    cases h with
    | keep _ h =>
      obtain ⟨u, u', rfl, hu, hu'⟩ := ih h
      exact ⟨t :: u, u', rfl, .keep t hu, hu'⟩
    | drop ht h =>
      obtain ⟨u, u', rfl, hu, hu'⟩ := ih h
      exact ⟨u, u', rfl, .drop ht hu, hu'⟩

/-- A token that is no separator stays. -/
theorem of_cons (ht : ¬t.IsSeparator) (h : Thinned (t :: ts) us) :
    ∃ us', us = t :: us' ∧ Thinned ts us' := by
  cases h with
  | keep _ h => exact ⟨_, rfl, h⟩
  | drop hsep _ => exact absurd hsep ht

/-- Tokens among which there is no separator stay. -/
theorem of_append (hts : ∀ t ∈ ts, ¬t.IsSeparator) (h : Thinned (ts ++ ts') us) :
    ∃ us', us = ts ++ us' ∧ Thinned ts' us' := by
  induction ts generalizing us with
  | nil => exact ⟨us, rfl, h⟩
  | cons t ts ih =>
    obtain ⟨ht, hts⟩ := List.forall_mem_cons.1 hts
    obtain ⟨_, rfl, h₁⟩ := of_cons ht h
    obtain ⟨us', rfl, h₂⟩ := ih hts h₁
    exact ⟨us', rfl, h₂⟩

/-- An optional token stays or is gone. -/
theorem of_tokens {kind : Token.Kind} {o : Option (Terminal kind)}
    (h : Thinned (Terminal.tokens o) us) :
    ∃ o' : Option (Terminal kind), us = Terminal.tokens o' := by
  cases o with
  | none =>
    cases h
    exact ⟨none, rfl⟩
  | some u =>
    cases h with
    | keep _ h =>
      cases h
      exact ⟨some u, rfl⟩
    | drop _ h =>
      cases h
      exact ⟨none, rfl⟩

/-- Of tokens without a separator and an optional token behind them, only the last can be
deleted. -/
theorem of_append_tokens {kind : Token.Kind} {o : Option (Terminal kind)}
    (hts : ∀ t ∈ ts, ¬t.IsSeparator) (h : Thinned (ts ++ Terminal.tokens o) us) :
    ∃ o' : Option (Terminal kind), us = ts ++ Terminal.tokens o' := by
  obtain ⟨_, rfl, hlast⟩ := of_append hts h
  obtain ⟨o', rfl⟩ := of_tokens hlast
  exact ⟨o', rfl⟩

/-- What begins with the end of the input does so still. -/
theorem next_eof (h : Thinned ts us) (hts : (next ts).kind = .eof) : (next us).kind = .eof := by
  cases h with
  | nil => rfl
  | keep t _ => exact hts
  | @drop t ht _ _ _ =>
    have hkind : t.kind = .eof := hts
    rw [Token.IsSeparator, hkind] at ht
    exact absurd ht (by decide)

end Thinned

/-! A token of another kind is no separator, and the parts of a statement that hold no statement
have none among their tokens. -/

theorem Terminal.not_isSeparator {kind : Token.Kind} (u : Terminal kind)
    (h : kind ≠ .semicolon ∧ kind ≠ .keyword .loopStart := by decide) : ¬u.val.IsSeparator := by
  rw [Token.IsSeparator, u.2, not_or]
  exact h

theorem Sign.not_isSeparator {operators : List String} (u : Sign operators) :
    ¬u.val.IsSeparator := by
  rw [Token.IsSeparator, u.2.1]
  decide

theorem Primary.not_isSeparator (p : Primary) : ¬p.token.IsSeparator := by
  cases p with
  | number t => exact Terminal.not_isSeparator t
  | text t => exact Terminal.not_isSeparator t
  | identifier t => exact Terminal.not_isSeparator t

theorem Expr.not_isSeparator (d : Expr) : ∀ t ∈ d.text, ¬t.IsSeparator := by
  cases d with
  | primary p => exact List.forall_mem_singleton.2 p.not_isSeparator
  | operation left sign right =>
    exact List.forall_mem_cons.2 ⟨left.not_isSeparator, List.forall_mem_cons.2
      ⟨Sign.not_isSeparator sign, List.forall_mem_singleton.2 right.not_isSeparator⟩⟩

theorem Cond.not_isSeparator (d : Cond) : ∀ t ∈ d.text, ¬t.IsSeparator :=
  List.forall_mem_cons.2 ⟨d.left.not_isSeparator, List.forall_mem_cons.2
    ⟨Sign.not_isSeparator d.sign, List.forall_mem_singleton.2 d.right.not_isSeparator⟩⟩

/-! ## The bare form of a derivation -/

mutual

/-- A statement with no separator in it. -/
def Stmt.bare : Stmt → Stmt
  | .declare start name sign value _ => .declare start name sign value none
  | .print start value _ => .print start value none
  | .assign name sign value _ => .assign name sign value none
  | .evaluate name _ => .evaluate name none
  | .branch start c body rest => .branch start c body.bare rest.bare
  | .loop start c _ body => .loop start c none body.bare

/-- A block with no separator in it. -/
def Block.bare : Block → Block
  | .braced opening body closing => .braced opening body.bare closing
  | .single s => .single s.bare

/-- What continues a branch, with no separator in it. -/
def Tail.bare : Tail → Tail
  | .nothing => .nothing
  | .last start body => .last start body.bare
  | .elseIf start c body rest => .elseIf start c body.bare rest.bare

/-- A sequence of statements with no separator in it. -/
def Stmts.bare : Stmts → Stmts
  | .nil => .nil
  | .cons s ss => .cons s.bare ss.bare

end

mutual

theorem Stmt.means_bare : ∀ (d : Stmt) (s : Statement), d.bare.Means s ↔ d.Means s
  | .declare _ _ _ _ _, _ => Iff.rfl
  | .print _ _ _, _ => Iff.rfl
  | .assign _ _ _ _, _ => Iff.rfl
  | .evaluate _ _, _ => Iff.rfl
  | .branch _ _ body rest, _ => by
    simp only [Stmt.bare, Stmt.Means, body.means_bare, rest.means_bare]
  | .loop _ _ _ body, _ => by simp only [Stmt.bare, Stmt.Means, body.means_bare]

theorem Block.means_bare : ∀ (d : Block) (ss : List Statement), d.bare.Means ss ↔ d.Means ss
  | .braced _ body _, ss => body.means_bare ss
  | .single s, _ => by simp only [Block.bare, Block.Means, s.means_bare]

theorem Tail.means_bare : ∀ (d : Tail) (o : Otherwise), d.bare.Means o ↔ d.Means o
  | .nothing, _ => Iff.rfl
  | .last _ body, _ => by simp only [Tail.bare, Tail.Means, body.means_bare]
  | .elseIf _ _ body rest, _ => by
    simp only [Tail.bare, Tail.Means, body.means_bare, rest.means_bare]

/-- Without its separators a derivation means what it means with them. -/
theorem Stmts.means_bare : ∀ (d : Stmts) (ss : List Statement), d.bare.Means ss ↔ d.Means ss
  | .nil, _ => Iff.rfl
  | .cons s ss, _ => by simp only [Stmts.bare, Stmts.Means, s.means_bare, ss.means_bare]

end

/-! Separators are no part of what says which branches end where. -/

theorem Tail.hasElse_bare (d : Tail) : d.bare.hasElse = d.hasElse := by
  cases d with
  | elseIf start c body rest => exact rest.hasElse_bare
  | _ => rfl

theorem Stmt.hasElse_bare (d : Stmt) : d.bare.hasElse = d.hasElse := by
  cases d with
  | branch start c body rest => exact rest.hasElse_bare
  | _ => rfl

mutual

theorem Stmt.endings_bare : ∀ d : Stmt, d.bare.endings = d.endings.map Stmt.bare
  | .declare _ _ _ _ _ => rfl
  | .print _ _ _ => rfl
  | .assign _ _ _ _ => rfl
  | .evaluate _ _ => rfl
  | .branch start c body rest => by
    have hrest := rest.endings_bare body.endings
    simp only [Stmt.bare, Stmt.endings, List.map_cons, body.endings_bare, hrest]
  | .loop _ _ _ body => body.endings_bare

theorem Block.endings_bare : ∀ d : Block, d.bare.endings = d.endings.map Stmt.bare
  | .braced _ _ _ => rfl
  | .single s => s.endings_bare

theorem Tail.endings_bare : ∀ (d : Tail) (before : List Stmt),
    d.bare.endings (before.map Stmt.bare) = (d.endings before).map Stmt.bare
  | .nothing, _ => rfl
  | .last _ body, _ => body.endings_bare
  | .elseIf _ _ body rest, _ => by
    simp only [Tail.bare, Tail.endings, body.endings_bare, rest.endings_bare body.endings]

end

theorem closed_map_bare {branches : List Stmt} :
    Closed (branches.map Stmt.bare) ↔ Closed branches := by
  simp only [Closed, List.forall_mem_map, Stmt.hasElse_bare]

mutual

theorem Stmt.innermost_bare : ∀ d : Stmt, d.bare.Innermost ↔ d.Innermost
  | .declare _ _ _ _ _ => Iff.rfl
  | .print _ _ _ => Iff.rfl
  | .assign _ _ _ _ => Iff.rfl
  | .evaluate _ _ => Iff.rfl
  | .branch _ _ body rest => by
    simp only [Stmt.bare, Stmt.Innermost, body.innermost_bare, body.endings_bare,
      rest.innermost_bare body.endings]
  | .loop _ _ _ body => body.innermost_bare

theorem Block.innermost_bare : ∀ d : Block, d.bare.Innermost ↔ d.Innermost
  | .braced _ body _ => body.innermost_bare
  | .single s => s.innermost_bare

theorem Tail.innermost_bare : ∀ (d : Tail) (before : List Stmt),
    d.bare.Innermost (before.map Stmt.bare) ↔ d.Innermost before
  | .nothing, _ => Iff.rfl
  | .last _ body, before => by
    simp only [Tail.bare, Tail.Innermost, closed_map_bare, body.innermost_bare]
  | .elseIf _ _ body rest, before => by
    simp only [Tail.bare, Tail.Innermost, closed_map_bare, body.innermost_bare, body.endings_bare,
      rest.innermost_bare body.endings]

/-- Separators decide nothing about which branch an ELSE_IF or ELSE belongs to. -/
theorem Stmts.innermost_bare : ∀ d : Stmts, d.bare.Innermost ↔ d.Innermost
  | .nil => Iff.rfl
  | .cons s ss => and_congr s.innermost_bare ss.innermost_bare

end

/-! ## Texts of one bare form -/

mutual

theorem Stmt.exists_thinned : ∀ (d : Stmt) {us : List Token}, Thinned d.text us →
    ∃ d' : Stmt, d'.text = us ∧ d'.bare = d.bare
  | .declare start name sign value stop, us, h => by
    obtain ⟨_, rfl, h₁⟩ := h.of_cons (Terminal.not_isSeparator start)
    obtain ⟨_, rfl, h₂⟩ := h₁.of_cons (Terminal.not_isSeparator name)
    obtain ⟨_, rfl, h₃⟩ := h₂.of_cons (Sign.not_isSeparator sign)
    obtain ⟨stop', rfl⟩ := h₃.of_append_tokens value.not_isSeparator
    exact ⟨.declare start name sign value stop', rfl, rfl⟩
  | .print start value stop, us, h => by
    obtain ⟨_, rfl, h₁⟩ := h.of_cons (Terminal.not_isSeparator start)
    obtain ⟨stop', rfl⟩ := h₁.of_append_tokens value.not_isSeparator
    exact ⟨.print start value stop', rfl, rfl⟩
  | .assign name sign value stop, us, h => by
    obtain ⟨_, rfl, h₁⟩ := h.of_cons (Terminal.not_isSeparator name)
    obtain ⟨_, rfl, h₂⟩ := h₁.of_cons (Sign.not_isSeparator sign)
    obtain ⟨stop', rfl⟩ := h₂.of_append_tokens value.not_isSeparator
    exact ⟨.assign name sign value stop', rfl, rfl⟩
  | .evaluate name stop, us, h => by
    obtain ⟨_, rfl, h₁⟩ := h.of_cons (Terminal.not_isSeparator name)
    obtain ⟨stop', rfl⟩ := h₁.of_tokens
    exact ⟨.evaluate name stop', rfl, rfl⟩
  | .branch start c body rest, us, h => by
    obtain ⟨_, rfl, h₁⟩ := h.of_cons (Terminal.not_isSeparator start)
    obtain ⟨_, rfl, h₂⟩ := h₁.of_append c.not_isSeparator
    obtain ⟨_, _, rfl, hbody, hrest⟩ := h₂.split
    obtain ⟨body', rfl, hb⟩ := body.exists_thinned hbody
    obtain ⟨rest', rfl, hr⟩ := rest.exists_thinned hrest
    exact ⟨.branch start c body' rest', rfl, by simp only [Stmt.bare, hb, hr]⟩
  | .loop start c marker body, us, h => by
    obtain ⟨_, rfl, h₁⟩ := h.of_cons (Terminal.not_isSeparator start)
    obtain ⟨_, rfl, h₂⟩ := h₁.of_append c.not_isSeparator
    obtain ⟨_, _, rfl, hmarker, hbody⟩ := h₂.split
    obtain ⟨marker', rfl⟩ := hmarker.of_tokens
    obtain ⟨body', rfl, hb⟩ := body.exists_thinned hbody
    exact ⟨.loop start c marker' body', rfl, by simp only [Stmt.bare, hb]⟩

theorem Block.exists_thinned : ∀ (d : Block) {us : List Token}, Thinned d.text us →
    ∃ d' : Block, d'.text = us ∧ d'.bare = d.bare
  | .braced opening body closing, us, h => by
    obtain ⟨_, rfl, h₁⟩ := h.of_cons (Terminal.not_isSeparator opening)
    obtain ⟨_, _, rfl, hbody, hclosing⟩ := h₁.split
    obtain ⟨_, rfl, hnil⟩ := hclosing.of_cons (Terminal.not_isSeparator closing)
    obtain ⟨body', rfl, hb⟩ := body.exists_thinned hbody
    cases hnil
    exact ⟨.braced opening body' closing, rfl, by simp only [Block.bare, hb]⟩
  | .single s, us, h => by
    obtain ⟨s', rfl, hs⟩ := s.exists_thinned h
    exact ⟨.single s', rfl, congrArg Block.single hs⟩

theorem Tail.exists_thinned : ∀ (d : Tail) {us : List Token}, Thinned d.text us →
    ∃ d' : Tail, d'.text = us ∧ d'.bare = d.bare
  | .nothing, us, h => by
    cases h
    exact ⟨.nothing, rfl, rfl⟩
  | .last start body, us, h => by
    obtain ⟨_, rfl, h₁⟩ := h.of_cons (Terminal.not_isSeparator start)
    obtain ⟨body', rfl, hb⟩ := body.exists_thinned h₁
    exact ⟨.last start body', rfl, by simp only [Tail.bare, hb]⟩
  | .elseIf start c body rest, us, h => by
    obtain ⟨_, rfl, h₁⟩ := h.of_cons (Terminal.not_isSeparator start)
    obtain ⟨_, rfl, h₂⟩ := h₁.of_append c.not_isSeparator
    obtain ⟨_, _, rfl, hbody, hrest⟩ := h₂.split
    obtain ⟨body', rfl, hb⟩ := body.exists_thinned hbody
    obtain ⟨rest', rfl, hr⟩ := rest.exists_thinned hrest
    exact ⟨.elseIf start c body' rest', rfl, by simp only [Tail.bare, hb, hr]⟩

/-- What is left of a text when separators are deleted has a derivation of the same bare form. -/
theorem Stmts.exists_thinned : ∀ (d : Stmts) {us : List Token}, Thinned d.text us →
    ∃ d' : Stmts, d'.text = us ∧ d'.bare = d.bare
  | .nil, us, h => by
    cases h
    exact ⟨.nil, rfl, rfl⟩
  | .cons s ss, us, h => by
    obtain ⟨_, _, rfl, hfirst, hrest⟩ := h.split
    obtain ⟨s', rfl, hs⟩ := s.exists_thinned hfirst
    obtain ⟨ss', rfl, hss⟩ := ss.exists_thinned hrest
    exact ⟨.cons s' ss', rfl, by simp only [Stmts.bare, hs, hss]⟩

end

/-! ## Places for a semicolon -/

/-- A place between two tokens of a text. -/
structure Gap (text : List Token) where
  /-- The text before it. -/
  before : List Token
  /-- The text behind it. -/
  behind : List Token
  append_eq : before ++ behind = text
  deriving DecidableEq

namespace Gap

variable {text inner : List Token}

/-- The text with a token put at the place. -/
def insert (g : Gap text) (t : Token) : List Token := g.before ++ t :: g.behind

/-- The place in a text of which the one that it is in is a part. -/
def within (g : Gap inner) (front back : List Token) (h : text = front ++ (inner ++ back)) :
    Gap text where
  before := front ++ g.before
  behind := g.behind ++ back
  append_eq := by rw [List.append_assoc, ← List.append_assoc g.before, g.append_eq, h]

/-- A token put at a place in a part of a text is put there in the whole text. -/
theorem eq_insert_within {g : Gap inner} {front back whole : List Token}
    {h : text = front ++ (inner ++ back)} {t : Token} (hw : whole = front ++ (g.insert t ++ back)) :
    whole = (g.within front back h).insert t := by
  rw [hw]
  simp only [insert, within, List.append_assoc, List.cons_append]

/-- The place behind a text, if there is no semicolon. -/
def ofStop (text : List Token) (stop : Option (Terminal .semicolon)) :
    List (Gap (text ++ Terminal.tokens stop)) :=
  if stop.isNone then [⟨text ++ Terminal.tokens stop, [], List.append_nil _⟩] else []

/-- A semicolon that is put there is the one that was missing. -/
theorem insert_ofStop {stop : Option (Terminal .semicolon)}
    {g : Gap (text ++ Terminal.tokens stop)} (h : g ∈ ofStop text stop) (t : Terminal .semicolon) :
    text ++ Terminal.tokens (some t) = g.insert t.val := by
  cases stop with
  | some u => exact absurd h List.not_mem_nil
  | none =>
    obtain rfl := List.mem_singleton.1 h
    exact congrArg (· ++ _) (List.append_nil text).symm

end Gap

mutual

/-- The places directly behind the declarations, assignments, prints and names by themselves in a
statement that no semicolon follows. -/
def Stmt.unstopped : (d : Stmt) → List (Gap d.text)
  | .declare start name sign value stop =>
    Gap.ofStop (start.val :: name.val :: sign.val :: value.text) stop
  | .print start value stop => Gap.ofStop (start.val :: value.text) stop
  | .assign name sign value stop => Gap.ofStop (name.val :: sign.val :: value.text) stop
  | .evaluate name stop => Gap.ofStop [name.val] stop
  | .branch start c body rest =>
    body.unstopped.map (·.within (start.val :: c.text) rest.text rfl) ++
      rest.unstopped.map (·.within (start.val :: (c.text ++ body.text)) [] (by
        simp only [List.append_nil, List.cons_append, List.append_assoc]))
  | .loop start c marker body =>
    body.unstopped.map (·.within (start.val :: (c.text ++ Terminal.tokens marker)) [] (by
      simp only [Stmt.text, List.append_nil, List.cons_append, List.append_assoc]))

/-- The places of this sort in a block. -/
def Block.unstopped : (d : Block) → List (Gap d.text)
  | .braced opening body closing =>
    body.unstopped.map (·.within [opening.val] [closing.val] rfl)
  | .single s => s.unstopped

/-- The places of this sort in what continues a branch. -/
def Tail.unstopped : (d : Tail) → List (Gap d.text)
  | .nothing => []
  | .last start body =>
    body.unstopped.map (·.within [start.val] [] (by
      simp only [Tail.text, List.append_nil, List.singleton_append]))
  | .elseIf start c body rest =>
    body.unstopped.map (·.within (start.val :: c.text) rest.text rfl) ++
      rest.unstopped.map (·.within (start.val :: (c.text ++ body.text)) [] (by
        simp only [List.append_nil, List.cons_append, List.append_assoc]))

/-- The places of this sort in a sequence of statements. -/
def Stmts.unstopped : (d : Stmts) → List (Gap d.text)
  | .nil => []
  | .cons s ss =>
    s.unstopped.map (·.within [] ss.text rfl) ++
      ss.unstopped.map (·.within s.text [] (by rw [List.append_nil]; rfl))

end

/-- The place is behind the name in the branch; the name behind the branch has its semicolon. -/
example (start : Terminal (.keyword .ifStart)) (c : Cond) (x : Terminal .identifier)
    (stop : Terminal .semicolon) :
    (Stmts.cons (.branch start c (.single (.evaluate x none)) .nothing)
      (.cons (.evaluate x (some stop)) .nil)).unstopped.map Gap.before =
        [start.val :: (c.text ++ [x.val])] := rfl

mutual

theorem Stmt.exists_stopped (t : Terminal .semicolon) : ∀ (d : Stmt) {g : Gap d.text},
    g ∈ d.unstopped → ∃ d' : Stmt, d'.text = g.insert t.val ∧ d'.bare = d.bare
  | .declare start name sign value stop, g, h =>
    ⟨.declare start name sign value (some t), Gap.insert_ofStop h t, rfl⟩
  | .print start value stop, g, h =>
    ⟨.print start value (some t), Gap.insert_ofStop h t, rfl⟩
  | .assign name sign value stop, g, h =>
    ⟨.assign name sign value (some t), Gap.insert_ofStop h t, rfl⟩
  | .evaluate name stop, g, h =>
    ⟨.evaluate name (some t), Gap.insert_ofStop h t, rfl⟩
  | .branch start c body rest, g, h => by
    rcases List.mem_append.1 h with h | h
    · obtain ⟨g, hg, rfl⟩ := List.mem_map.1 h
      obtain ⟨body', htext, hb⟩ := body.exists_stopped t hg
      refine ⟨.branch start c body' rest, ?_, by simp only [Stmt.bare, hb]⟩
      refine Gap.eq_insert_within ?_
      rw [← htext]
      rfl
    · obtain ⟨g, hg, rfl⟩ := List.mem_map.1 h
      obtain ⟨rest', htext, hr⟩ := rest.exists_stopped t hg
      refine ⟨.branch start c body rest', ?_, by simp only [Stmt.bare, hr]⟩
      refine Gap.eq_insert_within ?_
      rw [← htext]
      simp only [Stmt.text, List.cons_append, List.append_assoc, List.append_nil]
  | .loop start c marker body, g, h => by
    obtain ⟨g, hg, rfl⟩ := List.mem_map.1 h
    obtain ⟨body', htext, hb⟩ := body.exists_stopped t hg
    refine ⟨.loop start c marker body', ?_, by simp only [Stmt.bare, hb]⟩
    refine Gap.eq_insert_within ?_
    rw [← htext]
    simp only [Stmt.text, List.cons_append, List.append_assoc, List.append_nil]

theorem Block.exists_stopped (t : Terminal .semicolon) : ∀ (d : Block) {g : Gap d.text},
    g ∈ d.unstopped → ∃ d' : Block, d'.text = g.insert t.val ∧ d'.bare = d.bare
  | .braced opening body closing, g, h => by
    obtain ⟨g, hg, rfl⟩ := List.mem_map.1 h
    obtain ⟨body', htext, hb⟩ := body.exists_stopped t hg
    refine ⟨.braced opening body' closing, ?_, by simp only [Block.bare, hb]⟩
    refine Gap.eq_insert_within ?_
    rw [← htext]
    rfl
  | .single s, g, h => by
    obtain ⟨s', htext, hs⟩ := s.exists_stopped t h
    exact ⟨.single s', htext, congrArg Block.single hs⟩

theorem Tail.exists_stopped (t : Terminal .semicolon) : ∀ (d : Tail) {g : Gap d.text},
    g ∈ d.unstopped → ∃ d' : Tail, d'.text = g.insert t.val ∧ d'.bare = d.bare
  | .nothing, g, h => absurd h List.not_mem_nil
  | .last start body, g, h => by
    obtain ⟨g, hg, rfl⟩ := List.mem_map.1 h
    obtain ⟨body', htext, hb⟩ := body.exists_stopped t hg
    refine ⟨.last start body', ?_, by simp only [Tail.bare, hb]⟩
    refine Gap.eq_insert_within ?_
    rw [← htext, List.append_nil]
    rfl
  | .elseIf start c body rest, g, h => by
    rcases List.mem_append.1 h with h | h
    · obtain ⟨g, hg, rfl⟩ := List.mem_map.1 h
      obtain ⟨body', htext, hb⟩ := body.exists_stopped t hg
      refine ⟨.elseIf start c body' rest, ?_, by simp only [Tail.bare, hb]⟩
      refine Gap.eq_insert_within ?_
      rw [← htext]
      rfl
    · obtain ⟨g, hg, rfl⟩ := List.mem_map.1 h
      obtain ⟨rest', htext, hr⟩ := rest.exists_stopped t hg
      refine ⟨.elseIf start c body rest', ?_, by simp only [Tail.bare, hr]⟩
      refine Gap.eq_insert_within ?_
      rw [← htext]
      simp only [Tail.text, List.cons_append, List.append_assoc, List.append_nil]

/-- With a semicolon at one of the places for it a text has a derivation of the same bare form. -/
theorem Stmts.exists_stopped (t : Terminal .semicolon) : ∀ (d : Stmts) {g : Gap d.text},
    g ∈ d.unstopped → ∃ d' : Stmts, d'.text = g.insert t.val ∧ d'.bare = d.bare
  | .nil, g, h => absurd h List.not_mem_nil
  | .cons s ss, g, h => by
    rcases List.mem_append.1 h with h | h
    · obtain ⟨g, hg, rfl⟩ := List.mem_map.1 h
      obtain ⟨s', htext, hs⟩ := s.exists_stopped t hg
      refine ⟨.cons s' ss, ?_, by simp only [Stmts.bare, hs]⟩
      refine Gap.eq_insert_within ?_
      rw [← htext]
      rfl
    · obtain ⟨g, hg, rfl⟩ := List.mem_map.1 h
      obtain ⟨ss', htext, hss⟩ := ss.exists_stopped t hg
      refine ⟨.cons s ss', ?_, by simp only [Stmts.bare, hss]⟩
      refine Gap.eq_insert_within ?_
      rw [← htext, List.append_nil]
      rfl

end

end Grammar

end Boli
