import Boli.Proofs.Parsing.Soundness

/-!
# The parser accepts all of the grammar

In front of any tokens that do not continue it, the text of an innermost derivation is taken as a
whole, for what the derivation means. Three units of fuel for each token of the text and one more
are enough (`accepts_statement` and its companions), and the parser provides at least that many.
-/

set_option autoImplicit false

namespace Boli.Parser

open Grammar (next Terminal Sign Primary Expr Cond Stmt Block Tail Stmts Closed NoElse Follows Ends)

variable {rest : List Token}

/-! ## Expressions and conditions -/

theorem accepts_primary (p : Primary) {e : Expression} (he : p.Means e) :
    Accepts primary [p.token] e rest := by
  refine Accepts.current ?_
  cases p with
  | number t =>
    have hkind : t.val.kind = .number := t.2
    obtain ⟨n, hn, rfl⟩ := he
    have hnumber : numberOf t.val = pure (.number n) := by rw [numberOf, hn]
    simp only [Primary.token, hkind]
    refine Accepts.advance.cons ?_
    rw [hnumber]
    exact Accepts.pure
  | text t =>
    have hkind : t.val.kind = .string := t.2
    obtain rfl := he
    simp only [Primary.token, hkind]
    exact Accepts.advance.cons Accepts.pure
  | identifier t =>
    have hkind : t.val.kind = .identifier := t.2
    obtain rfl := he
    simp only [Primary.token, hkind]
    exact Accepts.advance.cons Accepts.pure

theorem accepts_expression (d : Expr) {e : Expression} (he : d.Means e)
    (hrest : (next rest).kind ≠ .operator) : Accepts expression d.text e rest := by
  cases d with
  | primary p =>
    refine (accepts_primary p he).cons (Accepts.current_nil ?_)
    rw [if_neg fun h => hrest h.1]
    exact Accepts.pure
  | operation left sign right =>
    obtain ⟨l, r, hl, hr, rfl⟩ := he
    refine (accepts_primary left hl).cons (Accepts.current ?_)
    rw [if_pos sign.2]
    exact Accepts.advance.cons ((accepts_primary right hr).cons Accepts.pure)

theorem accepts_condition (d : Cond) {c : Condition} (hc : d.Means c) :
    Accepts condition d.text c rest := by
  obtain ⟨l, r, hl, hr, rfl⟩ := hc
  refine (accepts_primary d.left hl).cons (Accepts.current ?_)
  rw [if_pos d.sign.2]
  exact Accepts.advance.cons ((accepts_primary d.right hr).cons Accepts.pure)

/-! ## Simple statements -/

/-- An expression and its separator, at the end of a statement. -/
theorem accepts_value (d : Expr) (stop : Option (Terminal .semicolon)) {g : Expression → Statement}
    {p : Prop} {e : Expression} (he : d.Means e) (hrest : Follows p rest) :
    Accepts (do let value ← expression; let _ ← optional .semicolon; return g value)
      (d.text ++ Terminal.tokens stop) (g e) rest :=
  (accepts_expression d he (Grammar.Terminal.operator_ne_next_stop hrest)).bind
    (Accepts.optional stop hrest.semicolon).andReturn

theorem accepts_declaration {p : Prop} (start : Terminal (.keyword .var)) (name : Terminal .identifier)
    (sign : Sign [assignOperator]) (value : Expr) (stop : Option (Terminal .semicolon))
    {e : Expression} (he : value.Means e) (hrest : Follows p rest) :
    Accepts declaration (Stmt.declare start name sign value stop).text (.declare name.val.value e)
      rest :=
  (Accepts.expect start).cons <| (Accepts.expect name).cons <| (Accepts.expectValue sign).cons <|
    accepts_value value stop (g := .declare name.val.value) he hrest

theorem accepts_printing {p : Prop} (start : Terminal (.keyword .print)) (value : Expr)
    (stop : Option (Terminal .semicolon)) {e : Expression} (he : value.Means e)
    (hrest : Follows p rest) :
    Accepts printing (Stmt.print start value stop).text (.print e) rest :=
  (Accepts.expect start).cons (accepts_value value stop (g := .print) he hrest)

theorem accepts_assignment {p : Prop} (name : Terminal .identifier) (sign : Sign [assignOperator])
    (value : Expr) (stop : Option (Terminal .semicolon)) {e : Expression} (he : value.Means e)
    (hrest : Follows p rest) :
    Accepts simple (Stmt.assign name sign value stop).text (.assign name.val.value e) rest := by
  refine (Accepts.expect name).cons (Accepts.checkValue ?_)
  simp only [sign.2.1, List.mem_singleton.1 sign.2.2, decide_true, Bool.and_self, if_true]
  exact Accepts.advance.cons (accepts_value value stop (g := .assign name.val.value) he hrest)

theorem accepts_evaluation {p : Prop} (name : Terminal .identifier)
    (stop : Option (Terminal .semicolon)) (hrest : Follows p rest) :
    Accepts simple (Stmt.evaluate name stop).text (.evaluate (.identifier name.val.value)) rest := by
  refine (Accepts.expect name).cons (Accepts.test (a := false) (fun s hs => ?_) ?_)
  · have hnext : ¬(next s.rest).kind = .operator := by
      rw [hs]
      exact Grammar.Terminal.operator_ne_next_stop hrest
    rw [run_checkValue, decide_eq_false hnext, Bool.false_and]
  · exact (Accepts.optional stop hrest.semicolon).andReturn

/-! ## Statements

The induction is on the derivation. -/

theorem length_text_cond (c : Cond) : c.text.length = 3 := rfl

mutual

theorem accepts_statement : ∀ (d : Stmt) (a : Statement) (fuel : Nat) (rest : List Token),
    3 * d.text.length + 1 ≤ fuel → d.Innermost → d.Means a → Follows (Closed d.endings) rest →
    Accepts (statementUpTo .strict fuel) d.text (some a) rest
  | d, _, 0, _, hfuel, _, _, _ => absurd hfuel (Nat.not_succ_le_zero _)
  | .declare start name sign value stop, _, fuel + 1, rest, _, _, ha, hrest => by
    obtain ⟨e, he, rfl⟩ := ha
    refine Accepts.current ?_
    simp only [start.2]
    exact (accepts_declaration start name sign value stop he hrest).andReturn
  | .print start value stop, _, fuel + 1, rest, _, _, ha, hrest => by
    obtain ⟨e, he, rfl⟩ := ha
    refine Accepts.current ?_
    simp only [start.2]
    exact (accepts_printing start value stop he hrest).andReturn
  | .assign name sign value stop, _, fuel + 1, rest, _, _, ha, hrest => by
    obtain ⟨e, he, rfl⟩ := ha
    refine Accepts.current ?_
    simp only [name.2]
    exact (accepts_assignment name sign value stop he hrest).andReturn
  | .evaluate name stop, _, fuel + 1, rest, _, _, ha, hrest => by
    obtain rfl := ha
    refine Accepts.current ?_
    simp only [name.2]
    exact (accepts_evaluation name stop hrest).andReturn
  | .branch start c body tail, _, fuel + 1, rest, hfuel, hd, ha, hrest => by
    obtain ⟨c', ss, o, hc, hss, ho, rfl⟩ := ha
    simp only [Stmt.text, List.length_cons, List.length_append, length_text_cond] at hfuel
    rw [Stmt.closed_branch] at hrest
    refine Accepts.current ?_
    simp only [start.2]
    refine Accepts.andReturn ?_
    -- one unit is spent on the choice of the statement and one on the branch itself
    obtain ⟨fuel, rfl⟩ : ∃ k, fuel = k + 1 := ⟨fuel - 1, by omega⟩
    refine (Accepts.expect start).cons ((accepts_condition c hc).bind ?_)
    refine (accepts_block body ss fuel _ (by omega) hd.1 hss (Tail.follows_text hd.2 hrest)).bind ?_
    exact (accepts_otherwise tail o fuel body.endings rest (by omega) hd.2 ho hrest).andReturn
  | .loop start c marker body, _, fuel + 1, rest, hfuel, hd, ha, hrest => by
    obtain ⟨c', ss, hc, hss, rfl⟩ := ha
    simp only [Stmt.text, List.length_cons, List.length_append, length_text_cond] at hfuel
    refine Accepts.current ?_
    simp only [start.2]
    refine Accepts.andReturn ?_
    obtain ⟨fuel, rfl⟩ : ∃ k, fuel = k + 1 := ⟨fuel - 1, by omega⟩
    refine (Accepts.expect start).cons ((accepts_condition c hc).bind ?_)
    refine (Accepts.optional marker (body.kind_next_ne_loopStart rest)).bind ?_
    exact (accepts_block body ss fuel rest (by omega) hd hss hrest).andReturn

theorem accepts_block : ∀ (d : Block) (ss : List Statement) (fuel : Nat) (rest : List Token),
    3 * d.text.length + 2 ≤ fuel → d.Innermost → d.Means ss → Follows (Closed d.endings) rest →
    Accepts (blockUpTo .strict fuel) d.text ss rest
  | d, _, 0, _, hfuel, _, _, _ => absurd hfuel (Nat.not_succ_le_zero _)
  | .braced opening body closing, ss, fuel + 1, rest, hfuel, hd, hss, _ => by
    simp only [Block.text, List.length_cons, List.length_append] at hfuel
    refine Accepts.check_pos opening.2 (Accepts.advance.cons ?_)
    exact accepts_braced body ss closing fuel rest (by omega) hd hss
  | .single d, _, fuel + 1, rest, hfuel, hd, hss, hrest => by
    obtain ⟨a, ha, rfl⟩ := hss
    refine Accepts.check_neg (d.kind_next_ne rest (by decide)) ?_
    exact (accepts_statement d a fuel rest (Nat.le_of_succ_le_succ hfuel) hd ha hrest).andReturn

theorem accepts_otherwise : ∀ (d : Tail) (o : Otherwise) (fuel : Nat) (before : List Stmt)
    (rest : List Token), 3 * d.text.length + 1 ≤ fuel → d.Innermost before → d.Means o →
    Follows (d.AllClosed before) rest → Accepts (otherwiseUpTo .strict fuel) d.text o rest
  | d, _, 0, _, _, hfuel, _, _, _ => absurd hfuel (Nat.not_succ_le_zero _)
  | .nothing, _, fuel + 1, before, rest, _, _, ho, hrest => by
    obtain rfl := ho
    have hno : NoElse rest := hrest.continuation.resolve_left fun closed => nomatch closed.1
    exact Accepts.check_neg hno.1 (Accepts.check_neg hno.2 Accepts.pure)
  | .last start body, _, fuel + 1, before, rest, hfuel, hd, ho, hrest => by
    obtain ⟨ss, hss, rfl⟩ := ho
    simp only [Tail.text, List.length_cons] at hfuel
    have helse : (next ((Tail.last start body).text ++ rest)).kind ≠ .keyword .elseIf := by
      show start.val.kind ≠ _
      rw [start.2]
      nofun
    refine Accepts.check_neg helse (Accepts.check_pos start.2 (Accepts.advance.cons ?_))
    exact (accepts_block body ss fuel rest (by omega) hd.2 hss (Tail.follows_last hrest)).andReturn
  | .elseIf start c body tail, _, fuel + 1, before, rest, hfuel, hd, ho, hrest => by
    obtain ⟨c', ss, o, hc, hss, ho, rfl⟩ := ho
    simp only [Tail.text, List.length_cons, List.length_append, length_text_cond] at hfuel
    refine Accepts.check_pos start.2 (Accepts.advance.cons ((accepts_condition c hc).bind ?_))
    refine (accepts_block body ss fuel _ (by omega) hd.2.1 hss
      (Tail.follows_text hd.2.2 hrest)).bind ?_
    exact (accepts_otherwise tail o fuel body.endings rest (by omega) hd.2.2 ho hrest).andReturn

theorem accepts_braced : ∀ (d : Stmts) (ss : List Statement) (closing : Terminal .closeBrace)
    (fuel : Nat) (rest : List Token), 3 * d.text.length + 4 ≤ fuel → d.Innermost → d.Means ss →
    Accepts (bracedUpTo .strict fuel) (d.text ++ [closing.val]) ss rest
  | d, _, _, 0, _, hfuel, _, _ => absurd hfuel (Nat.not_succ_le_zero _)
  | .nil, _, closing, fuel + 1, rest, _, _, hss => by
    obtain rfl := hss
    exact Accepts.check_pos closing.2 (Accepts.advance.cons Accepts.pure)
  | .cons d ds, _, closing, fuel + 1, rest, hfuel, hd, hss => by
    obtain ⟨a, ss, ha, hss, rfl⟩ := hss
    simp only [Stmts.text, List.length_append] at hfuel
    have hpos := d.length_text_pos
    have hrest : Ends ([closing.val] ++ rest) := Grammar.ends_closeBrace closing rest
    have hfollows : Follows (Closed d.endings) (ds.text ++ [closing.val] ++ rest) := by
      rw [List.append_assoc]
      exact ds.follows_text hrest (Closed d.endings)
    have hnext {kind : Token.Kind} (hkind : kind ∉ Stmt.startKinds) :
        (next (d.text ++ (ds.text ++ [closing.val]) ++ rest)).kind ≠ kind := by
      rw [List.append_assoc]
      exact d.kind_next_ne _ hkind
    rw [Stmts.text, List.append_assoc]
    apply Accepts.check_neg (hnext (by decide))
    apply Accepts.atEnd_neg (hnext (by decide))
    refine (accepts_statement d a fuel _ (by omega) hd.1 ha hfollows).bind ?_
    exact (accepts_braced ds ss closing fuel rest (by omega) hd.2 hss).andReturn

end

/-! ## Programs -/

/-- With fuel for every token, statements are accepted up to the end of the input. -/
theorem accepts_statements (hrest : (next rest).kind = .eof) : ∀ (d : Stmts) (ss : List Statement)
    (fuel : Nat), d.text.length < fuel → d.Innermost → d.Means ss →
    Accepts (statementsUpTo .strict fuel) d.text ss rest
  | d, _, 0, hfuel, _, _ => absurd hfuel (Nat.not_lt_zero _)
  | .nil, _, fuel + 1, _, _, hss => by
    obtain rfl := hss
    exact Accepts.check_pos_nil hrest Accepts.pure
  | .cons d ds, _, fuel + 1, hfuel, hd, hss => by
    obtain ⟨a, ss, ha, hss, rfl⟩ := hss
    simp only [Stmts.text, List.length_append] at hfuel
    have hpos := d.length_text_pos
    have hfollows : Follows (Closed d.endings) (ds.text ++ rest) :=
      ds.follows_text (.inr hrest) (Closed d.endings)
    have hnext : (next (d.text ++ ds.text ++ rest)).kind ≠ .eof := by
      rw [List.append_assoc]
      exact d.kind_next_ne _ (by decide)
    apply Accepts.atEnd_neg hnext
    refine Accepts.bind (a := some a) (fun n skipped => ?_)
      (accepts_statements hrest ds ss fuel (by omega) hd.2 hss).andReturn
    have hlength : 3 * d.text.length + 1 ≤ State.fuel ⟨d.text ++ (ds.text ++ rest), n, skipped⟩ := by
      simp only [State.fuel, List.length_append]
      omega
    exact accepts_statement d a _ _ hlength hd.1 ha hfollows n skipped

theorem accepts_program (hrest : (next rest).kind = .eof) (d : Stmts) {ss : List Statement}
    (hd : d.Innermost) (hss : d.Means ss) :
    Accepts (program .strict) d.text (.statements ss) rest := by
  intro n skipped
  have hlength : d.text.length < (d.text ++ rest).length + 1 := by
    rw [List.length_append]
    omega
  exact (accepts_statements hrest d ss _ hlength hd hss).andReturn n skipped

end Boli.Parser
