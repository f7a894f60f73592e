import Boli.Emission

/-!
# Two runs of the emitter

Two runs are compared through a relation between their states. Where a target renders every node
the same under the bindings of related states (`Respects`) and the relation is kept by what the
emitter does to a state (`Kept`), the runs of a statement from related states go the same way and
end in related states, be it with a result or with a failure (`Kept.each_related`). One such
relation is `Alike B`: the same lines at the same depth, under bindings that `B` relates.
-/

set_option autoImplicit false

namespace Boli.Emission

variable {α β : Type} {R : State → State → Prop}

/-! ## Ends of runs -/

/-- A run that ends with a result has passed each of its steps. -/
theorem bind_eq_ok {m : Emission α} {f : α → Emission β} {σ σ' : State} {b : β}
    (h : (m >>= f) σ = .ok b σ') : ∃ a σ₁, m σ = .ok a σ₁ ∧ f a σ₁ = .ok b σ' := by
  change EStateM.bind m f σ = .ok b σ' at h
  unfold EStateM.bind at h
  cases hm : m σ with
  | ok a σ₁ =>
    rw [hm] at h
    exact ⟨a, σ₁, rfl, h⟩
  | error failure σ₁ =>
    rw [hm] at h
    cases h

theorem bind_of_ok {m : Emission α} {f : α → Emission β} {σ σ₁ : State} {a : α}
    (h : m σ = .ok a σ₁) : (m >>= f) σ = f a σ₁ := by
  show EStateM.bind m f σ = _
  rw [EStateM.bind, h]

theorem eq_of_lift_eq_ok {r : Except Failure α} {a : α} {σ τ : State} (h : lift r σ = .ok a τ) :
    r = .ok a ∧ τ = σ := by
  cases r with
  | error failure => cases h
  | ok a' =>
    cases h
    exact ⟨rfl, rfl⟩

theorem each_append (t : Target) (policy : Policy) (ss ss' : List Statement) :
    each t policy (ss ++ ss') = each t policy ss >>= fun _ => each t policy ss' := by
  induction ss with
  | nil => rfl
  | cons s ss ih =>
    rw [List.cons_append, each, each, ih]
    simp only [bind_assoc]

/-- Two runs end with the same result or the same failure, and in related states. -/
inductive Outcome (R : State → State → Prop) :
    EStateM.Result Failure State α → EStateM.Result Failure State α → Prop where
  | ok {a : α} {σ τ : State} : R σ τ → Outcome R (.ok a σ) (.ok a τ)
  | error {failure : Failure} {σ τ : State} :
    R σ τ → Outcome R (.error failure σ) (.error failure τ)

/-- From related states the runs end alike. -/
def Related (R : State → State → Prop) (m m' : Emission α) : Prop :=
  ∀ σ τ, R σ τ → Outcome R (m σ) (m' τ)

theorem Outcome.bind {m m' : Emission α} {f f' : α → Emission β} {σ τ : State}
    (hm : Outcome R (m σ) (m' τ)) (hf : ∀ a, Related R (f a) (f' a)) :
    Outcome R ((m >>= f) σ) ((m' >>= f') τ) := by
  show Outcome R (EStateM.bind m f σ) (EStateM.bind m' f' τ)
  unfold EStateM.bind
  cases h : m σ <;> cases h' : m' τ <;> rw [h, h'] at hm <;> cases hm
  case ok.ok.ok hR => exact hf _ _ _ hR
  case error.error.error hR => exact .error hR

theorem Related.bind {m m' : Emission α} {f f' : α → Emission β} (hm : Related R m m')
    (hf : ∀ a, Related R (f a) (f' a)) : Related R (m >>= f) (m' >>= f') := by
  intro σ τ h
  exact (hm σ τ h).bind hf

theorem Related.pure (a : α) : Related R (pure a) (pure a) := by
  intro σ τ h
  exact .ok h

theorem Related.lift (r : Except Failure α) : Related R (lift r) (lift r) := by
  intro σ τ h
  cases r with
  | ok a => exact .ok h
  | error failure => exact .error h

theorem Related.modify {f g : State → State} (h : ∀ σ τ, R σ τ → R (f σ) (g τ)) :
    Related R (modify f : Emission PUnit) (modify g) := by
  intro σ τ hR
  exact .ok (h σ τ hR)

/-- How a guarded run ends, by the end of the run that it guards. -/
theorem guarded_run (t : Target) (policy : Policy) (m : Emission Unit) (σ : State) :
    guarded t policy m σ =
      match m σ with
      | .ok a σ' => .ok a σ'
      | .error failure σ' =>
        match policy, failure with
        | .comment, .unsupported kind _ =>
          commentOut t kind { σ' with lines := σ.lines, depth := σ.depth }
        | _, _ => .error failure σ' := by
  show EStateM.tryCatch m _ σ = _
  unfold EStateM.tryCatch
  cases m σ with
  | ok a σ' => rfl
  | error failure σ' =>
    cases policy with
    | fail => rfl
    | comment =>
      cases failure with
      | unsupported kind target => rfl
      | template fault => rfl
      | numeral fault => rfl

/-- Where emission is to fail, failures are handed on. -/
theorem guarded_fail (t : Target) (m : Emission Unit) : guarded t .fail m = m := by
  funext σ
  rw [guarded_run]
  cases m σ with
  | ok a σ' => rfl
  | error failure σ' => rfl

/-! ## Simple statements -/

/-- A declaration records a kind and adds a line, or fails with the kind recorded. -/
theorem construct_declare (t : Target) (policy : Policy) (name : String) (e : Expression)
    (σ : State) :
    construct t policy (.declare name e) σ =
      let kind := valueKind σ.bindings e
      let b := σ.bindings.put name kind
      let text := do
        let value ← expression t b e
        (t.declaration.fillNamed
          [("type", t.typeName kind), ("name", name), ("value", value)]).mapError Failure.template
      match text with
      | .ok text =>
        .ok () { σ with lines := σ.lines ++ [⟨σ.depth, text ++ t.terminator⟩], bindings := b }
      | .error failure => .error failure { σ with bindings := b } := by
  let b := σ.bindings.put name (valueKind σ.bindings e)
  let fill (value : String) : Except Failure String := (t.declaration.fillNamed
    [("type", t.typeName (valueKind σ.bindings e)), ("name", name), ("value", value)]).mapError
      .template
  show EStateM.bind (lift (expression t b e))
      (fun value => EStateM.bind (lift (fill value)) fun text => simple t text)
      { σ with bindings := b } =
    match expression t b e >>= fill with
    | .ok text => _
    | .error failure => _
  cases expression t b e with
  | error failure => rfl
  | ok value =>
    show EStateM.bind (lift (fill value)) (fun text => simple t text) { σ with bindings := b } =
      match fill value with
      | .ok text => _
      | .error failure => _
    cases fill value with
    | error failure => rfl
    | ok text => rfl

/-- An expression as a statement adds a line or fails. -/
theorem construct_evaluate (t : Target) (policy : Policy) (e : Expression) (σ : State) :
    construct t policy (.evaluate e) σ =
      match expression t σ.bindings e with
      | .ok text => .ok () { σ with lines := σ.lines ++ [⟨σ.depth, text ++ t.terminator⟩] }
      | .error failure => .error failure σ := by
  show EStateM.bind (lift (expression t σ.bindings e)) (fun text => simple t text) σ = _
  cases expression t σ.bindings e with
  | error failure => rfl
  | ok text => rfl

/-! ## Relations that the emitter keeps -/

/-- A target renders every node the same under related bindings, and what a declaration records
keeps them related. -/
structure Respects (t : Target) (B : Bindings → Bindings → Prop) : Prop where
  expression {b b' : Bindings} : B b b' → ∀ e, expression t b e = expression t b' e
  print {b b' : Bindings} :
    B b b' → ∀ e, t.printTemplate (valueKind b e) = t.printTemplate (valueKind b' e)
  declaration {b b' : Bindings} : B b b' → ∀ e name value,
    t.declaration.fillNamed
        [("type", t.typeName (valueKind b e)), ("name", name), ("value", value)] =
      t.declaration.fillNamed
        [("type", t.typeName (valueKind b' e)), ("name", name), ("value", value)]
  put {b b' : Bindings} : B b b' → ∀ e name,
    B (b.put name (valueKind b e)) (b'.put name (valueKind b' e))

/-- Whatever is done to two states of which `R` holds, it still does, and their bindings stay
related by `B`. -/
structure Kept (B : Bindings → Bindings → Prop) (R : State → State → Prop) : Prop where
  bindings {σ τ : State} : R σ τ → B σ.bindings τ.bindings
  add {σ τ : State} : R σ τ → ∀ text,
    R { σ with lines := σ.lines ++ [⟨σ.depth, text⟩] }
      { τ with lines := τ.lines ++ [⟨τ.depth, text⟩] }
  move {σ τ : State} : R σ τ → ∀ levels,
    R { σ with depth := σ.depth + levels } { τ with depth := τ.depth + levels }
  record {σ τ : State} {b b' : Bindings} : R σ τ → B b b' →
    R { σ with bindings := b } { τ with bindings := b' }
  drop {σ τ : State} : R σ τ → ∀ kind,
    R { σ with dropped := σ.dropped ++ [kind] } { τ with dropped := τ.dropped ++ [kind] }
  /-- Lines and depths of two earlier states come back. -/
  restore {σ τ σ' τ' : State} : R σ τ → R σ' τ' →
    R { σ' with lines := σ.lines, depth := σ.depth } { τ' with lines := τ.lines, depth := τ.depth }

section Kept

variable {t : Target} {policy : Policy} {B : Bindings → Bindings → Prop}

namespace Kept

theorem line_related (hk : Kept B R) (text : String) : Related R (line text) (line text) :=
  Related.modify fun _ _ h => hk.add h text

theorem indent_related (hk : Kept B R) (levels : Int) : Related R (indent levels) (indent levels) :=
  Related.modify fun _ _ h => hk.move h levels

theorem commentOut_related (hk : Kept B R) (kind : String) :
    Related R (commentOut t kind) (commentOut t kind) :=
  (Related.modify fun _ _ h => hk.drop h kind).bind fun _ => hk.line_related _

theorem openBlock_related (hk : Kept B R) (header : String) :
    Related R (openBlock t header) (openBlock t header) :=
  (hk.line_related _).bind fun _ => hk.indent_related 1

theorem closeBlock_related (hk : Kept B R) : Related R (closeBlock t) (closeBlock t) := by
  unfold closeBlock
  cases t.blockStyle with
  | braces => exact hk.line_related _
  | colon => exact .pure ()

theorem fillIfEmpty_related (hk : Kept B R) (body : List Statement) :
    Related R (fillIfEmpty t body) (fillIfEmpty t body) := by
  unfold fillIfEmpty
  split
  · exact hk.line_related _
  · exact .pure ()

/-- Both runs of a statement are taken back, or neither is. -/
theorem guarded_related (hk : Kept B R) {m m' : Emission Unit} {σ τ : State}
    (hback : ∀ {σ' τ'}, R σ' τ' → R { σ' with lines := σ.lines, depth := σ.depth }
      { τ' with lines := τ.lines, depth := τ.depth })
    (hm : Outcome R (m σ) (m' τ)) :
    Outcome R (guarded t policy m σ) (guarded t policy m' τ) := by
  rw [guarded_run, guarded_run]
  cases hσ : m σ <;> cases hτ : m' τ <;> rw [hσ, hτ] at hm <;> cases hm
  case ok.ok.ok hR => exact .ok hR
  case error.error.error failure _ _ hR =>
    cases policy with
    | fail => exact .error hR
    | comment =>
      cases failure with
      | unsupported kind target => exact hk.commentOut_related kind _ _ (hback hR)
      | template fault => exact .error hR
      | numeral fault => exact .error hR

theorem expressionText_related (hk : Kept B R) (h : Respects t B) (e : Expression) :
    Related R (expressionText t e) (expressionText t e) := by
  intro σ τ hR
  show Outcome _ (lift (expression t σ.bindings e) σ) (lift (expression t τ.bindings e) τ)
  rw [h.expression (hk.bindings hR)]
  exact Related.lift _ σ τ hR

theorem conditionText_related (hk : Kept B R) (h : Respects t B) (c : Condition) :
    Related R (conditionText t c) (conditionText t c) := by
  intro σ τ hR
  show Outcome _ (lift (condition t σ.bindings c) σ) (lift (condition t τ.bindings c) τ)
  have hc : condition t σ.bindings c = condition t τ.bindings c := by
    cases c with
    | compare left operator right =>
      simp only [condition, h.expression (hk.bindings hR)]
    | foreign kind data => rfl
  rw [hc]
  exact Related.lift _ σ τ hR

theorem declare_related (hk : Kept B R) (h : Respects t B) (name : String) (e : Expression) :
    Related R (construct t policy (.declare name e)) (construct t policy (.declare name e)) := by
  intro σ τ hR
  -- the recorded kinds may differ, so the two runs are compared behind the step that records them
  let put (σ : State) : State :=
    { σ with bindings := σ.bindings.put name (valueKind σ.bindings e) }
  let finish (kind : ValueKind) : Emission Unit := do
    let value ← expressionText t e
    let text ← lift ((t.declaration.fillNamed
      [("type", t.typeName kind), ("name", name), ("value", value)]).mapError .template)
    simple t text
  show Outcome _ (finish (valueKind σ.bindings e) (put σ))
    (finish (valueKind τ.bindings e) (put τ))
  have hput : R (put σ) (put τ) := hk.record hR (h.put (hk.bindings hR) e name)
  refine ((hk.expressionText_related h e) _ _ hput).bind fun value => ?_
  rw [h.declaration (hk.bindings hR)]
  exact (Related.lift _).bind fun text => hk.line_related _

theorem print_related (hk : Kept B R) (h : Respects t B) (e : Expression) :
    Related R (construct t policy (.print e)) (construct t policy (.print e)) := by
  intro σ τ hR
  let finish (kind : ValueKind) : Emission Unit := do
    let template ← lift ((t.printTemplate kind).mapError .template)
    let value ← expressionText t e
    let text ← lift ((template.fillNamed [("value", value)]).mapError .template)
    simple t text
  show Outcome _ (finish (valueKind σ.bindings e) σ) (finish (valueKind τ.bindings e) τ)
  have hf : finish (valueKind σ.bindings e) = finish (valueKind τ.bindings e) := by
    simp only [finish, h.print (hk.bindings hR)]
  rw [hf]
  refine ((Related.lift _).bind fun template => ?_) σ τ hR
  refine (hk.expressionText_related h e).bind fun value => ?_
  exact (Related.lift _).bind fun text => hk.line_related _

/-- The block of a header, with what comes behind it. -/
theorem block_related (hk : Kept B R) {body : List Statement} {m : Emission Unit}
    {header : Emission String} {open' : String → String} (hh : Related R header header)
    (hb : Related R (each t policy body) (each t policy body)) (hm : Related R m m) :
    Related R
      (do openBlock t (open' (← header)); fillIfEmpty t body; each t policy body; indent (-1); m)
      (do openBlock t (open' (← header)); fillIfEmpty t body; each t policy body; indent (-1); m) :=
  hh.bind fun _ => (hk.openBlock_related _).bind fun _ => (hk.fillIfEmpty_related _).bind fun _ =>
    hb.bind fun _ => (hk.indent_related _).bind fun _ => hm

mutual

theorem construct_related (hk : Kept B R) (h : Respects t B) :
    ∀ s : Statement, Related R (construct t policy s) (construct t policy s)
  | .foreign kind data => by
    unfold construct
    exact Related.lift _
  | .declare name e => hk.declare_related h name e
  | .print e => hk.print_related h e
  | .assign name e => by
    unfold construct
    exact (hk.expressionText_related h e).bind fun _ => (Related.lift _).bind fun _ =>
      hk.line_related _
  | .evaluate e => by
    unfold construct
    exact (hk.expressionText_related h e).bind fun _ => hk.line_related _
  | .branch c body rest => by
    unfold construct
    exact hk.block_related (hk.conditionText_related h c) (hk.each_related h body)
      ((hk.continueBranch_related h rest).bind fun _ => hk.closeBlock_related)
  | .loop c body => by
    unfold construct
    exact hk.block_related (hk.conditionText_related h c) (hk.each_related h body)
      hk.closeBlock_related

theorem continueBranch_related (hk : Kept B R) (h : Respects t B) :
    ∀ r : Otherwise, Related R (continueBranch t policy r) (continueBranch t policy r)
  | .nothing => .pure ()
  | .last body => by
    unfold continueBranch
    exact (hk.openBlock_related _).bind fun _ => (hk.fillIfEmpty_related _).bind fun _ =>
      (hk.each_related h body).bind fun _ => hk.indent_related _
  | .elseIf c body rest => by
    unfold continueBranch
    exact hk.block_related (hk.conditionText_related h c) (hk.each_related h body)
      (hk.continueBranch_related h rest)

theorem statement_related (hk : Kept B R) (h : Respects t B) (s : Statement) :
    Related R (statement t policy s) (statement t policy s) := fun σ τ hR =>
  hk.guarded_related (hk.restore hR) (hk.construct_related h s σ τ hR)

/-- The runs of statements from related states go the same way. -/
theorem each_related (hk : Kept B R) (h : Respects t B) :
    ∀ ss : List Statement, Related R (each t policy ss) (each t policy ss)
  | [] => .pure ()
  | s :: ss => by
    intro σ τ hR
    exact (hk.statement_related h s σ τ hR).bind fun _ => hk.each_related h ss

end

end Kept

/-! ### States that differ in their bindings only -/

/-- States with the same lines and depth and with related bindings. -/
structure Alike (B : Bindings → Bindings → Prop) (σ τ : State) : Prop where
  lines : σ.lines = τ.lines
  depth : σ.depth = τ.depth
  bindings : B σ.bindings τ.bindings

/-- From states that a target cannot tell apart the emitter goes the same way. -/
theorem alike : Kept B (Alike B) where
  bindings h := h.bindings
  add h text := ⟨by simp only [h.lines, h.depth], h.depth, h.bindings⟩
  move h levels := ⟨h.lines, by simp only [h.depth], h.bindings⟩
  record h hb := ⟨h.lines, h.depth, hb⟩
  drop h kind := ⟨h.lines, h.depth, h.bindings⟩
  restore h h' := ⟨h.lines, h.depth, h'.bindings⟩

/-- Runs from the same lines and depth, whatever the bindings there are. -/
theorem Outcome.guarded {m m' : Emission Unit} {σ τ : State} (hl : σ.lines = τ.lines)
    (hd : σ.depth = τ.depth) (hm : Outcome (Alike B) (m σ) (m' τ)) :
    Outcome (Alike B) (guarded t policy m σ) (guarded t policy m' τ) :=
  alike.guarded_related (fun hR => ⟨hl, hd, hR.bindings⟩) hm

end Kept

/-! ## A whole program -/

/-- Where the emitter stands before the first statement of a program. -/
def start (t : Target) : State where
  lines := t.opening.map (⟨0, ·⟩)
  depth := t.bodyLevel

/-- The text of a program whose last statement the emitter has left behind. -/
def finish (t : Target) (σ : State) : String :=
  State.output t { σ with lines := σ.lines ++ t.closing.map (⟨0, ·⟩) }

/-- The text of a program is the one that its statements leave behind. -/
theorem emit_statements {t : Target} {ss : List Statement} (policy : Policy)
    (hfill : fillIfEmpty t ss = pure ()) :
    emit t policy (.statements ss) =
      match each t policy ss (start t) with
      | .ok _ σ => .ok (finish t σ)
      | .error failure _ => .error failure := by
  let close : Emission String := do
    modify fun s => { s with depth := 0 }
    frame t.closing
    return (← get).output t
  have hrun : EStateM.run (program t policy (.statements ss)) {} =
      EStateM.bind (each t policy ss) (fun _ => close) (start t) := by
    rw [program, body, hfill]
    rfl
  rw [emit, run, hrun, EStateM.bind]
  cases each t policy ss (start t) with
  | ok a σ => rfl
  | error failure σ => rfl

/-- Around one of its parts a joined text depends on the other parts only. -/
theorem exists_intercalate_eq (separator : String) (before : List String) :
    ∃ p, ∀ rest : List String,
      ∃ u, ∀ x, separator.intercalate (before ++ x :: rest) = p ++ x ++ u := by
  have htail (rest : List String) : ∃ u, ∀ x, separator.intercalate (x :: rest) = x ++ u := by
    cases rest with
    | nil => exact ⟨"", fun x => by rw [String.intercalate_singleton, String.append_empty]⟩
    | cons y rest =>
      exact ⟨separator ++ separator.intercalate (y :: rest), fun x => by
        rw [String.intercalate_cons_cons, String.append_assoc]⟩
  cases before with
  | nil =>
    refine ⟨"", fun rest => ?_⟩
    obtain ⟨u, hu⟩ := htail rest
    exact ⟨u, fun x => by rw [List.nil_append, hu, String.empty_append]⟩
  | cons b before =>
    refine ⟨separator.intercalate (b :: before) ++ separator, fun rest => ?_⟩
    obtain ⟨u, hu⟩ := htail rest
    refine ⟨u, fun x => ?_⟩
    rw [String.intercalate_append_of_ne_nil (by simp) (by simp), hu]
    simp only [String.append_assoc]

/-- Around one of its lines the text of a program depends on the other lines only. -/
theorem exists_finish_eq (t : Target) (before : List Line) :
    ∃ p, ∀ rest : List Line, ∃ u, ∀ (σ : State) (l : Line),
      σ.lines = before ++ l :: rest → finish t σ = p ++ l.render t ++ u := by
  obtain ⟨p, hp⟩ := exists_intercalate_eq "\n" (before.map (Line.render t))
  refine ⟨p, fun rest => ?_⟩
  obtain ⟨u, hu⟩ := hp ((rest ++ t.closing.map (Line.mk 0)).map (Line.render t))
  refine ⟨u ++ "\n", fun σ l hσ => ?_⟩
  rw [finish, State.output, hσ, List.append_assoc, List.map_append, List.cons_append,
    List.map_cons, hu, String.append_assoc]

end Boli.Emission
