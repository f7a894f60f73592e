import Boli.Proofs.Emission.Surface
import Boli.Proofs.Program

/-!
# Statements of brace style

A statement begins with a fixed text, or with a name and the sign behind it, and these tell what
statement it is (`opens_unique`). So statements can be read off the front of a text in which they
are laid out, up to the text behind the last one, if no statement begins there at the same depth
(`allShown_cancel`).
-/

set_option autoImplicit false

namespace Boli

open Cancellation

/-- The kinds of lines in a body. -/
inductive LineKind where
  | declare
  | assign
  | evaluate
  | print
  | branch
  | loop
  /-- The end of a function that returns something. -/
  | finish
  deriving DecidableEq

/-- The kind of line that a statement begins with. -/
def Statement.lineKind : Statement → LineKind
  | .declare _ _ => .declare
  | .assign _ _ => .assign
  | .evaluate _ => .evaluate
  | .print _ => .print
  | .branch _ _ _ => .branch
  | .loop _ _ => .loop
  | .foreign _ _ => .finish

namespace Surface

/-! ## How lines begin -/

/-- What a line begins with. -/
inductive Opening where
  /-- A name with a sign behind it. -/
  | name (kind : LineKind) (sign : String)
  /-- A fixed text, with a name or an expression behind it. -/
  | lead (kind : LineKind) (lead : String)
  deriving DecidableEq

/-- The kind of line. -/
def Opening.kind : Opening → LineKind
  | name kind _ | lead kind _ => kind

/-- Whether no text that begins with the first one is the second one with a name or an expression
behind it. -/
def clash : List Char → List Char → Bool
  | c :: cs, d :: ds => c != d || clash cs ds
  | c :: cs, [] => !begins (c :: cs)
  | [], _ => false

/-- Whether no line can begin in both ways. -/
def Opening.apart : Opening → Opening → Bool
  | name _ sign, name _ sign' => !sign.toList.isPrefixOf sign'.toList
  | lead _ text, lead _ text' => !text.toList.isPrefixOf text'.toList
  | name _ sign, lead _ text | lead _ text, name _ sign =>
    clash sign.toList (text.toList.dropWhile Char.isAlphanum)

/-- Whether a name ends at the sign behind it, or a fixed text goes on behind its letters. -/
def Opening.ended : Opening → Bool
  | name _ sign => sign.toList.head?.any fun c => !c.isAlphanum
  | lead _ text => !(text.toList.dropWhile Char.isAlphanum).isEmpty

variable (S : Surface)

/-- What a declaration begins with. -/
def declared (lead : String) : Opening :=
  if lead = "" then .name .declare S.declarationSign else .lead .declare lead

/-- All that lines begin with. -/
def openings : List Opening :=
  S.declarations.map S.declared ++ S.prints.map (.lead .print) ++
    [.name .assign " = ", .name .evaluate S.stop, .lead .branch ("if " ++ S.conditionStart),
      .lead .loop (S.loopKeyword ++ " " ++ S.conditionStart), .lead .finish "return "]

/-- The fixed texts of lines are told apart, and end the expressions in front of them. -/
structure Apart : Prop extends S.ValuesApart where
  ended : ∀ o ∈ S.openings, o.ended = true
  apart : ∀ o ∈ S.openings, ∀ o' ∈ S.openings, o = o' ∨ o.apart o' = true
  stop : S.stops S.stop.toList = true
  printEnd : S.stops (S.printEnd.toList ++ S.stop.toList) = true
  condition : S.follows (S.conditionEnd ++ " \x7b\n").toList = true
  declarationSign : S.follows S.declarationSign.toList = true
  unit : S.unit.toList.head? = some ' '

/-- A text begins in one of the ways. -/
inductive Opens : Opening → List Char → Prop where
  | name {kind : LineKind} {sign name : String} (h : Opening.name kind sign ∈ S.openings)
      (hname : IsName .empty name) (x : List Char) :
      Opens (.name kind sign) (name.toList ++ (sign.toList ++ x))
  | lead {kind : LineKind} {lead : String} {x : List Char} (h : Opening.lead kind lead ∈ S.openings)
      (hx : begins x = true) : Opens (.lead kind lead) (lead.toList ++ x)

variable {S} {r r' x x' y y' : List Char}

theorem Opens.append {o : Opening} (h : S.Opens o x) (y : List Char) : S.Opens o (x ++ y) := by
  cases h with
  | name h hname x =>
    rw [List.append_assoc, List.append_assoc]
    exact .name h hname (x ++ y)
  | lead h hx =>
    rw [List.append_assoc]
    exact .lead h (begins_append hx y)

theorem ne_of_clash {cs ds : List Char} (h : clash cs ds = true) (hx : begins x = true) :
    cs ++ y ≠ ds ++ x := by
  induction cs generalizing ds with
  | nil => cases h
  | cons c cs ih =>
    cases ds with
    | nil =>
      rintro rfl
      rw [clash, show begins (c :: cs) = true from hx] at h
      cases h
    | cons d ds =>
      intro heq
      obtain ⟨rfl, hrest⟩ := List.cons.inj heq
      rw [clash, bne_self_eq_false, Bool.false_or] at h
      exact ih h hrest

/-- A name ends where the sign behind it begins. -/
theorem not_isAlphanum_of_sign (hS : S.Apart) {kind : LineKind} {sign : String}
    (h : Opening.name kind sign ∈ S.openings) (x : List Char) :
    ∀ c ∈ (sign.toList ++ x).head?, c.isAlphanum = false := by
  have hended : sign.toList.head?.any (fun c => !c.isAlphanum) = true := hS.ended _ h
  cases hsign : sign.toList with
  | nil =>
    rw [hsign] at hended
    cases hended
  | cons d ds =>
    rw [hsign] at hended
    rintro _ ⟨rfl⟩
    simpa using hended

/-- Of the texts of two openings at the front of one text, one is at the front of the other. -/
theorem opening_cancel (hS : S.Apart) {o o' : Opening} (ho : o ∈ S.openings) (ho' : o' ∈ S.openings)
    {cs ds : List Char} (hapart : o.apart o' = !cs.isPrefixOf ds)
    (hapart' : o'.apart o = !ds.isPrefixOf cs) (h : cs ++ x = ds ++ y) : o = o' := by
  have hfront : ds <+: cs ++ x := h ▸ List.prefix_append ds y
  rcases List.prefix_or_prefix_of_prefix (List.prefix_append cs x) hfront with hp | hp
  · rcases hS.apart o ho o' ho' with heq | hno
    · exact heq
    · rw [hapart, List.isPrefixOf_iff_prefix.2 hp] at hno
      cases hno
  · rcases hS.apart o' ho' o ho with heq | hno
    · exact heq.symm
    · rw [hapart', List.isPrefixOf_iff_prefix.2 hp] at hno
      cases hno

/-- A name with a sign behind it is not read as a fixed text. -/
theorem name_ne_lead (hS : S.Apart) {kind kind' : LineKind} {sign lead name : String}
    (h : Opening.name kind sign ∈ S.openings) (h' : Opening.lead kind' lead ∈ S.openings)
    (hname : IsName .empty name) (hx : begins x = true) :
    name.toList ++ (sign.toList ++ y) ≠ lead.toList ++ x := by
  intro heq
  obtain ⟨-, -, -, -, hrun⟩ := exists_cons_of_isName hname
  have hended : lead.toList.dropWhile Char.isAlphanum ≠ [] := by
    have := hS.ended _ h'
    simpa [Opening.ended] using this
  have hapart : clash sign.toList (lead.toList.dropWhile Char.isAlphanum) = true := by
    rcases hS.apart _ h _ h' with heq | hapart
    · cases heq
    · exact hapart
  obtain ⟨-, hrest⟩ := run_split hrun (not_isAlphanum_of_sign hS h y) hended heq
  exact ne_of_clash hapart hx hrest

/-- A text begins in one way only. -/
theorem opens_unique (hS : S.Apart) {o o' : Opening} (h : S.Opens o x) (h' : S.Opens o' x) :
    o = o' := by
  generalize hx : x = x' at h'
  cases h with
  | name h hname z =>
    cases h' with
    | name h' hname' z' =>
      obtain ⟨-, hrest⟩ := name_cancel hname hname' (not_isAlphanum_of_sign hS h z)
        (not_isAlphanum_of_sign hS h' z') hx
      exact opening_cancel hS h h' rfl rfl hrest
    | lead h' hz' => exact absurd hx (name_ne_lead hS h h' hname hz')
  | lead h hz =>
    cases h' with
    | name h' hname' z' => exact absurd hx.symm (name_ne_lead hS h' h hname' hz)
    | lead h' hz' => exact opening_cancel hS h h' rfl rfl hx

/-! ## How statements are laid out -/

section Layout

variable (S)

/-- What stands in front of a line at a depth. -/
def indent (d : Nat) : List Char := (List.replicate d S.unit.toList).flatten

/-- A condition `k` behind a fixed text, a body `b`, and the closing brace with what stands behind
it. -/
def guarded (d : Nat) (lead : String) (k b z : List Char) : List Char :=
  lead.toList ++ (k ++ ((S.conditionEnd ++ " \x7b\n").toList ++ (b ++ (S.indent d ++ '\x7d' :: z))))

mutual

/-- How a statement at a depth may be laid out, behind its indentation. -/
def Shown (d : Nat) : Statement → List Char → Prop
  | .declare name e, x => IsName .empty name ∧ ∃ lead ∈ S.declarations, ∃ v, S.Value e v ∧
      x = lead.toList ++ (name.toList ++ (S.declarationSign.toList ++ (v ++ S.stop.toList)))
  | .assign name e, x => IsName .empty name ∧ ∃ v, S.Value e v ∧
      x = name.toList ++ (" = ".toList ++ (v ++ S.stop.toList))
  | .evaluate e, x => ∃ name, e = .identifier name ∧ IsName .empty name ∧
      x = name.toList ++ S.stop.toList
  | .print e, x => ∃ lead ∈ S.prints, ∃ v, S.Value e v ∧
      x = lead.toList ++ (v ++ (S.printEnd.toList ++ S.stop.toList))
  | .branch c body rest, x => ∃ k b z, S.Compared c k ∧ AllShown (d + 1) body b ∧
      RestShown d rest z ∧ x = S.guarded d ("if " ++ S.conditionStart) k b z
  | .loop c body, x => ∃ k b, S.Compared c k ∧ AllShown (d + 1) body b ∧
      x = S.guarded d (S.loopKeyword ++ " " ++ S.conditionStart) k b ['\n']
  | .foreign _ _, _ => False

/-- How what follows the body of a branch may be laid out, behind the brace that closes the body. -/
def RestShown (d : Nat) : Otherwise → List Char → Prop
  | .nothing, x => x = ['\n']
  | .last body, x => ∃ b, AllShown (d + 1) body b ∧
      x = " else \x7b\n".toList ++ (b ++ (S.indent d ++ ['\x7d', '\n']))
  | .elseIf c body rest, x => ∃ k b z, S.Compared c k ∧ AllShown (d + 1) body b ∧
      RestShown d rest z ∧ x = S.guarded d (" else if " ++ S.conditionStart) k b z

/-- How statements at a depth may be laid out. -/
def AllShown (d : Nat) : List Statement → List Char → Prop
  | [], x => x = []
  | s :: ss, x => ∃ y z, Shown d s y ∧ AllShown d ss z ∧ x = S.indent d ++ (y ++ z)

end

/-- No statement begins in front of a text at a depth. -/
def Ends (d : Nat) (r : List Char) : Prop :=
  ∀ o x, S.Opens o x → o.kind ≠ .finish → r ≠ S.indent d ++ x

end Layout

theorem opens_declared {lead name : String} (h : lead ∈ S.declarations) (hname : IsName .empty name)
    (x : List Char) :
    S.Opens (S.declared lead)
      (lead.toList ++ (name.toList ++ (S.declarationSign.toList ++ x))) := by
  have hmem : S.declared lead ∈ S.openings :=
    List.mem_append_left _ (List.mem_append_left _ (List.mem_map_of_mem h))
  unfold declared at hmem ⊢
  split
  next hempty =>
    subst hempty
    exact .name (by simpa using hmem) hname x
  next hlead =>
    obtain ⟨c, cs, hletters, -, hrun⟩ := exists_cons_of_isName hname
    rw [if_neg hlead] at hmem
    exact .lead hmem (begins_append (begins_of_run (by simp [hletters]) hrun) _)

theorem declared_inj {lead lead' : String} (h : S.declared lead = S.declared lead') :
    lead = lead' := by
  unfold declared at h
  split at h
  next hempty =>
    split at h
    next hempty' => rw [hempty, hempty']
    next => cases h
  next =>
    split at h
    next => cases h
    next =>
      cases h
      rfl

theorem lead_mem_openings {lead : String} (h : lead ∈ S.prints) :
    Opening.lead .print lead ∈ S.openings :=
  List.mem_append_left _ (List.mem_append_right _ (List.mem_map_of_mem h))

/-- A statement begins a line of its kind. -/
theorem opens_shown (hS : S.Apart) {d : Nat} {s : Statement} (h : S.Shown d s x) :
    ∃ o, o.kind = s.lineKind ∧ o.kind ≠ .finish ∧ S.Opens o x := by
  cases s with
  | declare name e =>
    obtain ⟨hname, lead, hlead, v, -, rfl⟩ := h
    have hkind : (S.declared lead).kind = .declare := by
      unfold declared
      split
      next => rfl
      next => rfl
    exact ⟨_, hkind, by simp [hkind], opens_declared hlead hname _⟩
  | assign name e =>
    obtain ⟨hname, v, -, rfl⟩ := h
    exact ⟨.name .assign " = ", rfl, nofun, .name (by simp [openings]) hname _⟩
  | evaluate e =>
    obtain ⟨name, rfl, hname, rfl⟩ := h
    rw [← List.append_nil S.stop.toList]
    exact ⟨.name .evaluate S.stop, rfl, nofun, .name (by simp [openings]) hname _⟩
  | print e =>
    obtain ⟨lead, hlead, v, hv, rfl⟩ := h
    have hbegins := begins_append (begins_value hS.toValuesApart hv)
    exact ⟨.lead .print lead, rfl, nofun, .lead (lead_mem_openings hlead) (hbegins _)⟩
  | branch c body rest =>
    obtain ⟨k, b, z, hk, -, -, rfl⟩ := h
    have hbegins := begins_append (begins_compared hS.toValuesApart hk)
    exact ⟨.lead .branch ("if " ++ S.conditionStart), rfl, nofun,
      .lead (by simp [openings]) (hbegins _)⟩
  | loop c body =>
    obtain ⟨k, b, hk, -, rfl⟩ := h
    have hbegins := begins_append (begins_compared hS.toValuesApart hk)
    exact ⟨.lead .loop (S.loopKeyword ++ " " ++ S.conditionStart), rfl, nofun,
      .lead (by simp [openings]) (hbegins _)⟩
  | foreign kind data => exact h.elim

/-! ## Reading statements back -/

theorem close_cancel {d : Nat} (h : S.indent d ++ '\x7d' :: x = S.indent d ++ '\x7d' :: x') :
    x = x' :=
  (List.cons.inj (List.append_cancel_left h)).2

/-- A body ends at a closing brace. -/
theorem ends_close (hS : S.Apart) (d : Nat) (x : List Char) :
    S.Ends (d + 1) (S.indent d ++ '\x7d' :: x) := by
  -- one level deeper a blank stands where the brace is
  intro o y _ _ h
  rw [indent, indent, List.replicate_succ', List.flatten_append, List.append_assoc,
    List.append_cancel_left_eq, List.flatten_singleton] at h
  have hhead := congrArg List.head? h
  rw [List.head?_append, hS.unit] at hhead
  cases hhead

/-- A statement does not begin where statements end. -/
theorem ne_of_ends (hS : S.Apart) {d : Nat} {s : Statement} (hr : S.Ends d r)
    (hx : S.Shown d s x) : r ≠ S.indent d ++ (x ++ y) := by
  obtain ⟨o, -, hkind, hopens⟩ := opens_shown hS hx
  exact hr o (x ++ y) (hopens.append y) hkind

theorem guarded_cancel (hS : S.Apart) {d : Nat} {lead : String} {c c' : Condition}
    {k k' b b' z z' : List Char} (hk : S.Compared c k) (hk' : S.Compared c' k')
    (h : S.guarded d lead k b z ++ r = S.guarded d lead k' b' z' ++ r') :
    c = c' ∧ b ++ (S.indent d ++ '\x7d' :: (z ++ r)) =
      b' ++ (S.indent d ++ '\x7d' :: (z' ++ r')) := by
  simp only [guarded, List.append_assoc, List.cons_append, List.append_cancel_left_eq] at h
  obtain ⟨hc, hrest⟩ := compared_cancel hS.toValuesApart hk hk' (follows_append hS.condition _)
    (follows_append hS.condition _) h
  exact ⟨hc, List.append_cancel_left hrest⟩

/-- Statements with one text behind are of one kind. -/
theorem lineKind_eq (hS : S.Apart) {d d' : Nat} {s s' : Statement} (hx : S.Shown d s x)
    (hx' : S.Shown d' s' x') (h : x ++ r = x' ++ r') : s.lineKind = s'.lineKind := by
  obtain ⟨o, hkind, -, hopens⟩ := opens_shown hS hx
  obtain ⟨o', hkind', -, hopens'⟩ := opens_shown hS hx'
  rw [← hkind, ← hkind', opens_unique hS (hopens.append r) (h ▸ hopens'.append r')]

/-- Behind an expression that ends a simple statement. -/
theorem simple_cancel (hS : S.Apart) {e e' : Expression} {v v' : List Char} (hv : S.Value e v)
    (hv' : S.Value e' v') (h : v ++ (S.stop.toList ++ r) = v' ++ (S.stop.toList ++ r')) :
    e = e' ∧ r = r' := by
  obtain ⟨he, hrest⟩ := value_cancel hS.toValuesApart hv hv' (stops_append hS.stop r)
    (stops_append hS.stop r') h
  exact ⟨he, List.append_cancel_left hrest⟩

theorem declare_cancel (hS : S.Apart) {d : Nat} {name name' : String} {e e' : Expression}
    (hx : S.Shown d (.declare name e) x) (hx' : S.Shown d (.declare name' e') x')
    (h : x ++ r = x' ++ r') : Statement.declare name e = .declare name' e' ∧ r = r' := by
  obtain ⟨hname, lead, hlead, v, hv, rfl⟩ := hx
  obtain ⟨hname', lead', hlead', v', hv', rfl⟩ := hx'
  simp only [List.append_assoc] at h
  -- a declaration may begin with its name or with a fixed text, but both begin in the same way
  have hopens' := opens_declared hlead' hname' (v' ++ (S.stop.toList ++ r'))
  rw [← h] at hopens'
  obtain rfl := declared_inj (opens_unique hS (opens_declared hlead hname _) hopens')
  have hsign (y : List Char) := not_isAlphanum_of_follows (follows_append hS.declarationSign y)
  obtain ⟨rfl, hrest⟩ := name_cancel hname hname' (hsign _) (hsign _)
    (List.append_cancel_left h)
  obtain ⟨rfl, hrest⟩ := simple_cancel hS hv hv' (List.append_cancel_left hrest)
  exact ⟨rfl, hrest⟩

theorem assign_cancel (hS : S.Apart) {d : Nat} {name name' : String} {e e' : Expression}
    (hx : S.Shown d (.assign name e) x) (hx' : S.Shown d (.assign name' e') x')
    (h : x ++ r = x' ++ r') : Statement.assign name e = .assign name' e' ∧ r = r' := by
  obtain ⟨hname, v, hv, rfl⟩ := hx
  obtain ⟨hname', v', hv', rfl⟩ := hx'
  simp only [List.append_assoc] at h
  have hmem : Opening.name .assign " = " ∈ S.openings := by simp [openings]
  have hsign := not_isAlphanum_of_sign hS hmem
  obtain ⟨rfl, hrest⟩ := name_cancel hname hname' (hsign _) (hsign _) h
  obtain ⟨rfl, hrest⟩ := simple_cancel hS hv hv' (List.append_cancel_left hrest)
  exact ⟨rfl, hrest⟩

theorem evaluate_cancel (hS : S.Apart) {d : Nat} {e e' : Expression}
    (hx : S.Shown d (.evaluate e) x) (hx' : S.Shown d (.evaluate e') x')
    (h : x ++ r = x' ++ r') : Statement.evaluate e = .evaluate e' ∧ r = r' := by
  obtain ⟨name, rfl, hname, rfl⟩ := hx
  obtain ⟨name', rfl, hname', rfl⟩ := hx'
  simp only [List.append_assoc] at h
  have hmem : Opening.name .evaluate S.stop ∈ S.openings := by simp [openings]
  have hsign := not_isAlphanum_of_sign hS hmem
  obtain ⟨rfl, hrest⟩ := name_cancel hname hname' (hsign _) (hsign _) h
  exact ⟨rfl, List.append_cancel_left hrest⟩

theorem print_cancel (hS : S.Apart) {d : Nat} {e e' : Expression}
    (hx : S.Shown d (.print e) x) (hx' : S.Shown d (.print e') x')
    (h : x ++ r = x' ++ r') : Statement.print e = .print e' ∧ r = r' := by
  obtain ⟨lead, hlead, v, hv, rfl⟩ := hx
  obtain ⟨lead', hlead', v', hv', rfl⟩ := hx'
  simp only [List.append_assoc] at h
  cases opening_cancel hS (lead_mem_openings hlead) (lead_mem_openings hlead') rfl rfl h
  have hend (y : List Char) : S.stops (S.printEnd.toList ++ (S.stop.toList ++ y)) = true := by
    rw [← List.append_assoc]
    exact stops_append hS.printEnd y
  obtain ⟨rfl, hrest⟩ := value_cancel hS.toValuesApart hv hv' (hend r) (hend r')
    (List.append_cancel_left h)
  exact ⟨rfl, List.append_cancel_left (List.append_cancel_left hrest)⟩

theorem exists_guarded_eq (d : Nat) (k b z r : List Char) :
    ∃ y, S.guarded d (" else if " ++ S.conditionStart) k b z ++ r = " else if ".toList ++ y := by
  rw [guarded, String.toList_append, List.append_assoc, List.append_assoc]
  exact ⟨_, rfl⟩

-- The induction is on the first of two trees. What a text begins with leaves one constructor for the
-- second, and a body ends where its closing brace stands.
mutual

/-- A statement is told by its text, and so is what stands behind it. -/
theorem shown_cancel (hS : S.Apart) : ∀ {s s' : Statement} {d : Nat} {x x' r r' : List Char},
    S.Shown d s x → S.Shown d s' x' → x ++ r = x' ++ r' → s = s' ∧ r = r'
  | .declare name e, s', d, x, x', r, r', hx, hx', h => by
    have hkind := lineKind_eq hS hx hx' h
    cases s' with
    | declare name' e' => exact declare_cancel hS hx hx' h
    | _ => cases hkind
  | .assign name e, s', d, x, x', r, r', hx, hx', h => by
    have hkind := lineKind_eq hS hx hx' h
    cases s' with
    | assign name' e' => exact assign_cancel hS hx hx' h
    | _ => cases hkind
  | .evaluate e, s', d, x, x', r, r', hx, hx', h => by
    have hkind := lineKind_eq hS hx hx' h
    cases s' with
    | evaluate e' => exact evaluate_cancel hS hx hx' h
    | _ => cases hkind
  | .print e, s', d, x, x', r, r', hx, hx', h => by
    have hkind := lineKind_eq hS hx hx' h
    cases s' with
    | print e' => exact print_cancel hS hx hx' h
    | _ => cases hkind
  | .branch c body rest, s', d, x, x', r, r', hx, hx', h => by
    have hkind := lineKind_eq hS hx hx' h
    cases s' with
    | branch c' body' rest' =>
      obtain ⟨k, b, z, hk, hb, hz, rfl⟩ := hx
      obtain ⟨k', b', z', hk', hb', hz', rfl⟩ := hx'
      obtain ⟨rfl, hbody⟩ := guarded_cancel hS hk hk' h
      obtain ⟨rfl, hclose⟩ := allShown_cancel hS hb hb' (ends_close hS d _) (ends_close hS d _) hbody
      obtain ⟨rfl, hrest⟩ := restShown_cancel hS hz hz' (close_cancel hclose)
      exact ⟨rfl, hrest⟩
    | _ => cases hkind
  | .loop c body, s', d, x, x', r, r', hx, hx', h => by
    have hkind := lineKind_eq hS hx hx' h
    cases s' with
    | loop c' body' =>
      obtain ⟨k, b, hk, hb, rfl⟩ := hx
      obtain ⟨k', b', hk', hb', rfl⟩ := hx'
      obtain ⟨rfl, hbody⟩ := guarded_cancel hS hk hk' h
      obtain ⟨rfl, hclose⟩ := allShown_cancel hS hb hb' (ends_close hS d _) (ends_close hS d _) hbody
      exact ⟨rfl, List.append_cancel_left (close_cancel hclose)⟩
    | _ => cases hkind
  | .foreign _ _, _, _, _, _, _, _, hx, _, _ => hx.elim

/-- What follows the body of a branch is told by its text. -/
theorem restShown_cancel (hS : S.Apart) : ∀ {o o' : Otherwise} {d : Nat} {x x' r r' : List Char},
    S.RestShown d o x → S.RestShown d o' x' → x ++ r = x' ++ r' → o = o' ∧ r = r'
  | .nothing, o', d, x, x', r, r', hx, hx', h => by
    cases hx
    cases o' with
    | nothing =>
      cases hx'
      exact ⟨rfl, List.append_cancel_left h⟩
    | last body' =>
      obtain ⟨b', -, rfl⟩ := hx'
      cases h
    | elseIf c' body' rest' =>
      obtain ⟨k', b', z', -, -, -, rfl⟩ := hx'
      obtain ⟨y, hy⟩ := exists_guarded_eq d k' b' z' r'
      rw [hy] at h
      cases h
  | .last body, o', d, x, x', r, r', hx, hx', h => by
    obtain ⟨b, hb, rfl⟩ := hx
    cases o' with
    | nothing =>
      cases hx'
      cases h
    | last body' =>
      obtain ⟨b', hb', rfl⟩ := hx'
      simp only [List.append_assoc, List.append_cancel_left_eq] at h
      obtain ⟨rfl, hclose⟩ := allShown_cancel hS hb hb' (ends_close hS d _) (ends_close hS d _) h
      exact ⟨rfl, (List.cons.inj (close_cancel hclose)).2⟩
    | elseIf c' body' rest' =>
      obtain ⟨k', b', z', -, -, -, rfl⟩ := hx'
      obtain ⟨y, hy⟩ := exists_guarded_eq d k' b' z' r'
      rw [hy, List.append_assoc] at h
      cases h
  | .elseIf c body rest, o', d, x, x', r, r', hx, hx', h => by
    obtain ⟨k, b, z, hk, hb, hz, rfl⟩ := hx
    cases o' with
    | nothing =>
      obtain ⟨y, hy⟩ := exists_guarded_eq d k b z r
      cases hx'
      rw [hy] at h
      cases h
    | last body' =>
      obtain ⟨b', -, rfl⟩ := hx'
      obtain ⟨y, hy⟩ := exists_guarded_eq d k b z r
      rw [hy, List.append_assoc] at h
      cases h
    | elseIf c' body' rest' =>
      obtain ⟨k', b', z', hk', hb', hz', rfl⟩ := hx'
      obtain ⟨rfl, hbody⟩ := guarded_cancel hS hk hk' h
      obtain ⟨rfl, hclose⟩ := allShown_cancel hS hb hb' (ends_close hS d _) (ends_close hS d _) hbody
      obtain ⟨rfl, hrest⟩ := restShown_cancel hS hz hz' (close_cancel hclose)
      exact ⟨rfl, hrest⟩

/-- Statements are told by their text, up to where no further one begins. -/
theorem allShown_cancel (hS : S.Apart) : ∀ {ss ss' : List Statement} {d : Nat}
    {x x' r r' : List Char}, S.AllShown d ss x → S.AllShown d ss' x' → S.Ends d r → S.Ends d r' →
      x ++ r = x' ++ r' → ss = ss' ∧ r = r'
  | [], [], d, x, x', r, r', hx, hx', _, _, h => by
    cases hx
    cases hx'
    exact ⟨rfl, h⟩
  | [], s' :: ss', d, x, x', r, r', hx, hx', hr, _, h => by
    cases hx
    obtain ⟨y', z', hy', -, rfl⟩ := hx'
    rw [List.append_assoc, List.append_assoc] at h
    exact absurd h (ne_of_ends hS hr hy')
  | s :: ss, [], d, x, x', r, r', hx, hx', _, hr', h => by
    cases hx'
    obtain ⟨y, z, hy, -, rfl⟩ := hx
    rw [List.append_assoc, List.append_assoc] at h
    exact absurd h.symm (ne_of_ends hS hr' hy)
  | s :: ss, s' :: ss', d, x, x', r, r', hx, hx', hr, hr', h => by
    obtain ⟨y, z, hy, hz, rfl⟩ := hx
    obtain ⟨y', z', hy', hz', rfl⟩ := hx'
    simp only [List.append_assoc, List.append_cancel_left_eq] at h
    obtain ⟨rfl, hrest⟩ := shown_cancel hS hy hy' h
    obtain ⟨rfl, hrest⟩ := allShown_cancel hS hz hz' hr hr' hrest
    exact ⟨rfl, hrest⟩

end

end Surface

end Boli
