import Boli.Cli.Arguments
import Boli.Proofs.Results

/-!
# Listings and the other arguments

The options that ask for listings have no bearing on how other arguments are read. In front of a
command line they are set besides what it says, and it says the same apart from them
(`exists_parse_cons_listing`).

What carries this is that a change of the arguments goes through the whole reading if it goes through
each option on its own (`items_change`). By the same law no option says that a command line of texts
holds surrogates (`parse_lone`).
-/

set_option autoImplicit false

namespace Boli.Cli

open Boli.Results (eq_ok_of_toOption exists_of_bind_eq_ok)

/-! ## Changes that no option depends on -/

/-- What is read so far, with a change of the arguments. -/
def Reading.change (c : Arguments → Arguments) (r : Reading) : Reading :=
  { r with arguments := c r.arguments }

/-- It is the same to change the arguments before an option is set and after it. -/
structure Independent (c : Arguments → Arguments) : Prop where
  set : ∀ (r : Reading) (flag : Flag), (r.change c).set flag = Reading.change c <$> r.set flag
  setValue : ∀ (r : Reading) (flag : Flag) (v : Option String),
    (r.change c).setValue flag v = Reading.change c <$> r.setValue flag v

section Change

variable {c : Arguments → Arguments}

theorem source_change (r : Reading) : (r.change c).source = r.source := rfl

theorem apply_change (h : Independent c) : ∀ (settings : List Setting) (r : Reading),
    (r.change c).apply settings = Reading.change c <$> r.apply settings
  | [], r => rfl
  | .plain flag :: settings, r => by
    simp only [Reading.apply, h.set, bind_map_left, map_bind, apply_change h settings]
  | .valued flag v :: settings, r => by
    simp only [Reading.apply, h.setValue, bind_map_left, map_bind, apply_change h settings]

theorem items_change (h : Independent c) : ∀ (items : List Item) (next : Next) (r : Reading),
    (r.change c).items next items = Reading.change c <$> r.items next items
  | [], next, r => by
    unfold Reading.items
    split <;> rfl
  | .option flag short attached :: rest, next, r => by
    cases next with
    | value before waiting => rfl
    | _ =>
      simp only [Reading.items, map_bind]
      refine bind_congr fun (settings, waiting) => ?_
      cases waiting with
      | some flag => exact items_change h rest _ r
      | none => simp only [apply_change h, bind_map_left, map_bind, items_change h rest]
  | .value v :: rest, next, r => by
    cases next with
    | value before flag =>
      simp only [Reading.items, apply_change h, bind_map_left, map_bind, items_change h rest]
    | _ =>
      by_cases hsource : r.source.isSome = true
      · simp only [Reading.items, source_change, hsource, if_true]
        exact items_change h rest .anything { r with surplus := true }
      · simp only [Reading.items, source_change, hsource, if_false, Bool.false_eq_true]
        exact items_change h rest .mark { r with source := some v }
  | .terminator :: rest, next, r => by
    cases next with
    | value before flag => rfl
    | mark => exact items_change h rest _ r
    | anything => exact items_change h rest _ { r with surplus := r.surplus || r.source.isSome }
  | .unknown :: rest, next, r => by
    cases next with
    | value before flag => rfl
    | _ => exact items_change h rest _ { r with surplus := true }

end Change

/-! ## Listings -/

/-- The arguments without the wish for listings. -/
def Arguments.unlisted (a : Arguments) : Arguments :=
  { a with dumpTokens := false, dumpAst := false }

/-- The arguments with the wish for listings besides what they ask for. -/
def Arguments.listed (tokens program : Bool) (a : Arguments) : Arguments :=
  { a with dumpTokens := tokens || a.dumpTokens, dumpAst := program || a.dumpAst }

theorem independent_listed (tokens program : Bool) : Independent (.listed tokens program) where
  set r flag := by
    cases flag with
    | dumpTokens => cases tokens <;> rfl
    | dumpAst => cases program <;> rfl
    | _ => rfl
  setValue r flag v := by
    cases flag <;> cases v <;> simp only [Reading.setValue] <;> (try rfl) <;> split <;> rfl

/-- An option without a value that is given first is the first that is set. -/
theorem parse_cons_listed {option : String} {tokens program : Bool} (flag : Flag)
    (hclassify : classify option = .ok (.option flag false none)) (hoption : option ≠ "--")
    (hset : Reading.set {} flag = .ok (Reading.change (.listed tokens program) {}))
    (hvalue : flag.takesValue = false) {argv : List String} {a : Arguments}
    (h : Arguments.parse argv = .ok a) :
    Arguments.parse (option :: argv) = .ok (a.listed tokens program) := by
  unfold Arguments.parse at h ⊢
  obtain ⟨items, hitems, hread⟩ := exists_of_bind_eq_ok h
  obtain ⟨r, hr, hsource⟩ := exists_of_bind_eq_ok hread
  have hsort : sort (option :: argv) = .ok (.option flag false none :: items) := by
    rw [sort, if_neg hoption, hclassify, hitems]
    rfl
  have hfirst : Reading.items {} .anything (.option flag false none :: items) =
      (Reading.change (.listed tokens program) {}).items .anything items := by
    simp only [Reading.items, settingsOf, cluster, hvalue, Reading.apply, hset, Results.ok_bind,
      Bool.false_eq_true, if_false]
  rw [hsort, Results.ok_bind, hfirst, items_change (independent_listed tokens program), hr]
  obtain ⟨_ | source, arguments, _ | _⟩ := r
  · cases hsource
  · cases hsource
  · cases hsource
    rfl
  · cases hsource

/-- The options that ask for listings. -/
def listingOptions : List String := ["--dump-tokens", "--dump-ast"]

/-- With one of these options in front of it a command line that is accepted is accepted too, and
its arguments are the same apart from the listings. -/
theorem exists_parse_cons_listing {argv : List String} {a : Arguments}
    (h : Arguments.parse argv = .ok a) : ∀ option ∈ listingOptions,
      ∃ a', Arguments.parse (option :: argv) = .ok a' ∧ a'.unlisted = a.unlisted := by
  intro option hoption
  rcases List.mem_cons.1 hoption with rfl | hoption
  · exact ⟨a.listed true false,
      parse_cons_listed .dumpTokens (eq_ok_of_toOption (by decide)) (by decide) rfl rfl h, rfl⟩
  · obtain rfl := List.mem_singleton.1 hoption
    exact ⟨a.listed false true,
      parse_cons_listed .dumpAst (eq_ok_of_toOption (by decide)) (by decide) rfl rfl h, rfl⟩

/-! ## Surrogates -/

theorem independent_lone : Independent fun a => { a with lone := none } where
  set r flag := by cases flag <;> rfl
  setValue r flag v := by
    cases flag <;> cases v <;> simp only [Reading.setValue] <;> (try rfl) <;> split <;> rfl

/-- No characters stand for surrogates in arguments that are texts. -/
theorem parse_lone {argv : List String} {a : Arguments} (h : Arguments.parse argv = .ok a) :
    a.lone = none := by
  obtain ⟨items, -, hread⟩ := exists_of_bind_eq_ok h
  obtain ⟨r, hr, hsource⟩ := exists_of_bind_eq_ok hread
  have hlone := items_change independent_lone items .anything {}
  have hstart : Reading.change (fun a => { a with lone := none }) {} = {} := rfl
  rw [hstart, hr] at hlone
  have hr : r.arguments.lone = none :=
    congrArg (fun r : Reading => r.arguments.lone) (Except.ok.inj hlone)
  split at hsource
  next source _ =>
    split at hsource
    next => cases hsource
    next =>
      cases hsource
      exact hr
  next => cases hsource

end Boli.Cli
