import Boli.Proofs.Emission.Rendering
import Boli.Target.Catalogue

/-!
# The two policies

The comment policy always gives a text. It puts a comment line in place of a statement just when the
statement is foreign or a text that it directly holds is refused; what its bodies hold is replaced
there. The other policy gives the same text, or fails if there is a comment line in it
(`policies_differ_by_drops`).
-/

set_option autoImplicit false

namespace Boli.Rendering

open Emission

variable {t : Target}

/-- Under the comment policy a statement leaves its lines, or one comment line. -/
theorem statement_comment (ht : t.Complete) {s : Statement} (h : s.Has .writable) (σ : State) :
    statement t .comment s σ =
      .ok () (written σ
        (replaced t σ.depth (lines t σ.bindings σ.depth s) (rejected t σ.bindings s))
        (after t σ.bindings s)
        (dropsIn t σ.bindings s ++ (rejected t σ.bindings s).toList)) := by
  have hgoes : Goes t .comment (statement t .comment s) σ _ _ none :=
    (construct_goes ht s σ h).guarded
  exact hgoes

theorem emit_comment (ht : t.Complete) {ss : List Statement} (h : AllHave .writable ss) :
    emit t .comment (.statements ss) = .ok (text t ss) := by
  rw [emit, run_comment ht h]
  rfl

/-- Where emission that is to fail gives a text, nothing was dropped. -/
theorem emit_fail_eq_ok_iff (ht : t.Complete) {ss : List Statement} (h : AllHave .writable ss)
    {out : String} :
    emit t .fail (.statements ss) = .ok out ↔ allDrops t [] ss = [] ∧ out = text t ss := by
  rw [emit_fail ht h]
  cases allDrops t [] ss with
  | nil => simp only [Except.ok.injEq, true_and, eq_comm]
  | cons kind ds => simp only [reduceCtorEq, false_and]

/-- A text is given under the comment policy, and under the other one if nothing is dropped. -/
theorem emit_eq_ok_iff (ht : t.Complete) (policy : Policy) {ss : List Statement}
    (h : AllHave .writable ss) {out : String} :
    emit t policy (.statements ss) = .ok out ↔
      (policy = .fail → allDrops t [] ss = []) ∧ out = text t ss := by
  cases policy with
  | fail => simp only [emit_fail_eq_ok_iff ht h, true_implies]
  | comment =>
    simp only [emit_comment ht h, Except.ok.injEq, reduceCtorEq, false_implies, true_and, eq_comm]

theorem emit_fail_eq_unsupported_iff (ht : t.Complete) {ss : List Statement}
    (h : AllHave .writable ss) {kind : String} :
    emit t .fail (.statements ss) = .error (.unsupported kind t.name) ↔
      (allDrops t [] ss).head? = some kind := by
  rw [emit_fail ht h]
  cases allDrops t [] ss with
  | nil => simp only [reduceCtorEq, List.head?_nil]
  | cons kind' ds =>
    simp only [Except.error.injEq, Failure.unsupported.injEq, and_true, List.head?_cons,
      Option.some.injEq]

/-- Under the comment policy a statement is replaced by one comment line just when it is foreign or
a text that it directly holds is refused, and a program always has a text. Emission that is to fail
does so just when that text has a comment line in it, and otherwise gives the same text. -/
theorem policies_differ_by_drops (ht : t ∈ Target.catalogue) :
    (∀ (s : Statement) (σ : State), s.Has .writable →
      ∃ τ, statement t .comment s σ = .ok () τ ∧ τ.lines = σ.lines ++
        match rejected t σ.bindings s with
        | some kind => [⟨σ.depth, comment t kind⟩]
        | none => lines t σ.bindings σ.depth s) ∧
    ∀ ss : List Statement, AllHave .writable ss →
      ∃ out drops, run t .comment (.statements ss) = .ok (out, drops) ∧ out = text t ss ∧
        ((∃ kind, emit t .fail (.statements ss) = .error (.unsupported kind t.name)) ↔
          drops ≠ []) ∧
        ∀ out', emit t .fail (.statements ss) = .ok out' →
          emit t .comment (.statements ss) = .ok out' := by
  have hc := Target.complete_of_mem_catalogue ht
  refine ⟨fun s σ hs => ⟨_, statement_comment hc hs σ, ?_⟩, fun ss hss =>
    ⟨_, _, run_comment hc hss, rfl, ?_, ?_⟩⟩
  · rw [written]
    cases rejected t σ.bindings s with
    | some kind => rfl
    | none => rfl
  · simp only [emit_fail_eq_unsupported_iff hc hss]
    rw [← Option.isSome_iff_exists, List.isSome_head?]
  · intro out' hout
    obtain ⟨-, rfl⟩ := (emit_fail_eq_ok_iff hc hss).mp hout
    exact emit_comment hc hss

/-- A loop with a foreign statement in its body. -/
def nestedCall : List Statement :=
  [.loop (.compare (.identifier "i") "<" (.number 3))
    [.foreign "Call" .null, .print (.identifier "i")]]

/-- The loop stays, and only the foreign statement in it is replaced. -/
theorem policies_differ_by_drops_nestedCall :
    Target.python ∈ Target.catalogue ∧ AllHave .writable nestedCall ∧
      emit .python .comment (.statements nestedCall) = .ok ("def main():\n" ++
        "    while i < 3:\n        # Unsupported statement type: Call\n        print(i)\n" ++
        "\nif __name__ == \"__main__\":\n    main()\n") ∧
      ∃ kind, emit .python .fail (.statements nestedCall) = .error (.unsupported kind "py") := by
  have ht : Target.python ∈ Target.catalogue := by simp [Target.catalogue]
  have hss : AllHave .writable nestedCall :=
    ⟨⟨⟨trivial, show Text.Numeral.Writable 3 by decide⟩, trivial, trivial, trivial⟩, trivial⟩
  obtain ⟨out, drops, hrun, rfl, hfail, -⟩ := (policies_differ_by_drops ht).2 nestedCall hss
  have hdropped : run .python .comment (.statements nestedCall) = .ok (_, ["Call"]) := rfl
  obtain ⟨-, rfl⟩ := Prod.mk.inj (Except.ok.inj (hrun.symm.trans hdropped))
  refine ⟨ht, hss, ?_, hfail.mpr (List.cons_ne_nil _ _)⟩
  rw [emit, hrun]
  rfl

end Boli.Rendering
