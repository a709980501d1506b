import Mathlib.Data.List.Forall2
import Worksheet.Evaluation
/-!
# Postconditions of evaluations

What holds of the warnings, the errors and the results of an evaluation, whatever warnings there
were before. The rules follow the ways evaluations are put together.
-/

namespace Worksheet

/-- Every one of the results comes from one of the arguments. -/
theorem exists_of_forall₂ {R : α → β → Prop} {as : List α} {bs : List β}
    (h : List.Forall₂ R as bs) : ∀ b ∈ bs, ∃ a ∈ as, R a b := by
  induction h with
  | nil => simp
  | cons hab _ ih =>
    refine List.forall_mem_cons.2 ⟨⟨_, List.mem_cons_self, hab⟩, fun b hb => ?_⟩
    obtain ⟨a, ha, hr⟩ := ih b hb
    exact ⟨a, List.mem_cons_of_mem _ ha, hr⟩

namespace Eval

/-- Warnings go on having the property `W`, an error has the property `E`, and a result `Q`. -/
def Ensures (W : Diagnostic → Prop) (E : Error → Prop) (Q : α → Prop) (c : Eval α) : Prop :=
  ∀ before, (∀ w ∈ before, W w) →
    (∀ w ∈ (c.run.run before).2, W w) ∧
      match (c.run.run before).1 with
      | .ok a => Q a
      | .error e => E e

variable {W : Diagnostic → Prop} {E : Error → Prop}

theorem ensures_pure {Q : α → Prop} {a : α} (h : Q a) : Ensures W E Q (pure a) := by
  intro before hbefore
  exact ⟨hbefore, h⟩

theorem ensures_fail {Q : α → Prop} {code : ErrorCode} {span : Span} {details : Option String}
    (h : E ⟨code, span, details⟩) : Ensures W E Q (fail code span details) := by
  intro before hbefore
  exact ⟨hbefore, h⟩

/-- A computation goes on with the warnings of the one before it, unless that has failed. -/
theorem run_bind (c : Eval α) (f : α → Eval β) (before : List Diagnostic) :
    (c >>= f).run.run before =
      match c.run.run before with
      | (.ok a, after) => (f a).run.run after
      | (.error e, after) => (.error e, after) := by
  rw [ExceptT.run_bind, StateT.run_bind]
  rcases c.run.run before with ⟨e | a, after⟩ <;> rfl

theorem Ensures.bind {R : α → Prop} {Q : β → Prop} {c : Eval α} {f : α → Eval β}
    (hc : Ensures W E R c) (hf : ∀ a, R a → Ensures W E Q (f a)) : Ensures W E Q (c >>= f) := by
  intro before hbefore
  have h := hc before hbefore
  rw [run_bind]
  cases hresult : c.run.run before with
  | mk result after =>
    rw [hresult] at h
    cases result with
    | ok a => exact hf a h.2 after h.1
    | error e => exact h

/-- A warning is added once at most, after the others. -/
theorem ensures_warn {code : ErrorCode} {span : Span} {details : String}
    (h : W (.warning code span (code.name ++ ": " ++ details))) :
    Ensures W E (fun _ => True) (warn code span details) := by
  intro before hbefore
  refine ⟨?_, trivial⟩
  intro w hw
  change w ∈ (if before.any fun w => w.code = code ∧ w.span = span then before
    else before ++ [.warning code span (code.name ++ ": " ++ details)]) at hw
  split at hw
  · exact hbefore w hw
  · rcases List.mem_append.1 hw with hw | hw
    · exact hbefore w hw
    · rw [List.mem_singleton.1 hw]
      exact h

/-- A call moves the new warnings and the error of its body to its own place. -/
theorem run_atCall (span : Span) (body : Eval α) (before : List Diagnostic) :
    (Eval.atCall span body).run.run before =
      ((body.run.run before).1.mapError fun e => { e with span },
        (body.run.run before).2.take before.length ++
          ((body.run.run before).2.drop before.length).map fun w => { w with span }) := rfl

theorem Ensures.atCall {Q : α → Prop} {span : Span} {body : Eval α}
    (hbody : Ensures W E Q body) (hW : ∀ w, W w → W { w with span })
    (hE : ∀ e, E e → E { e with span }) : Ensures W E Q (Eval.atCall span body) := by
  intro before hbefore
  have h := hbody before hbefore
  rw [run_atCall]
  constructor
  · intro w hw
    rcases List.mem_append.1 hw with hw | hw
    · exact h.1 w (List.mem_of_mem_take hw)
    · obtain ⟨w', hw', rfl⟩ := List.mem_map.1 hw
      exact hW w' (h.1 w' (List.mem_of_mem_drop hw'))
  · have hafter := h.2
    cases hresult : (body.run.run before).1 with
    | ok a =>
      rw [hresult] at hafter
      exact hafter
    | error e =>
      rw [hresult] at hafter
      exact hE e hafter

theorem Ensures.imp {Q Q' : α → Prop} {c : Eval α} (hc : Ensures W E Q c)
    (h : ∀ a, Q a → Q' a) : Ensures W E Q' c := by
  intro before hbefore
  obtain ⟨hwarnings, houtcome⟩ := hc before hbefore
  refine ⟨hwarnings, ?_⟩
  cases hresult : (c.run.run before).1 with
  | ok a =>
    rw [hresult] at houtcome
    exact h a houtcome
  | error e =>
    rw [hresult] at houtcome
    exact houtcome

/-- There is one result for each argument, in their order. -/
theorem ensures_mapM_forall₂ {R : α → β → Prop} {f : α → Eval β} {as : List α}
    (h : ∀ a ∈ as, Ensures W E (R a) (f a)) : Ensures W E (List.Forall₂ R as) (as.mapM f) := by
  induction as with
  | nil => exact ensures_pure .nil
  | cons a as ih =>
    obtain ⟨hfirst, hothers⟩ := List.forall_mem_cons.1 h
    rw [List.mapM_cons]
    apply hfirst.bind
    intro b hb
    apply (ih hothers).bind
    intro bs hbs
    exact ensures_pure (.cons hb hbs)

theorem ensures_mapM_length {P : β → Prop} {f : α → Eval β} {as : List α}
    (h : ∀ a ∈ as, Ensures W E P (f a)) :
    Ensures W E (fun bs => bs.length = as.length ∧ ∀ b ∈ bs, P b) (as.mapM f) := by
  refine (ensures_mapM_forall₂ (R := fun _ => P) h).imp fun bs hbs => ⟨hbs.length_eq.symm, ?_⟩
  intro b hb
  obtain ⟨_, _, hP⟩ := exists_of_forall₂ hbs b hb
  exact hP

theorem ensures_mapM {P : β → Prop} {f : α → Eval β} {as : List α}
    (h : ∀ a ∈ as, Ensures W E P (f a)) : Ensures W E (fun bs => ∀ b ∈ bs, P b) (as.mapM f) :=
  (ensures_mapM_length h).imp fun _ => And.right

/-- What is ensured of a computation holds of its outcome when it starts without warnings. -/
theorem Ensures.result {Q : α → Prop} {c : Eval α} (hc : Ensures W E Q c) :
    (∀ w ∈ c.result.2, W w) ∧
      match c.result.1 with
      | .ok a => Q a
      | .error e => E e :=
  hc [] (by simp)

theorem Ensures.of_ok {Q : α → Prop} {c : Eval α} (hc : Ensures W E Q c) {a : α}
    (ha : c.result.1 = .ok a) : Q a := by
  have h := hc.result.2
  rw [ha] at h
  exact h

end Eval

end Worksheet
