import Worksheet.Proofs.Evaluation.Broadcast
import Worksheet.Proofs.Evaluation.Limits
import Worksheet.Proofs.Evaluation.Policies
/-!
# Warnings from before

What an evaluation warns of is added behind the warnings from before, except where one of these is
taken for its own: a warning is left out if there is one at the same span, and that may be a span of
another text. While the body of a function is evaluated its warnings are at spans of that body, and
the ones from before are at spans of the texts that call it.
-/

namespace Worksheet

namespace Eval

/-- There is a warning of a sum of different dimensions at the span. -/
def Warned (warnings : List Diagnostic) (span : Span) : Prop :=
  ∃ w ∈ warnings, w.code = .dimensionMismatch ∧ w.span = span

theorem run_warn (span : Span) (details : String) (before : List Diagnostic) :
    (Warned before span → (warn .dimensionMismatch span details).run.run before = (.ok (), before)) ∧
    (¬Warned before span → (warn .dimensionMismatch span details).run.run before =
      (.ok (), before ++ [.warning .dimensionMismatch span
        (ErrorCode.dimensionMismatch.name ++ ": " ++ details)])) := by
  have hany : (before.any fun w => w.code = .dimensionMismatch ∧ w.span = span) = true ↔
      Warned before span := by simp [Warned]
  exact ⟨fun h => congrArg (Prod.mk _) (if_pos (hany.2 h)),
    fun h => congrArg (Prod.mk _) (if_neg (mt hany.1 h))⟩

/-- All that the computation may warn of is at spans `M`. Warnings at other spans stay in front and
make no difference; the computation does not warn at all if it does not warn alone, and whatever it
warns of can be kept from it. -/
structure Framed (M : Span → Prop) (c : Eval α) : Prop where
  steady : Steady c
  frame : ∀ earlier, (∀ s, Warned earlier s → ¬M s) → ∀ before,
    c.run.run (earlier ++ before) = (c.result.1, earlier ++ (c.run.run before).2)
  silent : c.result.2 = [] → Quiet c
  covered : ∃ spans : List Span, ∀ before, (∀ s ∈ spans, Warned before s) →
    c.run.run before = (c.result.1, before)

variable {M M' : Span → Prop} {c : Eval α}

theorem Steady.run_fst (hc : Steady c) (before : List Diagnostic) :
    (c.run.run before).1 = c.result.1 := by
  obtain ⟨more, hrun, -⟩ := hc.run before
  rw [hrun]

theorem Quiet.steady (hc : Quiet c) : Steady c := by
  refine ⟨fun before => ⟨[], ?_, by simp⟩, ?_⟩
  · rw [hc before, List.append_nil]
  · cases c.result.1 with
    | ok a => exact .ok trivial
    | error e => exact .error trivial

theorem Quiet.framed (hc : Quiet c) : Framed M c where
  steady := hc.steady
  frame earlier _ before := by rw [hc, hc]
  silent _ := hc
  covered := ⟨[], fun before _ => hc before⟩

theorem Framed.mono (hc : Framed M c) (h : ∀ s, M s → M' s) : Framed M' c where
  steady := hc.steady
  frame earlier hclear := hc.frame earlier fun s hs hM => hclear s hs (h s hM)
  silent := hc.silent
  covered := hc.covered

theorem framed_warn {span : Span} {details : String} (h : M span) :
    Framed M (warn .dimensionMismatch span details) where
  steady := reports_warn trivial
  frame earlier hclear before := by
    have hwarned : Warned (earlier ++ before) span ↔ Warned before span := by
      constructor
      · rintro ⟨w, hw, hcode, hspan⟩
        rcases List.mem_append.1 hw with hw | hw
        · exact absurd h (hclear span ⟨w, hw, hcode, hspan⟩)
        · exact ⟨w, hw, hcode, hspan⟩
      · rintro ⟨w, hw, hwarned⟩
        exact ⟨w, List.mem_append_right _ hw, hwarned⟩
    by_cases hbefore : Warned before span
    · rw [(run_warn span details _).1 (hwarned.2 hbefore), (run_warn span details _).1 hbefore]
      rfl
    · rw [(run_warn span details _).2 (mt hwarned.1 hbefore),
        (run_warn span details _).2 hbefore, List.append_assoc]
      rfl
  silent hnil := nomatch hnil
  covered := ⟨[span], fun before h => (run_warn span details before).1 (h span (by simp))⟩

/-- What comes after the first part matters only for the result of that part. -/
theorem Framed.bind {f : α → Eval β} (hc : Framed M c)
    (hf : ∀ a, c.result.1 = .ok a → Framed M (f a)) : Framed M (c >>= f) := by
  have hsteady : Steady (c >>= f) := Reports.bind hc.steady fun a ha _ => (hf a ha).steady
  have hresult : (c >>= f).result.1 = c.result.1 >>= fun a => (f a).result.1 :=
    Reports.result_bind hc.steady fun a ha => ⟨_, _, (hf a ha).steady⟩
  cases hfirst : c.result.1 with
  | error e =>
    have hrun : ∀ before, (c >>= f).run.run before =
        ((c >>= f).result.1, (c.run.run before).2) := by
      intro before
      rw [hresult, run_bind, ← Prod.eta (c.run.run before), hc.steady.run_fst, hfirst]
      rfl
    obtain ⟨spans, hspans⟩ := hc.covered
    refine ⟨hsteady, fun earlier hclear before => ?_, fun hnil before => ?_, spans, ?_⟩
    · rw [hrun, hrun, hc.frame earlier hclear]
    · have hquiet := hc.silent ((congrArg Prod.snd (hrun [])).symm.trans hnil)
      rw [hrun, hquiet before]
    · intro before hbefore
      rw [hrun, hspans before hbefore]
  | ok a =>
    have ha := hf a hfirst
    have hrun : ∀ before, (c >>= f).run.run before =
        ((c >>= f).result.1, ((f a).run.run (c.run.run before).2).2) := by
      intro before
      rw [hresult, run_bind, ← Prod.eta (c.run.run before), hc.steady.run_fst, hfirst]
      exact Prod.ext (ha.steady.run_fst _) rfl
    obtain ⟨spans, hspans⟩ := hc.covered
    obtain ⟨laterSpans, hlaterSpans⟩ := ha.covered
    refine ⟨hsteady, fun earlier hclear before => ?_, fun hnil before => ?_,
      spans ++ laterSpans, fun before hbefore => ?_⟩
    · rw [hrun, hrun, hc.frame earlier hclear, ha.frame earlier hclear]
    · have hlast : ((f a).run.run c.result.2).2 = [] :=
        (congrArg Prod.snd (hrun [])).symm.trans hnil
      obtain ⟨more, hmore, -⟩ := ha.steady.run c.result.2
      rw [hmore] at hlast
      obtain ⟨hnone, rfl⟩ := List.append_eq_nil_iff.1 hlast
      have hquiet := hc.silent hnone
      rw [hnone] at hmore
      have hquietLater := ha.silent (congrArg Prod.snd hmore)
      rw [hrun, hquiet before, hquietLater before]
    · rw [hrun, hspans before fun s hs => hbefore s (List.mem_append_left _ hs),
        hlaterSpans before fun s hs => hbefore s (List.mem_append_right _ hs)]

theorem framed_mapM {f : α → Eval β} {as : List α} (hf : ∀ a ∈ as, Framed M (f a)) :
    Framed M (as.mapM f) := by
  induction as with
  | nil => exact quiet_pure.framed
  | cons a as ih =>
    obtain ⟨hfirst, hothers⟩ := List.forall_mem_cons.1 hf
    rw [List.mapM_cons]
    apply hfirst.bind
    intro b _
    exact (ih hothers).bind fun _ _ => quiet_pure.framed

/-- The warnings from before a call are none of those that it moves. -/
theorem Framed.atCall (hc : Framed M c) (span : Span) : Framed M (Eval.atCall span c) := by
  have hresult : (Eval.atCall span c).result.1 = c.result.1.mapError fun e => { e with span } := rfl
  refine ⟨hc.steady.atCall trivial, fun earlier hclear before => ?_, fun hnil before => ?_, ?_⟩
  · obtain ⟨more, hmore, -⟩ := hc.steady.run before
    rw [run_atCall, run_atCall, hc.frame earlier hclear, hresult, hmore]
    simp [List.take_append, List.drop_append, List.take_of_length_le, List.drop_of_length_le]
  · have hquiet : Quiet c := hc.silent (by simpa [Eval.result, run_atCall] using hnil)
    rw [run_atCall, hresult, hquiet before]
    simp
  · obtain ⟨spans, hspans⟩ := hc.covered
    refine ⟨spans, fun before hbefore => ?_⟩
    rw [run_atCall, hresult, hspans before hbefore]
    simp

end Eval

namespace Evaluation

open Eval

/-! ## Sums of different dimensions -/

/-- At this expression a sum or a difference of different dimensions is taken, and only warned of. -/
inductive Mixes (env : Environment) : Point → Span → Prop where
  | intro {depth : Nat} {locals : List Value} {span : Span} {op : BinaryOp} {left right : Expr}
      {v w : Value} {pairs : List (Quantity × Quantity)} {q r : Quantity}
      (policy : env.settings.mismatch = .warn) (sum : op = .add ∨ op = .sub)
      (left_eq : outcome env ⟨depth, locals, left⟩ = .ok v)
      (right_eq : outcome env ⟨depth, locals, right⟩ = .ok w)
      (pairs_eq : v.pairs? w = some pairs) (mem : (q, r) ∈ pairs)
      (apart : q.sameDimension r = false) :
      Mixes env ⟨depth, locals, .binary span op left right⟩ span

/-- Evaluation comes to such a sum at the span. -/
def MixesOnWay (env : Environment) (p : Point) (span : Span) : Prop :=
  ∃ p', Visits env p p' ∧ Mixes env p' span

variable {env : Environment} {span : Span} {M : Span → Prop} {p p' : Point}

theorem MixesOnWay.step (hstep : Step env p p') (h : MixesOnWay env p' span) :
    MixesOnWay env p span := by
  obtain ⟨last, hvisits, hmixes⟩ := h
  exact ⟨last, hvisits.head hstep, hmixes⟩

theorem addOrSub_framed {verb : String} {combine? : Quantity → Quantity → Option Quantity}
    {q r : Quantity} (hnone : combine? q r = none → q.sameDimension r = false)
    (h : env.settings.mismatch = .warn → q.sameDimension r = false → M span) :
    Framed M (addOrSub env span verb combine? q r) := by
  unfold addOrSub
  split
  · exact quiet_pure.framed
  · rename_i hcombined
    split
    · exact quiet_fail.framed
    · rename_i hpolicy
      apply (framed_warn (h hpolicy (hnone hcombined))).bind
      intro _ _
      exact quiet_pure.framed

theorem combine_framed {op : BinaryOp} {q r : Quantity}
    (h : env.settings.mismatch = .warn → op = .add ∨ op = .sub → q.sameDimension r = false →
      M span) : Framed M (combine env span op q r) := by
  cases op with
  | add =>
    refine addOrSub_framed (fun hnone => ?_) fun hpolicy => h hpolicy (.inl rfl)
    simpa [Quantity.add?] using hnone
  | sub =>
    refine addOrSub_framed (fun hnone => ?_) fun hpolicy => h hpolicy (.inr rfl)
    simpa [Quantity.sub?] using hnone
  | mul => exact (orOverflow_quiet _).framed
  | div => exact (divide_quiet q r).framed
  | exp => exact (raise_quiet q r).framed

theorem broadcast_framed {f : Quantity → Quantity → Eval Quantity} {v w : Value}
    (h : ∀ pairs, v.pairs? w = some pairs → ∀ q r, (q, r) ∈ pairs → Framed M (f q r)) :
    Framed M (broadcast span f v w) := by
  cases v with
  | scalar q =>
    cases w with
    | scalar r => exact (h _ rfl q r (by simp)).bind fun _ _ => quiet_pure.framed
    | array rs =>
      refine (framed_mapM fun r hr => ?_).bind fun ps _ => (arrayOf_quiet ps).framed
      exact h _ rfl q r (List.mem_map.2 ⟨r, hr, rfl⟩)
  | array qs =>
    cases w with
    | scalar r =>
      refine (framed_mapM fun q hq => ?_).bind fun ps _ => (arrayOf_quiet ps).framed
      exact h _ rfl q r (List.mem_map.2 ⟨q, hq, rfl⟩)
    | array rs =>
      change Framed M (if qs.length = rs.length then _ else _)
      split
      · rename_i hlength
        refine (framed_mapM fun pair hpair => ?_).bind fun ps _ => (arrayOf_quiet ps).framed
        exact h _ (if_pos hlength) pair.1 pair.2 hpair
      · exact quiet_fail.framed

/-! ## Expressions -/

/-- Evaluation comes to such a sum at the span, in one of the expressions. -/
def MixesOnWays (env : Environment) (depth : Nat) (locals : List Value) (es : List Expr)
    (span : Span) : Prop :=
  ∃ e ∈ es, MixesOnWay env ⟨depth, locals, e⟩ span

/-- Bodies of functions are framed one call further down. -/
def BodiesFramed (env : Environment) (depth : Nat) : Prop :=
  ∀ depth', depth = depth' + 1 → ∀ e locals,
    Framed (MixesOnWay env ⟨depth', locals, e⟩) (valueAt env depth' e locals)

variable {depth : Nat} {locals : List Value}

theorem outcome_eq (e : Expr) :
    outcome env ⟨depth, locals, e⟩ = (value env (enterAt env depth) locals e).result.1 := by
  rw [outcome, valueAt_eq]

/-- A call of a function that is bound under a name. -/
theorem callUser_framed (hbodies : BodiesFramed env depth) {name : Name} {callee : Callee}
    {id? : Option SymbolId} (hcallee : callee.bound? = some id?) {args : List Expr}
    (hbody : ∀ p', Step env ⟨depth, locals, .call span name callee args⟩ p' → p'.depth < depth →
      ∀ s, MixesOnWay env p' s → M s)
    (hargs : Framed M (values env (enterAt env depth) locals args)) :
    Framed M (do
      let f ← userFunction env span name id?
      let body ← enterFunction (enterAt env depth) span f args.length
      body (← values env (enterAt env depth) locals args)) := by
  apply (userFunction_quiet name id?).framed.bind
  intro f hf
  unfold enterFunction
  split
  · exact quiet_fail.framed
  · rename_i harity
    cases depth with
    | zero => exact quiet_fail.framed
    | succ depth' =>
      apply hargs.bind
      intro vs hvs
      have hstep := Step.body hcallee hf (Decidable.not_not.1 harity) hvs
      apply ((hbodies depth' rfl f.body vs).atCall span).mono
      exact hbody _ hstep (Nat.lt_succ_self depth')

mutual

theorem value_framed (hbodies : BodiesFramed env depth) : ∀ e : Expr,
    Framed (MixesOnWay env ⟨depth, locals, e⟩) (value env (enterAt env depth) locals e)
  | .const span _ x => by
    rw [value]
    exact (finite_quiet _).framed
  | .var span name binding => by
    rw [value]
    exact (named_quiet locals name binding).framed
  | .unit span text => by
    rw [value]
    exact (unitQuantity_quiet text).framed.bind fun _ _ => quiet_pure.framed
  | .array span elements => by
    rw [value]
    have hdown : ∀ s, MixesOnWays env depth locals elements s →
        MixesOnWay env ⟨depth, locals, .array span elements⟩ s :=
      fun s ⟨e, he, hs⟩ => hs.step (.down he)
    apply ((scalars_framed hbodies elements).mono hdown).bind
    intro qs _
    split
    · exact quiet_pure.framed
    · exact quiet_fail.framed
  | .index span base position => by
    rw [value]
    have hdown : ∀ c ∈ [base, position], ∀ s, MixesOnWay env ⟨depth, locals, c⟩ s →
        MixesOnWay env ⟨depth, locals, .index span base position⟩ s :=
      fun c hc s hs => hs.step (.down hc)
    apply ((value_framed hbodies base).mono (hdown base (by simp))).bind
    intro b _
    apply ((value_framed hbodies position).mono (hdown position (by simp))).bind
    intro i _
    exact (element_quiet b i).framed
  | .signed span sign operand => by
    rw [value]
    have hc : operand ∈ (Expr.signed span sign operand).children := List.mem_singleton_self _
    apply ((value_framed hbodies operand).mono fun s hs => hs.step (.down hc)).bind
    intro v _
    cases sign with
    | positive => exact quiet_pure.framed
    | negative => exact quiet_pure.framed
  | .binary span op left right => by
    rw [value]
    have hdown : ∀ c ∈ [left, right], ∀ s, MixesOnWay env ⟨depth, locals, c⟩ s →
        MixesOnWay env ⟨depth, locals, .binary span op left right⟩ s :=
      fun c hc s hs => hs.step (.down hc)
    apply ((value_framed hbodies left).mono (hdown left (by simp))).bind
    intro l hl
    apply ((value_framed hbodies right).mono (hdown right (by simp))).bind
    intro r hr
    rw [← outcome_eq] at hl hr
    refine Framed.bind (broadcast_framed fun pairs hpairs x y hmem => ?_) fun v _ =>
      (finite_quiet v).framed
    apply combine_framed
    intro hpolicy hsum hapart
    exact ⟨_, .refl, .intro hpolicy hsum hl hr hpairs hmem hapart⟩
  | .group span inner => by
    rw [value]
    have hc : inner ∈ (Expr.group span inner).children := List.mem_singleton_self _
    exact (value_framed hbodies inner).mono fun s hs => hs.step (.down hc)
  | .call span name callee args => by
    have hargs : Framed (MixesOnWay env ⟨depth, locals, .call span name callee args⟩)
        (values env (enterAt env depth) locals args) :=
      (values_framed hbodies args).mono fun s ⟨e, he, hs⟩ => hs.step (.down he)
    cases callee with
    | builtin b =>
      rw [value]
      split
      · apply hargs.bind
        intro vs _
        exact (applyBuiltin_quiet b vs).framed.bind fun v _ => (finite_quiet v).framed
      · exact quiet_fail.framed
    | user id =>
      rw [value]
      exact callUser_framed hbodies rfl (fun p' hstep _ s hs => hs.step hstep) hargs
    | unresolved =>
      rw [value]
      exact callUser_framed hbodies rfl (fun p' hstep _ s hs => hs.step hstep) hargs

theorem values_framed (hbodies : BodiesFramed env depth) : ∀ es : List Expr,
    Framed (MixesOnWays env depth locals es) (values env (enterAt env depth) locals es)
  | [] => by
    rw [values]
    exact quiet_pure.framed
  | e :: es => by
    rw [values]
    apply ((value_framed hbodies e).mono fun s hs => ⟨e, List.mem_cons_self, hs⟩).bind
    intro v _
    have hothers := (values_framed hbodies es).mono fun s ⟨e', he', hs⟩ =>
      (⟨e', List.mem_cons_of_mem _ he', hs⟩ : MixesOnWays env depth locals (e :: es) s)
    exact hothers.bind fun _ _ => quiet_pure.framed

theorem scalars_framed (hbodies : BodiesFramed env depth) : ∀ es : List Expr,
    Framed (MixesOnWays env depth locals es) (scalars env (enterAt env depth) locals es)
  | [] => by
    rw [scalars]
    exact quiet_pure.framed
  | e :: es => by
    rw [scalars]
    apply ((value_framed hbodies e).mono fun s hs => ⟨e, List.mem_cons_self, hs⟩).bind
    intro v _
    have hothers := (scalars_framed hbodies es).mono fun s ⟨e', he', hs⟩ =>
      (⟨e', List.mem_cons_of_mem _ he', hs⟩ : MixesOnWays env depth locals (e :: es) s)
    cases v with
    | scalar q => exact hothers.bind fun _ _ => quiet_pure.framed
    | array qs => exact quiet_fail.framed

end

/-- The induction is on how many calls may be nested; a body is entered with one call less. -/
theorem bodiesFramed (env : Environment) (depth : Nat) : BodiesFramed env depth := by
  induction depth with
  | zero => exact fun _ h => nomatch h
  | succ depth ih =>
    intro depth' hdepth e locals
    cases hdepth
    rw [valueAt_eq]
    exact value_framed ih e

section

variable {name : Name} {callee : Callee} {id? : Option SymbolId} {args : List Expr}

/-- Inside the function that is called, evaluation comes to a sum of different dimensions at the
span. -/
def MixesInside (env : Environment) (p : Point) (span : Span) : Prop :=
  ∃ p', Step env p p' ∧ p'.depth < p.depth ∧ MixesOnWay env p' span

/-- A call whose arguments do not warn is framed by the sums inside the function. -/
theorem call_framed (hcallee : callee.bound? = some id?)
    (hargs : (values env (enterAt env depth) locals args).result.2 = []) :
    Framed (MixesInside env ⟨depth, locals, .call span name callee args⟩)
      (valueAt env depth (.call span name callee args) locals) := by
  have hbodies := bodiesFramed env depth
  have hquiet : Quiet (values env (enterAt env depth) locals args) :=
    (values_framed hbodies args).silent hargs
  have hinside : ∀ p', Step env ⟨depth, locals, .call span name callee args⟩ p' → p'.depth < depth →
      ∀ s, MixesOnWay env p' s → MixesInside env ⟨depth, locals, .call span name callee args⟩ s :=
    fun p' hstep hdepth s hs => ⟨p', hstep, hdepth, hs⟩
  have hcall := callUser_framed hbodies hcallee hinside hquiet.framed
  rw [valueAt_eq]
  cases callee with
  | builtin b => cases hcallee
  | user id =>
    cases hcallee
    rw [value]
    exact hcall
  | unresolved =>
    cases hcallee
    rw [value]
    exact hcall

/-- A call whose arguments do not warn comes to the same result whatever warnings there are before
it. It adds the warnings behind them that it has alone, unless one of those before is at the span of
a sum of different dimensions inside the function, which is a span of another text. So only a call
that has no warnings adds its own to any warnings from before. -/
theorem call_adds_iff (hcallee : callee.bound? = some id?)
    (hargs : (values env (enterAt env depth) locals args).result.2 = []) :
    let call := valueAt env depth (.call span name callee args) locals
    let AddsBehind (earlier : List Diagnostic) :=
      call.run.run earlier = (call.result.1, earlier ++ call.result.2)
    (∀ earlier, (call.run.run earlier).1 = call.result.1) ∧
    (∀ earlier, (∀ s, MixesInside env ⟨depth, locals, .call span name callee args⟩ s →
      ¬Warned earlier s) → AddsBehind earlier) ∧
    ((∀ earlier, AddsBehind earlier) ↔ call.result.2 = []) := by
  intro call AddsBehind
  have hcall : Framed (MixesInside env ⟨depth, locals, .call span name callee args⟩) call :=
    call_framed hcallee hargs
  refine ⟨hcall.steady.run_fst, fun earlier hclear => ?_, fun hadds => ?_, fun hnil earlier => ?_⟩
  · have hrun := hcall.frame earlier (fun s hs hM => hclear s hM hs) []
    rwa [List.append_nil] at hrun
  · obtain ⟨spans, hspans⟩ := hcall.covered
    let earlier := spans.map fun s => Diagnostic.warning .dimensionMismatch s ""
    have hwarned : ∀ s ∈ spans, Warned earlier s :=
      fun s hs => ⟨_, List.mem_map_of_mem hs, rfl, rfl⟩
    have hadded : earlier = earlier ++ call.result.2 :=
      congrArg Prod.snd ((hspans earlier hwarned).symm.trans (hadds earlier))
    exact List.append_right_eq_self.1 hadded.symm
  · have hrun := hcall.silent hnil earlier
    change call.run.run earlier = (call.result.1, earlier ++ call.result.2)
    rw [hnil, List.append_nil]
    exact hrun

end

/-- A call of `f(x) = x + 1` at a second warns. -/
theorem call_adds_second :
    let call := valueAt mixing 1 mixingCall []
    call.result.2.length = 1 ∧
      ¬∀ earlier, call.run.run earlier = (call.result.1, earlier ++ call.result.2) := by
  intro call
  have hlength : call.result.2.length = 1 := by decide +kernel
  refine ⟨hlength, fun hadds => ?_⟩
  have hnil : call.result.2 = [] := (call_adds_iff rfl (by decide +kernel)).2.2.1 hadds
  rw [hnil] at hlength
  cases hlength

/-- In `x + 1 + f(x)` with a second `x` the first sum is at the span that the sum in `f` has in its
own text, and so the call does not warn. -/
theorem call_adds_ne :
    let x := fun span => Expr.var span ⟨"x"⟩ (.symbol ⟨1⟩)
    let second := Binder.value (.scalar (seconds 1)) "1\\,\\mathrm\x7bs\x7d"
    let env := { mixing with registry := mixing.registry.bind "x" second }
    let sum := valueAt env 64 (.binary ⟨0, 5⟩ .add (x ⟨0, 1⟩) (.const ⟨4, 5⟩ "1" 1)) []
    let call := valueAt env 64 (.call ⟨8, 12⟩ ⟨"f"⟩ (.user ⟨0⟩) [x ⟨10, 11⟩]) []
    (values env (enterAt env 64) [] [x ⟨10, 11⟩]).result.2 = [] ∧
    sum.result.2.length = 1 ∧ call.result.2.length = 1 ∧
    (call.run.run sum.result.2).2 ≠ sum.result.2 ++ call.result.2 := by
  decide +kernel

end Evaluation

end Worksheet
