import Mathlib.Logic.Relation
import Worksheet.Proofs.Evaluation.Reports
import Worksheet.Proofs.Expr.Nodes
/-!
# What evaluation visits

Evaluation goes down into expressions and, at calls, into the bodies of functions. It is gone
through once here, for any property of values that each step keeps; what it reports, it reports at
nodes of the expression that it has started from.
-/

namespace Worksheet

/-- Every value that is bound has the property. -/
def Registry.Holds (V : Value → Prop) (r : Registry) : Prop :=
  ∀ e ∈ r.entries, ∀ v source, e.binder = .value v source → V v

instance {V : Value → Prop} [DecidablePred V] (r : Registry) : Decidable (r.Holds V) :=
  decidable_of_iff
    (r.entries.all (fun e =>
      match e.binder with
      | .value v _ => decide (V v)
      | .function _ => true) = true) (by
    rw [List.all_eq_true]
    refine forall₂_congr fun e _ => ?_
    cases e.binder with
    | value v source => simp
    | function f => simp)

/-- The symbol that is called, if it is known by its place, unless a builtin is called. -/
def Callee.bound? : Callee → Option (Option SymbolId)
  | .builtin _ => none
  | .user id => some (some id)
  | .unresolved => some none

namespace Evaluation

/-- An expression on its way to be evaluated: how many calls may be nested in it, and the values of
the parameters. -/
structure Point where
  depth : Nat
  locals : List Value
  expr : Expr

/-- How bodies are entered where so many calls may be nested. -/
def enterAt (env : Environment) : Nat → Enter
  | 0 => none
  | depth + 1 => some (valueAt env depth)

theorem valueAt_eq (env : Environment) (depth : Nat) (e : Expr) (locals : List Value) :
    valueAt env depth e locals = value env (enterAt env depth) locals e := by
  cases depth <;> rfl

/-- Evaluation comes from one expression to the next: down into it, or into the body of the function
that it calls, with the values of the arguments. -/
inductive Step (env : Environment) : Point → Point → Prop where
  | down {depth : Nat} {locals : List Value} {e c : Expr} (hc : c ∈ e.children) :
      Step env ⟨depth, locals, e⟩ ⟨depth, locals, c⟩
  | body {depth : Nat} {locals vs : List Value} {span : Span} {name : Name} {callee : Callee}
      {id? : Option SymbolId} {args : List Expr} {f : FunctionDefinition}
      (hcallee : callee.bound? = some id?)
      (hf : (userFunction env span name id?).result.1 = .ok f)
      (harity : args.length = f.arity)
      (hargs : (values env (enterAt env (depth + 1)) locals args).result.1 = .ok vs) :
      Step env ⟨depth + 1, locals, .call span name callee args⟩ ⟨depth, vs, f.body⟩

def Visits (env : Environment) : Point → Point → Prop := Relation.ReflTransGen (Step env)

/-- Where the evaluation of an expression begins. -/
def root (env : Environment) (e : Expr) : Point := ⟨env.settings.maxCallDepth, [], e⟩

/-- The outcome at a point. -/
def outcome (env : Environment) (p : Point) : Except Error Value :=
  (valueAt env p.depth p.expr p.locals).result.1

/-- A property of values that every kind of expression keeps, except that nothing is said of arrays
that are written out. -/
structure Law (env : Environment) (V : Value → Prop) : Prop where
  number (span : Span) (x : Float) (v : Value) :
    ((Value.number x).finite span).result.1 = .ok v → V v
  unit (span : Span) (text : String) (q : Quantity) :
    (unitQuantity env span text).result.1 = .ok q → V (.scalar q)
  element (span positionSpan : Span) (base position v : Value) : V base →
    (element span positionSpan base position).result.1 = .ok v → V v
  neg (v : Value) : V v → V (v.map Quantity.neg)
  binary (span : Span) (op : BinaryOp) (l r v : Value) : V l → V r →
    (broadcast span (combine env span op) l r >>= fun v => v.finite span).result.1 = .ok v → V v
  builtin (b : Builtin) (span : Span) (args : List Value) (v : Value) : (∀ a ∈ args, V a) →
    (applyBuiltin b span args >>= fun v => v.finite span).result.1 = .ok v → V v

/-- Every array that is written out where evaluation comes to has the property, if its elements
have. -/
def LiteralsKeep (env : Environment) (V : Value → Prop) (p : Point) : Prop :=
  ∀ depth locals span elements, Visits env p ⟨depth, locals, .array span elements⟩ →
    ∀ qs v, (∀ q ∈ qs, V (.scalar q)) →
      (scalars env (enterAt env depth) locals elements).result.1 = .ok qs →
      Value.ofElements qs = .ok v → V v

variable {env : Environment} {V : Value → Prop} {p p' : Point}

theorem LiteralsKeep.step (h : LiteralsKeep env V p) (hstep : Step env p p') :
    LiteralsKeep env V p' :=
  fun depth locals span elements hvisit => h depth locals span elements (hvisit.head hstep)

open Eval

/-- A body is entered only with as many arguments as it has parameters, one call further down. -/
theorem enterFunction_reports {S : Span → Prop} {span : Span} (h : S span) (depth : Nat)
    (f : FunctionDefinition) (count : Nat) :
    Reports S (fun body => count = f.arity ∧ ∃ depth', depth = depth' + 1 ∧
        body = fun args => atCall span (valueAt env depth' f.body args))
      (enterFunction (enterAt env depth) span f count) := by
  unfold enterFunction
  split
  · exact reports_fail h
  · rename_i hcount
    cases depth with
    | zero => exact reports_fail h
    | succ depth' => exact reports_pure ⟨Decidable.not_not.1 hcount, depth', rfl, rfl⟩

section

variable {S : Span → Prop} {depth : Nat} {locals : List Value}

/-- Bodies of functions keep the property one call further down, wherever they report. -/
def BodiesKeep (env : Environment) (V : Value → Prop) (depth : Nat) : Prop :=
  ∀ depth', depth = depth' + 1 → ∀ e locals, (∀ v ∈ locals, V v) →
    LiteralsKeep env V ⟨depth', locals, e⟩ →
      Reports (fun _ => True) V (valueAt env depth' e locals)

/-- A call of a function that is bound under a name. -/
theorem callUser_reports (hbodies : BodiesKeep env V depth) {span : Span} (hspan : S span)
    {name : Name} {callee : Callee} {id? : Option SymbolId} (hcallee : callee.bound? = some id?)
    {args : List Expr} (hliterals : LiteralsKeep env V ⟨depth, locals, .call span name callee args⟩)
    (hargs : Reports S (fun vs => ∀ v ∈ vs, V v) (values env (enterAt env depth) locals args)) :
    Reports S V (do
      let f ← userFunction env span name id?
      let body ← enterFunction (enterAt env depth) span f args.length
      body (← values env (enterAt env depth) locals args)) := by
  apply (userFunction_reports hspan name id?).bind
  intro f hf _
  apply (enterFunction_reports hspan depth f args.length).bind
  rintro body - ⟨harity, depth', rfl, rfl⟩
  apply hargs.bind
  intro vs hvs hall
  have hbody := hliterals.step (.body hcallee hf harity hvs)
  exact (hbodies depth' rfl f.body vs hall hbody).atCall hspan

theorem named_holds (hbound : env.registry.Holds V) (hlocals : ∀ v ∈ locals, V v) {span : Span}
    (hspan : S span) (name : Name) (binding : Binding) :
    Reports S V (named env locals span name binding) := by
  have hentry : ∀ e ∈ env.registry.entries, Reports S V (named.valueOf span e) := by
    intro e he
    unfold named.valueOf
    split
    · rename_i v source hv
      exact reports_pure (hbound e he v source hv)
    · exact reports_fail hspan
  cases binding with
  | parameter i =>
    simp only [named]
    split
    · rename_i v hv
      exact reports_pure (hlocals v (List.mem_of_getElem? hv))
    · exact reports_fail hspan
  | symbol id =>
    simp only [named]
    split
    · rename_i e he
      exact hentry e (List.mem_of_getElem? he)
    · exact reports_fail hspan
  | unresolved =>
    simp only [named]
    split
    · rename_i e he
      exact hentry e (env.registry.mem_of_lookup he)
    · exact reports_fail hspan

mutual

theorem value_reports (hlaw : Law env V) (hbound : env.registry.Holds V)
    (hbodies : BodiesKeep env V depth) (hlocals : ∀ v ∈ locals, V v) :
    ∀ e : Expr, (∀ s, e.Marks s → S s) → LiteralsKeep env V ⟨depth, locals, e⟩ →
      Reports S V (value env (enterAt env depth) locals e)
  | .const span _ x, hS, _ => by
    rw [value]
    exact (finite_reports (hS _ (Expr.marks_self _)) _).also (hlaw.number span x)
  | .var span name binding, hS, _ => by
    rw [value]
    exact named_holds hbound hlocals (hS _ (Expr.marks_self _)) name binding
  | .unit span text, hS, _ => by
    rw [value]
    apply (unitQuantity_reports (hS _ (Expr.marks_self _)) text).bind
    intro q hq _
    exact reports_pure (hlaw.unit span text q hq)
  | .array span elements, hS, hliterals => by
    rw [value]
    have helements := scalars_reports hlaw hbound hbodies hlocals elements
      (fun e he s hs => hS s (hs.child he)) fun e he => hliterals.step (.down he)
    apply helements.bind
    intro qs hqs hall
    split
    · rename_i v hv
      exact reports_pure (hliterals depth locals span elements .refl qs v hall hqs hv)
    · rename_i i _
      refine reports_fail ?_
      cases helement : elements[i]? with
      | none => exact hS _ (Expr.marks_self (.array span elements))
      | some e => exact hS _ ((Expr.marks_self e).child (List.mem_of_getElem? helement))
  | .index span base position, hS, hliterals => by
    rw [value]
    have hdown : ∀ c ∈ [base, position], (∀ s, c.Marks s → S s) ∧
        LiteralsKeep env V ⟨depth, locals, c⟩ := fun c hc =>
      ⟨fun s hs => hS s (hs.child hc), hliterals.step (.down hc)⟩
    obtain ⟨⟨hbase, hbaseLiterals⟩, hposition, hpositionLiterals⟩ :=
      And.intro (hdown base (by simp)) (hdown position (by simp))
    apply (value_reports hlaw hbound hbodies hlocals base hbase hbaseLiterals).bind
    intro b _ hb
    apply (value_reports hlaw hbound hbodies hlocals position hposition hpositionLiterals).bind
    intro p _ _
    exact (element_reports (hS _ (Expr.marks_self _)) (hposition _ (Expr.marks_self _)) b p).also
      fun v => hlaw.element span position.span b p v hb
  | .signed span sign operand, hS, hliterals => by
    rw [value]
    have hc : operand ∈ (Expr.signed span sign operand).children := List.mem_singleton_self _
    apply (value_reports hlaw hbound hbodies hlocals operand (fun s hs => hS s (hs.child hc))
      (hliterals.step (.down hc))).bind
    intro v _ hv
    cases sign with
    | positive => exact reports_pure hv
    | negative => exact reports_pure (hlaw.neg v hv)
  | .binary span op left right, hS, hliterals => by
    rw [value]
    have hspan : S span := hS _ (Expr.marks_self _)
    have hdown : ∀ c ∈ [left, right], (∀ s, c.Marks s → S s) ∧
        LiteralsKeep env V ⟨depth, locals, c⟩ := fun c hc =>
      ⟨fun s hs => hS s (hs.child hc), hliterals.step (.down hc)⟩
    obtain ⟨⟨hleft, hleftLiterals⟩, hright, hrightLiterals⟩ :=
      And.intro (hdown left (by simp)) (hdown right (by simp))
    apply (value_reports hlaw hbound hbodies hlocals left hleft hleftLiterals).bind
    intro l _ hl
    apply (value_reports hlaw hbound hbodies hlocals right hright hrightLiterals).bind
    intro r _ hr
    have hcombine := fun q r => @combine_reports env S span hspan op q r
    have hcombined := (broadcast_reports hspan hcombine l r).bind fun v _ _ =>
      finite_reports hspan v
    exact hcombined.also fun v => hlaw.binary span op l r v hl hr
  | .group span inner, hS, hliterals => by
    rw [value]
    have hc : inner ∈ (Expr.group span inner).children := List.mem_singleton_self _
    exact value_reports hlaw hbound hbodies hlocals inner (fun s hs => hS s (hs.child hc))
      (hliterals.step (.down hc))
  | .call span name callee args, hS, hliterals => by
    have hspan : S span := hS _ (Expr.marks_self _)
    have hargs := values_reports hlaw hbound hbodies hlocals args
      (fun e he s hs => hS s (hs.child he)) fun e he => hliterals.step (.down he)
    cases callee with
    | builtin b =>
      rw [value]
      split
      · apply hargs.bind
        intro vs _ hvs
        have happlied := (applyBuiltin_reports hspan b vs).bind fun v _ _ => finite_reports hspan v
        exact happlied.also fun v => hlaw.builtin b span vs v hvs
      · exact reports_fail hspan
    | user id =>
      rw [value]
      exact callUser_reports hbodies hspan rfl hliterals hargs
    | unresolved =>
      rw [value]
      exact callUser_reports hbodies hspan rfl hliterals hargs

theorem values_reports (hlaw : Law env V) (hbound : env.registry.Holds V)
    (hbodies : BodiesKeep env V depth) (hlocals : ∀ v ∈ locals, V v) :
    ∀ es : List Expr, (∀ e ∈ es, ∀ s, e.Marks s → S s) →
      (∀ e ∈ es, LiteralsKeep env V ⟨depth, locals, e⟩) →
      Reports S (fun vs => ∀ v ∈ vs, V v) (values env (enterAt env depth) locals es)
  | [], _, _ => by
    rw [values]
    exact reports_pure (by simp)
  | e :: es, hS, hliterals => by
    obtain ⟨hfirst, hothers⟩ := List.forall_mem_cons.1 hS
    obtain ⟨hfirstLiterals, hotherLiterals⟩ := List.forall_mem_cons.1 hliterals
    rw [values]
    apply (value_reports hlaw hbound hbodies hlocals e hfirst hfirstLiterals).bind
    intro v _ hv
    apply (values_reports hlaw hbound hbodies hlocals es hothers hotherLiterals).bind
    intro vs _ hvs
    exact reports_pure (List.forall_mem_cons.2 ⟨hv, hvs⟩)

theorem scalars_reports (hlaw : Law env V) (hbound : env.registry.Holds V)
    (hbodies : BodiesKeep env V depth) (hlocals : ∀ v ∈ locals, V v) :
    ∀ es : List Expr, (∀ e ∈ es, ∀ s, e.Marks s → S s) →
      (∀ e ∈ es, LiteralsKeep env V ⟨depth, locals, e⟩) →
      Reports S (fun qs => ∀ q ∈ qs, V (.scalar q)) (scalars env (enterAt env depth) locals es)
  | [], _, _ => by
    rw [scalars]
    exact reports_pure (by simp)
  | e :: es, hS, hliterals => by
    obtain ⟨hfirst, hothers⟩ := List.forall_mem_cons.1 hS
    obtain ⟨hfirstLiterals, hotherLiterals⟩ := List.forall_mem_cons.1 hliterals
    rw [scalars]
    apply (value_reports hlaw hbound hbodies hlocals e hfirst hfirstLiterals).bind
    intro v _ hv
    cases v with
    | scalar q =>
      apply (scalars_reports hlaw hbound hbodies hlocals es hothers hotherLiterals).bind
      intro qs _ hqs
      exact reports_pure (List.forall_mem_cons.2 ⟨hv, hqs⟩)
    | array qs => exact reports_fail (hfirst _ (Expr.marks_self e))

end

end

/-- The induction is on how many calls may be nested; a body is entered with one call less. -/
theorem bodiesKeep (hlaw : Law env V) (hbound : env.registry.Holds V) (depth : Nat) :
    BodiesKeep env V depth := by
  induction depth with
  | zero => exact fun _ h => nomatch h
  | succ depth ih =>
    intro depth' hdepth e locals hlocals hliterals
    cases hdepth
    rw [valueAt_eq]
    exact value_reports hlaw hbound ih hlocals e (fun _ _ => trivial) hliterals

/-- Evaluation reports at nodes of the expression, not at those of a function that it calls, and
keeps every property of values that its steps keep. -/
theorem valueAt_reports (hlaw : Law env V) (hbound : env.registry.Holds V)
    (hlocals : ∀ v ∈ p.locals, V v) (hliterals : LiteralsKeep env V p) :
    Reports p.expr.Marks V (valueAt env p.depth p.expr p.locals) := by
  rw [valueAt_eq]
  exact value_reports hlaw hbound (bodiesKeep hlaw hbound p.depth) hlocals p.expr (fun _ h => h)
    hliterals

/-- Evaluation comes only to places where the values of the parameters have the property. -/
theorem Step.keeps (hlaw : Law env V) (hbound : env.registry.Holds V) (hstep : Step env p p')
    (hlocals : ∀ v ∈ p.locals, V v) (hliterals : LiteralsKeep env V p) :
    ∀ v ∈ p'.locals, V v := by
  cases hstep with
  | down hc => exact hlocals
  | body hcallee hf harity hargs =>
    have hvalues := values_reports hlaw hbound (bodiesKeep hlaw hbound _) hlocals _
      (fun _ _ _ _ => trivial) fun e he => hliterals.step (.down he)
    exact hvalues.outcome.result hargs

theorem Visits.keeps (hlaw : Law env V) (hbound : env.registry.Holds V) (h : Visits env p p')
    (hlocals : ∀ v ∈ p.locals, V v) (hliterals : LiteralsKeep env V p) :
    (∀ v ∈ p'.locals, V v) ∧ LiteralsKeep env V p' := by
  induction h with
  | refl => exact ⟨hlocals, hliterals⟩
  | tail _ hstep ih => exact ⟨hstep.keeps hlaw hbound ih.1 ih.2, ih.2.step hstep⟩

theorem law_true (env : Environment) : Law env fun _ => True where
  number _ _ _ _ := trivial
  unit _ _ _ _ := trivial
  element _ _ _ _ _ _ _ := trivial
  neg _ _ := trivial
  binary _ _ _ _ _ _ _ _ := trivial
  builtin _ _ _ _ _ _ := trivial

section

variable (env : Environment) (depth : Nat) (locals : List Value)

theorem bodiesKeep_true : BodiesKeep env (fun _ => True) depth :=
  bodiesKeep (law_true env) (fun _ _ _ _ _ => trivial) depth

theorem value_steady (e : Expr) : Steady (value env (enterAt env depth) locals e) :=
  value_reports (law_true env) (fun _ _ _ _ _ => trivial) (bodiesKeep_true env depth)
    (fun _ _ => trivial) e (fun _ _ => trivial) fun _ _ _ _ _ _ _ _ _ _ => trivial

theorem values_steady (es : List Expr) : Steady (values env (enterAt env depth) locals es) :=
  (values_reports (law_true env) (fun _ _ _ _ _ => trivial) (bodiesKeep_true env depth)
    (fun _ _ => trivial) es (fun _ _ _ _ => trivial)
    fun _ _ _ _ _ _ _ _ _ _ _ _ => trivial).also fun _ _ => trivial

theorem scalars_steady (es : List Expr) : Steady (scalars env (enterAt env depth) locals es) :=
  (scalars_reports (law_true env) (fun _ _ _ _ _ => trivial) (bodiesKeep_true env depth)
    (fun _ _ => trivial) es (fun _ _ _ _ => trivial)
    fun _ _ _ _ _ _ _ _ _ _ _ _ => trivial).also fun _ _ => trivial

end

end Evaluation

/-- Whatever is bound, and however deeply calls are nested, an expression reports at its own
nodes. -/
theorem Expr.eval_reports (env : Environment) (e : Expr) :
    Eval.Reports e.Marks (fun _ => True) (e.eval env) :=
  Evaluation.valueAt_reports (p := Evaluation.root env e) (Evaluation.law_true env)
    (fun _ _ _ _ _ => trivial) (fun _ _ => trivial) fun _ _ _ _ _ _ _ _ _ _ => trivial

end Worksheet
