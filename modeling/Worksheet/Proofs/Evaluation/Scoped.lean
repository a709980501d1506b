import Worksheet.Proofs.Evaluation.Ensures
import Worksheet.Proofs.Registry.Scoped
import Worksheet.Proofs.UnitTable.Faults
/-!
# Evaluation in scope

Where everything that is bound is scoped, the evaluation of a scoped tree finds whatever it looks
for by its place. A body is entered with as many arguments as its function has parameters, so the
places of the parameters are there in every call, however the names are bound when it is made.
-/

namespace Worksheet

namespace Evaluation

/-- A result has the property `Q`, and an error tells of the document. -/
abbrev Safe (Q : α → Prop) (c : Eval α) : Prop :=
  Eval.Ensures (fun _ => True) (fun e => e.code.External) Q c

variable {env : Environment} {span : Span}

theorem safe_pure {Q : α → Prop} {a : α} (h : Q a) : Safe Q (pure a) := Eval.ensures_pure h

theorem safe_done {a : α} : Safe (fun _ => True) (pure a : Eval α) := Eval.ensures_pure trivial

theorem safe_fail {Q : α → Prop} {code : ErrorCode} {details : Option String}
    (h : code.External) : Safe Q (Eval.fail code span details : Eval α) := Eval.ensures_fail h

theorem safe_mapM {f : α → Eval β} (hf : ∀ a, Safe (fun _ => True) (f a)) (as : List α) :
    Safe (fun _ => True) (as.mapM f) := by
  induction as with
  | nil => exact safe_done
  | cons a as ih =>
    rw [List.mapM_cons]
    apply (hf a).bind
    intro b _
    exact ih.bind fun _ _ => safe_done

/-! ## Arithmetic -/

theorem finite_safe (v : Value) : Safe (fun _ => True) (v.finite span) := by
  unfold Value.finite
  split
  · exact safe_done
  · exact safe_fail (by decide)

theorem orOverflow_safe (q? : Option Quantity) : Safe (fun _ => True) (orOverflow span q?) := by
  cases q? with
  | some q => exact safe_done
  | none => exact safe_fail (by decide)

theorem addOrSub_safe (verb : String) (combine? : Quantity → Quantity → Option Quantity)
    (q r : Quantity) : Safe (fun _ => True) (addOrSub env span verb combine? q r) := by
  unfold addOrSub
  split
  · exact safe_done
  · split
    · exact safe_fail (by decide)
    · exact (Eval.ensures_warn trivial).bind fun _ _ => safe_done

theorem raise_safe (q exponent : Quantity) : Safe (fun _ => True) (raise span q exponent) := by
  unfold raise
  split
  · exact safe_fail (by decide)
  · split
    · exact safe_done
    · dsimp only
      split
      · exact safe_done
      · exact safe_fail (by split <;> decide)

theorem combine_safe (op : BinaryOp) (q r : Quantity) :
    Safe (fun _ => True) (combine env span op q r) := by
  cases op with
  | add => exact addOrSub_safe _ _ q r
  | sub => exact addOrSub_safe _ _ q r
  | mul => exact orOverflow_safe _
  | div =>
    change Safe (fun _ => True) (divide span q r)
    unfold divide
    split
    · exact safe_fail (by decide)
    · exact orOverflow_safe _
  | exp => exact raise_safe q r

theorem arrayOf_safe (qs : List Quantity) : Safe (fun _ => True) (arrayOf span qs) := by
  unfold arrayOf
  split
  · exact safe_done
  · exact safe_fail (by decide)

theorem broadcast_safe {f : Quantity → Quantity → Eval Quantity}
    (hf : ∀ q r, Safe (fun _ => True) (f q r)) (v w : Value) :
    Safe (fun _ => True) (broadcast span f v w) := by
  cases v with
  | scalar q =>
    cases w with
    | scalar r => exact (hf q r).bind fun _ _ => safe_done
    | array rs => exact (safe_mapM (hf q) rs).bind fun qs _ => arrayOf_safe qs
  | array qs =>
    cases w with
    | scalar r => exact (safe_mapM (fun q => hf q r) qs).bind fun qs _ => arrayOf_safe qs
    | array rs =>
      change Safe (fun _ => True) (if qs.length = rs.length then _ else _)
      split
      · exact (safe_mapM (fun (q, r) => hf q r) _).bind fun qs _ => arrayOf_safe qs
      · exact safe_fail (by decide)

theorem element_safe (positionSpan : Span) (base position : Value) :
    Safe (fun _ => True) (element span positionSpan base position) := by
  cases base with
  | scalar q => exact safe_fail (by decide)
  | array elements =>
    simp only [element]
    split
    · exact safe_fail (by decide)
    · split
      · exact safe_done
      · exact safe_fail (by decide)

theorem valueMapM_safe {f : Quantity → Eval Quantity} (hf : ∀ q, Safe (fun _ => True) (f q))
    (v : Value) : Safe (fun _ => True) (v.mapM f) := by
  cases v with
  | scalar q => exact (hf q).bind fun _ _ => safe_done
  | array qs => exact (safe_mapM hf qs).bind fun _ _ => safe_done

theorem reduce_safe (f : List Float → Float) (args : List Value) :
    Safe (fun _ => True) (reduce span f args) := by
  unfold reduce
  split
  · exact safe_fail (by decide)
  · split
    · exact safe_fail (by decide)
    · exact safe_done

theorem applyBuiltin_safe (b : Builtin) (args : List Value) :
    Safe (fun _ => True) (applyBuiltin b span args) := by
  unfold applyBuiltin
  split
  case h_1 | h_7 | h_8 | h_9 | h_10 | h_11 => exact safe_done
  case h_2 | h_3 | h_4 | h_5 => exact reduce_safe _ _
  case h_6 =>
    refine valueMapM_safe (fun q => ?_) _
    unfold squareRoot
    split
    · exact safe_done
    · exact safe_fail (by decide)
  case h_12 =>
    refine valueMapM_safe (fun q => ?_) _
    unfold transcendental
    split
    · exact safe_done
    · exact safe_fail (by decide)
  case h_13 => exact safe_fail (by decide)

theorem unitQuantity_safe (text : String) :
    Safe (fun _ => True) (unitQuantity env span text) := by
  have hparse := env.table.parse_readable text
  unfold unitQuantity
  split
  · rename_i e he
    exact safe_fail (hparse.fault he)
  · split
    · exact safe_done
    · exact safe_fail (by decide)

/-! ## Names and calls -/

theorem named_safe {locals : List Value} {name : Name} {binding : Binding}
    (hbinding : binding.Scoped locals.length env.registry.size) :
    Safe (fun _ => True) (named env locals span name binding) := by
  have hentry : ∀ e, Safe (fun _ => True) (named.valueOf span e) := by
    intro e
    unfold named.valueOf
    split
    · exact safe_done
    · exact safe_fail (by decide)
  cases binding with
  | parameter i =>
    obtain ⟨v, hv⟩ : ∃ v, locals[i]? = some v := ⟨_, List.getElem?_eq_getElem hbinding⟩
    simp only [named, hv]
    exact safe_done
  | symbol id =>
    obtain ⟨e, he⟩ := env.registry.exists_get? hbinding
    simp only [named, he]
    exact hentry e
  | unresolved =>
    simp only [named]
    split
    · exact hentry _
    · exact safe_fail (by decide)

theorem userFunction_safe (hregistry : env.registry.Scoped) {name : Name}
    {id? : Option SymbolId} (hid : ∀ id ∈ id?, id.index < env.registry.size) :
    Safe (fun f => f.body.Scoped f.arity env.registry.size)
      (userFunction env span name id?) := by
  have hentry : ∀ e ∈ env.registry.entries,
      Safe (fun f => f.body.Scoped f.arity env.registry.size)
        (userFunction.functionOf span e) := by
    intro e he
    unfold userFunction.functionOf
    split
    · rename_i f hf
      exact safe_pure ((hregistry e he).body f hf)
    · exact safe_fail (by decide)
  cases id? with
  | some id =>
    obtain ⟨e, he⟩ := env.registry.exists_get? (hid id rfl)
    simp only [userFunction, he]
    exact hentry e (List.mem_of_getElem? he)
  | none =>
    simp only [userFunction]
    split
    · rename_i e he
      exact hentry e (env.registry.mem_of_lookup he)
    · exact safe_fail (by decide)

/-- A way into the bodies of functions is safe for all that are scoped. -/
def EnterSafe (size : Nat) (enter : Enter) : Prop :=
  ∀ run ∈ enter, ∀ e locals, e.Scoped locals.length size → Safe (fun _ => True) (run e locals)

/-- A function is entered with one argument for each parameter. -/
theorem enterFunction_safe {enter : Enter} {size : Nat} (henter : EnterSafe size enter)
    {f : FunctionDefinition} (hf : f.body.Scoped f.arity size) (count : Nat) :
    Safe (fun body => ∀ args, args.length = count → Safe (fun _ => True) (body args))
      (enterFunction enter span f count) := by
  unfold enterFunction
  split
  · exact safe_fail (by decide)
  · rename_i hcount
    split
    · exact safe_fail (by decide)
    · rename_i run
      refine safe_pure fun args hargs => ?_
      have hbody : f.body.Scoped args.length size := by
        rw [hargs, Decidable.not_not.1 hcount]
        exact hf
      exact (henter run rfl f.body args hbody).atCall (fun _ _ => trivial) fun _ he => he

section

variable {enter : Enter} {locals : List Value}

mutual

theorem value_safe (hregistry : env.registry.Scoped) (henter : EnterSafe env.registry.size enter) :
    ∀ e : Expr, e.Scoped locals.length env.registry.size →
      Safe (fun _ => True) (value env enter locals e)
  | .const span _ x, _ => by
    rw [value]
    exact finite_safe _
  | .var span name binding, h => by
    rw [value]
    exact named_safe h
  | .unit span text, _ => by
    rw [value]
    exact (unitQuantity_safe text).bind fun q _ => safe_done
  | .array span elements, h => by
    rw [value]
    apply (scalars_safe hregistry henter elements h).bind
    intro qs _
    split
    · exact safe_done
    · exact safe_fail (by decide)
  | .index span base position, h => by
    rw [value]
    apply (value_safe hregistry henter base h.1).bind
    intro b _
    apply (value_safe hregistry henter position h.2).bind
    intro p _
    exact element_safe position.span b p
  | .signed span sign operand, h => by
    rw [value]
    apply (value_safe hregistry henter operand h).bind
    intro v _
    cases sign <;> exact safe_done
  | .binary span op left right, h => by
    rw [value]
    apply (value_safe hregistry henter left h.1).bind
    intro l _
    apply (value_safe hregistry henter right h.2).bind
    intro r _
    exact (broadcast_safe (combine_safe op) l r).bind fun v _ => finite_safe v
  | .group span inner, h => by
    rw [value]
    exact value_safe hregistry henter inner h
  | .call span name (.builtin b) args, h => by
    rw [value]
    split
    · apply (values_safe hregistry henter args h.2).bind
      intro vs _
      exact (applyBuiltin_safe b vs).bind fun v _ => finite_safe v
    · exact safe_fail (by decide)
  | .call span name (.user id) args, h => by
    rw [value]
    exact callUser_safe hregistry henter (by rintro _ ⟨⟩; exact h.1) args h.2
  | .call span name .unresolved args, h => by
    rw [value]
    exact callUser_safe hregistry henter (by simp) args h.2

/-- A call of a function that is bound under a name. -/
theorem callUser_safe (hregistry : env.registry.Scoped)
    (henter : EnterSafe env.registry.size enter) {span : Span} {name : Name}
    {id? : Option SymbolId} (hid : ∀ id ∈ id?, id.index < env.registry.size) (args : List Expr)
    (hargs : Expr.AllScoped locals.length env.registry.size args) :
    Safe (fun _ => True) (do
      let f ← userFunction env span name id?
      let body ← enterFunction enter span f args.length
      body (← values env enter locals args)) := by
  apply (userFunction_safe hregistry hid).bind
  intro f hf
  apply (enterFunction_safe henter hf args.length).bind
  intro body hbody
  apply (values_safe hregistry henter args hargs).bind
  intro vs hvs
  exact hbody vs hvs

theorem values_safe (hregistry : env.registry.Scoped)
    (henter : EnterSafe env.registry.size enter) :
    ∀ es, Expr.AllScoped locals.length env.registry.size es →
      Safe (fun vs => vs.length = es.length) (values env enter locals es)
  | [], _ => by
    rw [values]
    exact safe_pure rfl
  | e :: es, h => by
    rw [values]
    apply (value_safe hregistry henter e h.1).bind
    intro v _
    apply (values_safe hregistry henter es h.2).bind
    intro vs hvs
    exact safe_pure (congrArg Nat.succ hvs)

theorem scalars_safe (hregistry : env.registry.Scoped)
    (henter : EnterSafe env.registry.size enter) :
    ∀ es, Expr.AllScoped locals.length env.registry.size es →
      Safe (fun _ => True) (scalars env enter locals es)
  | [], _ => by
    rw [scalars]
    exact safe_done
  | e :: es, h => by
    rw [scalars]
    apply (value_safe hregistry henter e h.1).bind
    intro v _
    cases v with
    | scalar q => exact (scalars_safe hregistry henter es h.2).bind fun _ _ => safe_done
    | array qs => exact safe_fail (by decide)

end

end

/-- The induction is on how many calls may be nested; a body is entered with one call less. -/
theorem valueAt_safe (hregistry : env.registry.Scoped) (depth : Nat) (e : Expr)
    (locals : List Value) (he : e.Scoped locals.length env.registry.size) :
    Safe (fun _ => True) (valueAt env depth e locals) := by
  induction depth generalizing e locals with
  | zero => exact value_safe hregistry (by simp [EnterSafe]) e he
  | succ depth ih =>
    refine value_safe hregistry ?_ e he
    intro run hrun
    cases hrun
    exact ih

end Evaluation

/-- A scoped equation never misses a name that it refers to by its place. -/
theorem Expr.eval_external {env : Environment} (hregistry : env.registry.Scoped) {e : Expr}
    (he : e.Scoped 0 env.registry.size) :
    ∀ error, (e.eval env).result.1 = .error error → error.code.External := by
  intro error herror
  have h := (Evaluation.valueAt_safe hregistry env.settings.maxCallDepth e [] he).result.2
  change (Evaluation.valueAt env env.settings.maxCallDepth e []).result.1 = .error error at herror
  rw [herror] at h
  exact h

end Worksheet
