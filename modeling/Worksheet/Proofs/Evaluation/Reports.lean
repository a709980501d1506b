import Worksheet.Proofs.Evaluation.Ensures
import Worksheet.Proofs.Except
/-!
# Reports of evaluations

An evaluation comes to the same result whatever warnings there were before it, and only adds to
them. What it reports is reported at places that are known from the start.
-/

namespace Worksheet

/-- The warning of a sum of different dimensions, at one of the places `S`. -/
structure Diagnostic.Mismatch (S : Span → Prop) (w : Diagnostic) : Prop where
  place : S w.span
  kind : ∃ details, w = .warning .dimensionMismatch w.span
    (ErrorCode.dimensionMismatch.name ++ ": " ++ details)

namespace Eval

/-- The earlier warnings stay and make no difference. Warnings and errors are at places `S`, and a
result has the property `Q`. -/
structure Reports (S : Span → Prop) (Q : α → Prop) (c : Eval α) : Prop where
  run : ∀ before, ∃ more, c.run.run before = (c.result.1, before ++ more) ∧
    ∀ w ∈ more, w.Mismatch S
  outcome : Meets (fun e => S e.span) Q c.result.1

variable {S : Span → Prop} {R Q : α → Prop} {c : Eval α}

theorem Reports.warnings (hc : Reports S Q c) : ∀ w ∈ c.result.2, w.Mismatch S := by
  obtain ⟨more, hrun, hmore⟩ := hc.run []
  have hresult : c.result.2 = more := by
    change (c.run.run []).2 = more
    rw [hrun]
    rfl
  rw [hresult]
  exact hmore

/-- What is known of the result from elsewhere can be used as well. -/
theorem Reports.also (hc : Reports S R c) (hQ : ∀ a, c.result.1 = .ok a → Q a) :
    Reports S Q c := by
  refine ⟨hc.run, ?_⟩
  have houtcome := hc.outcome
  cases hresult : c.result.1 with
  | ok a => exact .ok (hQ a hresult)
  | error e =>
    rw [hresult] at houtcome
    exact .error (houtcome.fault rfl)

theorem reports_pure {a : α} (h : Q a) : Reports S Q (pure a) := by
  refine ⟨fun before => ⟨[], ?_, by simp⟩, .ok h⟩
  rw [List.append_nil]
  rfl

theorem reports_done {a : α} : Reports S (fun _ => True) (pure a : Eval α) := reports_pure trivial

theorem reports_fail {code : ErrorCode} {span : Span} {details : Option String} (h : S span) :
    Reports S Q (fail code span details) := by
  refine ⟨fun before => ⟨[], ?_, by simp⟩, .error h⟩
  rw [List.append_nil]
  rfl

theorem reports_warn {span : Span} {details : String} (h : S span) :
    Reports S (fun _ => True) (warn .dimensionMismatch span details) := by
  refine ⟨fun before => ?_, .ok trivial⟩
  by_cases hknown : before.any fun w => w.code = .dimensionMismatch ∧ w.span = span
  · refine ⟨[], ?_, by simp⟩
    rw [List.append_nil]
    exact congrArg (Prod.mk _) (if_pos hknown)
  · refine ⟨_, congrArg (Prod.mk _) (if_neg hknown), ?_⟩
    intro w hw
    rw [List.mem_singleton.1 hw]
    exact ⟨h, details, rfl⟩

/-- A computation fails where its first part does. -/
theorem Reports.result_bind {f : α → Eval β} (hc : Reports S R c)
    (hf : ∀ a, c.result.1 = .ok a → ∃ S' Q', Reports S' Q' (f a)) :
    (c >>= f).result.1 = c.result.1 >>= fun a => (f a).result.1 := by
  obtain ⟨more, hrun, -⟩ := hc.run []
  change ((c >>= f).run.run []).1 = _
  rw [run_bind, hrun]
  cases hresult : c.result.1 with
  | error e => rfl
  | ok a =>
    obtain ⟨S', Q', ha⟩ := hf a hresult
    obtain ⟨later, hlater, -⟩ := ha.run more
    change ((f a).run.run more).1 = (f a).result.1
    rw [hlater]

theorem Reports.bind {Q : β → Prop} {f : α → Eval β} (hc : Reports S R c)
    (hf : ∀ a, c.result.1 = .ok a → R a → Reports S Q (f a)) : Reports S Q (c >>= f) := by
  have houtcome := hc.outcome
  have hresult := hc.result_bind (f := f) fun a ha => ⟨S, Q, hf a ha (houtcome.result ha)⟩
  cases hfirst : c.result.1 with
  | error e =>
    rw [hfirst] at hresult houtcome
    refine ⟨fun before => ?_, hresult ▸ .error (houtcome.fault rfl)⟩
    obtain ⟨more, hrun, hmore⟩ := hc.run before
    refine ⟨more, ?_, hmore⟩
    rw [run_bind, hrun, hfirst, hresult]
    rfl
  | ok a =>
    have ha := hf a hfirst (houtcome.result hfirst)
    rw [hfirst, ok_bind] at hresult
    refine ⟨fun before => ?_, hresult ▸ ha.outcome⟩
    obtain ⟨more, hrun, hmore⟩ := hc.run before
    obtain ⟨later, hlater, hmoreLater⟩ := ha.run (before ++ more)
    refine ⟨more ++ later, ?_, ?_⟩
    · rw [run_bind, hrun, hfirst, hresult, ← List.append_assoc]
      exact hlater
    · intro w hw
      exact (List.mem_append.1 hw).elim (hmore w) (hmoreLater w)

/-- A call reports at its own place, wherever its body reports. -/
theorem Reports.atCall {S' : Span → Prop} {span : Span} (hspan : S span) (hc : Reports S' Q c) :
    Reports S Q (Eval.atCall span c) := by
  have hresult : (Eval.atCall span c).result.1 = c.result.1.mapError fun e => { e with span } := rfl
  constructor
  · intro before
    obtain ⟨more, hbody, hmore⟩ := hc.run before
    refine ⟨more.map fun w => { w with span }, ?_, ?_⟩
    · rw [run_atCall, hbody, hresult]
      dsimp only
      rw [List.take_left', List.drop_left'] <;> rfl
    · intro w hw
      obtain ⟨w', hw', rfl⟩ := List.mem_map.1 hw
      obtain ⟨details, hdetails⟩ := (hmore w' hw').kind
      refine ⟨hspan, details, ?_⟩
      rw [hdetails]
      rfl
  · rw [hresult]
    have houtcome := hc.outcome
    cases hbody : c.result.1 with
    | ok a => exact .ok (houtcome.result hbody)
    | error e => exact .error hspan

/-- Warnings from before make no difference; nothing is said of what is reported. -/
abbrev Steady (c : Eval α) : Prop := Reports (fun _ => True) (fun _ => True) c

theorem Steady.result_bind {f : α → Eval β} (hc : Steady c) (hf : ∀ a, Steady (f a)) :
    (c >>= f).result.1 = c.result.1 >>= fun a => (f a).result.1 :=
  Reports.result_bind hc fun a _ => ⟨_, _, hf a⟩

theorem Steady.bind {f : α → Eval β} (hc : Steady c) (hf : ∀ a, Steady (f a)) :
    Steady (c >>= f) :=
  Reports.bind hc fun a _ _ => hf a

theorem reports_mapM {f : α → Eval β} (hf : ∀ a, Reports S (fun _ => True) (f a))
    (as : List α) : Reports S (fun _ => True) (as.mapM f) := by
  induction as with
  | nil => exact reports_done
  | cons a as ih =>
    rw [List.mapM_cons]
    apply (hf a).bind
    intro b _ _
    exact ih.bind fun _ _ _ => reports_done

end Eval

namespace Evaluation

open Eval

variable {env : Environment} {S : Span → Prop} {span : Span}

/-! ## Arithmetic -/

theorem finite_reports (h : S span) (v : Value) : Reports S (fun _ => True) (v.finite span) := by
  unfold Value.finite
  split
  · exact reports_done
  · exact reports_fail h

theorem orOverflow_reports (h : S span) (q? : Option Quantity) :
    Reports S (fun _ => True) (orOverflow span q?) := by
  cases q? with
  | some q => exact reports_done
  | none => exact reports_fail h

theorem addOrSub_reports (h : S span) (verb : String)
    (combine? : Quantity → Quantity → Option Quantity) (q r : Quantity) :
    Reports S (fun _ => True) (addOrSub env span verb combine? q r) := by
  unfold addOrSub
  split
  · exact reports_done
  · split
    · exact reports_fail h
    · exact (reports_warn h).bind fun _ _ _ => reports_done

theorem raise_reports (h : S span) (q exponent : Quantity) :
    Reports S (fun _ => True) (raise span q exponent) := by
  unfold raise
  split
  · exact reports_fail h
  · split
    · exact reports_done
    · dsimp only
      split
      · exact reports_done
      · exact reports_fail h

theorem combine_reports (h : S span) (op : BinaryOp) (q r : Quantity) :
    Reports S (fun _ => True) (combine env span op q r) := by
  cases op with
  | add => exact addOrSub_reports h _ _ q r
  | sub => exact addOrSub_reports h _ _ q r
  | mul => exact orOverflow_reports h _
  | div =>
    change Reports S (fun _ => True) (divide span q r)
    unfold divide
    split
    · exact reports_fail h
    · exact orOverflow_reports h _
  | exp => exact raise_reports h q r

theorem arrayOf_reports (h : S span) (qs : List Quantity) :
    Reports S (fun _ => True) (arrayOf span qs) := by
  unfold arrayOf
  split
  · exact reports_done
  · exact reports_fail h

theorem broadcast_reports (h : S span) {f : Quantity → Quantity → Eval Quantity}
    (hf : ∀ q r, Reports S (fun _ => True) (f q r)) (v w : Value) :
    Reports S (fun _ => True) (broadcast span f v w) := by
  cases v with
  | scalar q =>
    cases w with
    | scalar r => exact (hf q r).bind fun _ _ _ => reports_done
    | array rs => exact (reports_mapM (hf q) rs).bind fun qs _ _ => arrayOf_reports h qs
  | array qs =>
    cases w with
    | scalar r =>
      exact (reports_mapM (fun q => hf q r) qs).bind fun qs _ _ => arrayOf_reports h qs
    | array rs =>
      change Reports S (fun _ => True) (if qs.length = rs.length then _ else _)
      split
      · exact (reports_mapM (fun (q, r) => hf q r) _).bind fun qs _ _ => arrayOf_reports h qs
      · exact reports_fail h

theorem element_reports {positionSpan : Span} (h : S span) (hposition : S positionSpan)
    (base position : Value) :
    Reports S (fun _ => True) (element span positionSpan base position) := by
  cases base with
  | scalar q => exact reports_fail h
  | array elements =>
    simp only [element]
    split
    · exact reports_fail hposition
    · split
      · exact reports_done
      · exact reports_fail hposition

theorem valueMapM_reports {f : Quantity → Eval Quantity}
    (hf : ∀ q, Reports S (fun _ => True) (f q)) (v : Value) :
    Reports S (fun _ => True) (v.mapM f) := by
  cases v with
  | scalar q => exact (hf q).bind fun _ _ _ => reports_done
  | array qs => exact (reports_mapM hf qs).bind fun _ _ _ => reports_done

theorem reduce_reports (h : S span) (f : List Float → Float) (args : List Value) :
    Reports S (fun _ => True) (reduce span f args) := by
  unfold reduce
  split
  · exact reports_fail h
  · split
    · exact reports_fail h
    · exact reports_done

theorem applyBuiltin_reports (h : S span) (b : Builtin) (args : List Value) :
    Reports S (fun _ => True) (applyBuiltin b span args) := by
  unfold applyBuiltin
  split
  case h_1 | h_7 | h_8 | h_9 | h_10 | h_11 => exact reports_done
  case h_2 | h_3 | h_4 | h_5 => exact reduce_reports h _ _
  case h_6 =>
    refine valueMapM_reports (fun q => ?_) _
    unfold squareRoot
    split
    · exact reports_done
    · exact reports_fail h
  case h_12 =>
    refine valueMapM_reports (fun q => ?_) _
    unfold transcendental
    split
    · exact reports_done
    · exact reports_fail h
  case h_13 => exact reports_fail h

/-! ## Names and calls -/

theorem unitQuantity_reports (h : S span) (text : String) :
    Reports S (fun _ => True) (unitQuantity env span text) := by
  unfold unitQuantity
  split
  · exact reports_fail h
  · split
    · exact reports_done
    · exact reports_fail h

theorem userFunction_reports (h : S span) (name : Name) (id? : Option SymbolId) :
    Reports S (fun _ => True) (userFunction env span name id?) := by
  have hentry : ∀ e, Reports S (fun _ => True) (userFunction.functionOf span e) := by
    intro e
    unfold userFunction.functionOf
    split
    · exact reports_done
    · exact reports_fail h
  unfold userFunction
  split <;> split
  · exact hentry _
  · exact reports_fail h
  · exact hentry _
  · exact reports_fail h

end Evaluation

end Worksheet
