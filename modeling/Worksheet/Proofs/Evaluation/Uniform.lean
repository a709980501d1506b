import Worksheet.Proofs.Document.Run
import Worksheet.Proofs.Quantity.Arithmetic
/-!
# Uniform arrays

All elements of an array are in the same units, and there is at least one. Most arrays are made so.
Square roots are taken one by one, and there it takes that equal units have equal roots: units that
have a root count from zero, so they are not taken for base units in one element and for themselves
in another.
-/

namespace Worksheet

/-- A scalar, or an array that has elements, all of them in equal units. -/
def Value.IsUniform : Value → Prop
  | .scalar _ => True
  | .array qs => qs ≠ [] ∧ ∀ q ∈ qs, ∀ r ∈ qs, q.units = r.units

namespace Value

theorem isUniform_of_units {qs : List Quantity} {p : UnitProduct} (hne : qs ≠ [])
    (h : ∀ q ∈ qs, q.units = p) : (Value.array qs).IsUniform :=
  ⟨hne, fun q hq r hr => (h q hq).trans (h r hr).symm⟩

/-- What is made an array is in the units of its first element. -/
theorem isUniform_of_ofElements {qs : List Quantity} {v : Value} (h : ofElements qs = .ok v) :
    v.IsUniform := by
  obtain ⟨first, rest, ps, rfl, rfl, ⟨hunits, rfl⟩ | hconverted⟩ := ofElements_eq_ok h
  · exact isUniform_of_units (by simp) hunits
  · refine isUniform_of_units (p := first.units) ?_ fun p hp => ?_
    · rintro rfl
      cases hconverted
    · obtain ⟨q, -, hqp⟩ := exists_of_forall₂ hconverted p hp
      obtain ⟨-, rfl⟩ := Quantity.convertTo?_eq_some hqp
      rfl

/-- Elements that are replaced one by one stay in equal units if equal units are replaced by equal
ones. -/
theorem isUniform_of_forall₂ {R : Quantity → Quantity → Prop} {qs ps : List Quantity}
    (hqs : (Value.array qs).IsUniform) (h : List.Forall₂ R qs ps)
    (hR : ∀ q ∈ qs, ∀ r ∈ qs, q.units = r.units → ∀ p p', R q p → R r p' → p.units = p'.units) :
    (Value.array ps).IsUniform := by
  refine ⟨fun hnil => hqs.1 ?_, fun p hp p' hp' => ?_⟩
  · subst hnil
    exact List.forall₂_nil_right_iff.1 h
  · obtain ⟨q, hq, hqp⟩ := exists_of_forall₂ h p hp
    obtain ⟨r, hr, hrp⟩ := exists_of_forall₂ h p' hp'
    exact hR q hq r hr (hqs.2 q hq r hr) p p' hqp hrp

theorem IsUniform.map {v : Value} {f : Quantity → Quantity} (hv : v.IsUniform)
    (hf : ∀ q, (f q).units = q.units) : (v.map f).IsUniform := by
  cases v with
  | scalar q => trivial
  | array qs =>
    refine ⟨by simpa using hv.1, fun p hp p' hp' => ?_⟩
    obtain ⟨q, hq, rfl⟩ := List.mem_map.1 hp
    obtain ⟨r, hr, rfl⟩ := List.mem_map.1 hp'
    rw [hf, hf]
    exact hv.2 q hq r hr

end Value

/-! ## Roots -/

namespace Quantity

/-- The quantity counts from zero, or carries what the table says of its units. -/
def Tabled (t : UnitTable) (q : Quantity) : Prop :=
  q.offset = 0 ∨ t.measure? q.units = some (q.dimension, q.scale) ∧ q.offset = t.offsetOf q.units

variable {t : UnitTable} {q r p p' : Quantity}

theorem invariant_tabled (t : UnitTable) : Quantity.Invariant t (Tabled t) where
  number _ := .inl rfl
  unit := by
    intro text units q _ hq
    obtain ⟨hmeasure, -, rfl, hoffset⟩ := UnitTable.quantity?_eq_some hq
    exact .inr ⟨hmeasure, hoffset⟩
  withMagnitude _ _ hq := hq
  toBase _ := .inl rfl
  mul := by
    intro q r p hq hr h
    rcases mul?_eq_some h with ⟨-, rfl⟩ | ⟨-, rfl⟩ | ⟨-, -, -, -, hoffset⟩
    · exact hr
    · exact hq
    · exact .inl hoffset
  div := by
    intro q r p hq hr h
    rcases div?_eq_some h with ⟨-, rfl⟩ | ⟨-, -, -, hoffset⟩
    · exact hq
    · exact .inl hoffset
  pow _ _ h := .inl (pow?_eq_some h).2.2

/-- What does not count from zero is in a single unit. -/
theorem Tabled.factors (hq : q.Tabled t) (hoffset : (q.offset == 0) = false) :
    t.measure? q.units = some (q.dimension, q.scale) ∧
      ∃ symbol, q.units.factors = [(symbol, 1)] := by
  rcases hq with hzero | ⟨hmeasure, hunits⟩
  · rw [hzero] at hoffset
    exact absurd hoffset (by decide)
  · refine ⟨hmeasure, ?_⟩
    rw [hunits, UnitTable.offsetOf] at hoffset
    split at hoffset
    · rename_i symbol hfactors
      exact ⟨symbol, hfactors⟩
    · exact absurd hoffset (by decide)

/-- A single unit has no square root. -/
theorem scale?_half_eq_none {units : UnitProduct} {symbol : String}
    (h : units.factors = [(symbol, 1)]) : units.scale? 0.5 = none := by
  have hnumber : ¬(Float.ofInt 1 * 0.5).isNaN := by decide
  have hwhole : UnitProduct.wholeExponent? (Float.ofInt 1 * 0.5) = none := by decide
  rw [UnitProduct.scale?, h, List.foldlM_cons]
  dsimp only
  rw [if_neg hnumber, hwhole]
  rfl

/-- Equal units have equal square roots: if one of the quantities is taken for base units, its
units have an offset, and so they stand alone and the other one has no root. -/
theorem root_units (hq : q.Tabled t) (hr : r.Tabled t) (hunits : q.units = r.units)
    (hp : q.pow? 0.5 = some p) (hp' : r.pow? 0.5 = some p') : p.units = p'.units := by
  have hroot := (pow?_eq_some hp).1
  have hroot' := (pow?_eq_some hp').1
  unfold withoutOffset at hroot hroot'
  cases hoffset : q.offset == 0 with
  | true =>
    rw [if_pos hoffset] at hroot
    cases hoffset' : r.offset == 0 with
    | true =>
      rw [if_pos hoffset', ← hunits] at hroot'
      exact Option.some.inj (hroot.symm.trans hroot')
    | false =>
      obtain ⟨-, symbol, hfactors⟩ := hr.factors hoffset'
      rw [hunits, scale?_half_eq_none hfactors] at hroot
      cases hroot
  | false =>
    obtain ⟨hmeasure, symbol, hfactors⟩ := hq.factors hoffset
    cases hoffset' : r.offset == 0 with
    | true =>
      rw [if_pos hoffset', ← hunits, scale?_half_eq_none hfactors] at hroot'
      cases hroot'
    | false =>
      have hmeasure' := (hr.factors hoffset').1
      rw [← hunits, hmeasure] at hmeasure'
      have hdimension : q.dimension = r.dimension :=
        (Prod.mk.inj (Option.some.inj hmeasure')).1
      rw [if_neg (by simp [hoffset]), toBase_units, hdimension] at hroot
      rw [if_neg (by simp [hoffset']), toBase_units] at hroot'
      exact Option.some.inj (hroot.symm.trans hroot')

end Quantity

/-! ## Evaluation -/

namespace Evaluation

open Value

variable {env : Environment} {span : Span} {v w : Value}

theorem finite_uniform (hv : v.IsUniform) : Keeps IsUniform (v.finite span) := by
  unfold Value.finite
  split
  · exact keeps_pure hv
  · exact keeps_fail

theorem arrayOf_uniform (qs : List Quantity) : Keeps IsUniform (arrayOf span qs) := by
  unfold arrayOf
  split
  · rename_i v hv
    exact keeps_pure (isUniform_of_ofElements hv)
  · exact keeps_fail

theorem broadcast_uniform (f : Quantity → Quantity → Eval Quantity) :
    Keeps IsUniform (broadcast span f v w) := by
  cases v with
  | scalar q =>
    cases w with
    | scalar r => exact (keeps_any (f q r)).bind fun _ _ => keeps_pure trivial
    | array rs => exact (keeps_any (rs.mapM _)).bind fun ps _ => arrayOf_uniform ps
  | array qs =>
    cases w with
    | scalar r => exact (keeps_any (qs.mapM _)).bind fun ps _ => arrayOf_uniform ps
    | array rs =>
      change Keeps IsUniform (if qs.length = rs.length then _ else _)
      split
      · exact (keeps_any ((qs.zip rs).mapM _)).bind fun ps _ => arrayOf_uniform ps
      · exact keeps_fail

theorem element_uniform {positionSpan : Span} {base position : Value} :
    Keeps IsUniform (element span positionSpan base position) := by
  cases base with
  | scalar q => exact keeps_fail
  | array elements =>
    simp only [element]
    split
    · exact keeps_fail
    · split
      · exact keeps_pure trivial
      · exact keeps_fail

/-- The results of a function keep to equal units if equal units go to equal units. -/
theorem mapM_uniform {R : Quantity → Quantity → Prop} {f : Quantity → Eval Quantity}
    (hv : v.IsUniform) (hf : ∀ q, Keeps (R q) (f q))
    (hR : ∀ q ∈ v.quantities, ∀ r ∈ v.quantities, q.units = r.units →
      ∀ p p', R q p → R r p' → p.units = p'.units) :
    Keeps IsUniform (v.mapM f) := by
  cases v with
  | scalar q => exact (hf q).bind fun _ _ => keeps_pure trivial
  | array qs =>
    apply (Eval.ensures_mapM_forall₂ fun q _ => hf q).bind
    intro ps hps
    exact keeps_pure (isUniform_of_forall₂ hv hps hR)

theorem squareRoot_keeps (q : Quantity) :
    Keeps (fun p => q.pow? 0.5 = some p) (squareRoot span q) := by
  unfold squareRoot
  split
  · rename_i root hroot
    exact keeps_pure hroot
  · exact keeps_fail

theorem transcendental_units (b : Builtin) (q : Quantity) :
    Keeps (fun p => p.units = .one) (transcendental b span q) := by
  unfold transcendental
  split
  · exact keeps_pure rfl
  · exact keeps_fail

theorem reduce_uniform {f : List Float → Float} {args : List Value} :
    Keeps IsUniform (reduce span f args) := by
  unfold reduce
  split
  · exact keeps_fail
  · split
    · exact keeps_fail
    · exact keeps_pure trivial

theorem applyBuiltin_uniform {t : UnitTable} {b : Builtin} {args : List Value}
    (hargs : ∀ a ∈ args, a.IsUniform ∧ a.All (Quantity.Tabled t)) :
    Keeps IsUniform (applyBuiltin b span args) := by
  have hmagnitude : ∀ f : Float → Float, ∀ a ∈ args, Keeps IsUniform (pure (mapMagnitude f a)) :=
    fun f a ha => keeps_pure ((hargs a ha).1.map fun q => rfl)
  unfold applyBuiltin
  split
  case h_1 => exact keeps_pure trivial
  case h_2 | h_3 | h_4 | h_5 => exact reduce_uniform
  case h_6 =>
    rename_i v vs
    obtain ⟨huniform, htabled⟩ := hargs v List.mem_cons_self
    refine mapM_uniform huniform squareRoot_keeps ?_
    intro q hq r hr hunits p p'
    exact Quantity.root_units (htabled q hq) (htabled r hr) hunits
  case h_7 | h_8 | h_9 | h_10 => exact hmagnitude _ _ List.mem_cons_self
  case h_11 => exact keeps_pure trivial
  case h_12 =>
    refine mapM_uniform (hargs _ List.mem_cons_self).1 (transcendental_units b) ?_
    intro q _ r _ _ p p' hp hp'
    exact hp.trans hp'.symm
  case h_13 => exact keeps_fail

/-- Arrays stay uniform as long as their quantities have the offsets that the table says. -/
theorem law_uniform (henv : env.Invariant (Quantity.Tabled env.table)) :
    Law env fun v => v.IsUniform ∧ v.All (Quantity.Tabled env.table) where
  number span x v h :=
    have huniform : (Value.number x).IsUniform := trivial
    ⟨(finite_uniform huniform).of_ok h, (law_all henv).number span x v h⟩
  unit span text q h := ⟨trivial, (law_all henv).unit span text q h⟩
  element span positionSpan base position v hbase h :=
    ⟨element_uniform.of_ok h, (law_all henv).element span positionSpan base position v hbase.2 h⟩
  neg v hv := ⟨hv.1.map fun _ => rfl, (law_all henv).neg v hv.2⟩
  binary span op l r v hl hr h :=
    ⟨((broadcast_uniform _).bind fun _ hv => finite_uniform hv).of_ok h,
      (law_all henv).binary span op l r v hl.2 hr.2 h⟩
  builtin b span args v hargs h :=
    ⟨((applyBuiltin_uniform hargs).bind fun _ hv => finite_uniform hv).of_ok h,
      (law_all henv).builtin b span args v (fun a ha => (hargs a ha).2) h⟩

end Evaluation

/-- Where all that is bound is uniform, so is every value. -/
theorem Expr.eval_uniform {env : Environment}
    (hbound : env.registry.Holds fun v => v.IsUniform ∧ v.All (Quantity.Tabled env.table))
    (e : Expr) {v : Value} (h : (e.eval env).result.1 = .ok v) :
    v.IsUniform ∧ v.All (Quantity.Tabled env.table) := by
  have henv : env.Invariant (Quantity.Tabled env.table) := {
    quantity := Quantity.invariant_tabled env.table
    bound := fun entry hentry v source hv => (hbound entry hentry v source hv).2 }
  have hliterals : Evaluation.LiteralsKeep env
      (fun v => v.IsUniform ∧ v.All (Quantity.Tabled env.table)) (Evaluation.root env e) := by
    intro depth locals span elements hvisit qs v hqs hscalars hv
    exact ⟨Value.isUniform_of_ofElements hv, Evaluation.literalsKeep_all henv _ depth locals span
      elements hvisit qs v (fun q hq => (hqs q hq).2) hscalars hv⟩
  exact (Evaluation.valueAt_reports (Evaluation.law_uniform henv) hbound
    (by simp [Evaluation.root]) hliterals).outcome.result h

namespace Document

theorem processEach_uniform {d : Document}
    (hd : d.registry.Holds fun v => v.IsUniform ∧ v.All (Quantity.Tabled d.table))
    (steps : List (String × Option String)) :
    (d.processEach steps).2.registry.Holds
      fun v => v.IsUniform ∧ v.All (Quantity.Tabled d.table) := by
  induction steps generalizing d with
  | nil => exact hd
  | cons step steps ih =>
    have hnext := @process_holds _ _ hd step.1 (fun e v _ => e.eval_uniform hd) step.2
    rw [← process_table d step.1 step.2] at hnext ⊢
    exact ih hnext

/-- With any units and settings, after any statements, every array that is bound has elements, all
of them in equal units, and so has every array that an expression comes to, whatever the settings
are then. -/
theorem uniform_of_processEach (t : UnitTable) (settings : Settings)
    (steps : List (String × Option String)) :
    let last := (({ table := t, settings } : Document).processEach steps).2
    last.registry.Holds Value.IsUniform ∧
      ∀ (later : Settings) (e : Expr) (v : Value),
        (e.eval ⟨t, last.registry, later⟩).result.1 = .ok v → v.IsUniform := by
  intro last
  have hempty : ({ table := t, settings } : Document).registry.Holds
      fun v => v.IsUniform ∧ v.All (Quantity.Tabled t) := nofun
  have hlast : last.registry.Holds fun v => v.IsUniform ∧ v.All (Quantity.Tabled t) :=
    processEach_uniform hempty steps
  refine ⟨fun entry hentry v source hv => (hlast entry hentry v source hv).1, ?_⟩
  intro later e v hv
  have hbound : (Environment.mk t last.registry later).registry.Holds
      fun v => v.IsUniform ∧ v.All (Quantity.Tabled t) := hlast
  exact (e.eval_uniform hbound hv).1

end Document

end Worksheet
