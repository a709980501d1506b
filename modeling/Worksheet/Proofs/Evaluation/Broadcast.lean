import Worksheet.Proofs.Evaluation.Finite
/-!
# Operations on arrays

An operation goes through arrays element by element. Elements that are alike come to results in
equal units, so these are put together as they are, and nothing is converted.
-/

namespace Worksheet

/-! ## Units of results -/

namespace Quantity

/-- What the units of a result depend on is the same. Quantities that share units, dimension, scale
and offset are alike. -/
structure Alike (q r : Quantity) : Prop where
  units : q.units = r.units
  dimension : q.dimension = r.dimension
  fromZero : (q.offset == 0) = (r.offset == 0)

variable {q q' r r' p : Quantity}

theorem Alike.isNumber (h : q.Alike q') : q.isNumber = q'.isNumber := by
  rw [Quantity.isNumber, Quantity.isNumber, h.units]

theorem Alike.sameDimension (hq : q.Alike q') (hr : r.Alike r') :
    q.sameDimension r = q'.sameDimension r' := by
  rw [Quantity.sameDimension, Quantity.sameDimension, hq.dimension, hr.dimension]

theorem Alike.withoutOffset_units (h : q.Alike q') :
    q.withoutOffset.units = q'.withoutOffset.units := by
  unfold withoutOffset
  rw [h.fromZero]
  split
  · exact h.units
  · exact h.dimension

/-- The units that a sum, a difference, a product or a quotient is in, if there is one. A power is
in units that depend on how much the exponent is. -/
def resultUnits? : BinaryOp → Quantity → Quantity → Option UnitProduct
  | .add, q, r | .sub, q, r => some (if q.sameDimension r then q.units else q.dimension)
  | .mul, q, r =>
    if q.isNumber then some r.units
    else if r.isNumber then some q.units
    else q.withoutOffset.units.mul? r.withoutOffset.units
  | .div, q, r =>
    if r.isNumber then some q.units else q.withoutOffset.units.div? r.withoutOffset.units
  | .exp, _, _ => none

theorem Alike.resultUnits? (hq : q.Alike q') (hr : r.Alike r') (op : BinaryOp) :
    resultUnits? op q r = resultUnits? op q' r' := by
  cases op <;>
    simp only [Quantity.resultUnits?, hq.sameDimension hr, hq.units, hq.dimension, hq.isNumber,
      hq.withoutOffset_units, hr.units, hr.isNumber, hr.withoutOffset_units]

theorem mul?_units (h : q.mul? r = some p) : resultUnits? .mul q r = some p.units := by
  rw [Quantity.resultUnits?]
  rcases mul?_eq_some h with ⟨hq, rfl⟩ | ⟨hr, rfl⟩ | ⟨hq, hr, hunits, -⟩
  · rw [if_pos hq]
    rfl
  · split
    · rename_i hq
      rw [mul?, if_pos hq] at h
      exact congrArg (Option.map Quantity.units) h
    · rfl
  · simpa [hq, hr] using hunits

theorem div?_units (h : q.div? r = some p) : resultUnits? .div q r = some p.units := by
  rw [Quantity.resultUnits?]
  rcases div?_eq_some h with ⟨hr, rfl⟩ | ⟨hr, hunits, -⟩
  · rw [if_pos hr]
    rfl
  · simpa [hr] using hunits

end Quantity

namespace Evaluation

open Eval

variable {env : Environment} {span : Span} {q q' r r' p p' : Quantity}

theorem addOrSub_units {verb : String} {combine? : Quantity → Quantity → Option Quantity}
    (hsome : ∀ p, combine? q r = some p → q.sameDimension r = true ∧ p.units = q.units)
    (hnone : combine? q r = none → q.sameDimension r = false)
    (h : (addOrSub env span verb combine? q r).result.1 = .ok p) :
    p.units = if q.sameDimension r then q.units else q.dimension := by
  unfold addOrSub at h
  cases hcombined : combine? q r with
  | some sum =>
    rw [hcombined] at h
    cases h
    obtain ⟨hsame, hunits⟩ := hsome _ hcombined
    rw [if_pos hsame, hunits]
  | none =>
    rw [hcombined] at h
    dsimp only at h
    split at h
    · cases h
    · cases h
      rw [if_neg (by simp [hnone hcombined])]
      rfl

theorem orOverflow_eq_ok {q? : Option Quantity} (h : (orOverflow span q?).result.1 = .ok p) :
    q? = some p := by
  cases q? with
  | some q =>
    cases h
    rfl
  | none => cases h

/-- Whatever the policy, an operation comes to a result in these units if it comes to one. -/
theorem combine_units {op : BinaryOp} (hop : op ≠ .exp)
    (h : (combine env span op q r).result.1 = .ok p) :
    Quantity.resultUnits? op q r = some p.units := by
  cases op with
  | add =>
    refine congrArg some (addOrSub_units ?_ ?_ h).symm
    · intro p hp
      obtain ⟨hsame, rfl⟩ := Quantity.add?_eq_some hp
      exact ⟨decide_eq_true hsame, rfl⟩
    · intro hp
      simpa [Quantity.add?] using hp
  | sub =>
    refine congrArg some (addOrSub_units ?_ ?_ h).symm
    · intro p hp
      obtain ⟨hsame, rfl⟩ := Quantity.sub?_eq_some hp
      exact ⟨decide_eq_true hsame, rfl⟩
    · intro hp
      simpa [Quantity.sub?] using hp
  | mul => exact Quantity.mul?_units (orOverflow_eq_ok h)
  | div =>
    change (divide span q r).result.1 = .ok p at h
    unfold divide at h
    split at h
    · cases h
    · exact Quantity.div?_units (orOverflow_eq_ok h)
  | exp => exact absurd rfl hop

end Evaluation

/-! ## Elements taken together -/

namespace Value

/-- A scalar, or an array that has elements, all of them alike. -/
def IsAlike : Value → Prop
  | .scalar _ => True
  | .array qs => qs ≠ [] ∧ ∀ q ∈ qs, ∀ r ∈ qs, q.Alike r

/-- The quantities that an operation takes together, if the lengths go together. -/
def pairs? : Value → Value → Option (List (Quantity × Quantity))
  | .scalar q, .scalar r => some [(q, r)]
  | .array qs, .scalar r => some (qs.map fun q => (q, r))
  | .scalar q, .array rs => some (rs.map fun r => (q, r))
  | .array qs, .array rs => if qs.length = rs.length then some (qs.zip rs) else none

variable {v : Value}

theorem IsAlike.alike (h : v.IsAlike) : ∀ q ∈ v.quantities, ∀ r ∈ v.quantities, q.Alike r := by
  cases v with
  | scalar q =>
    intro q' hq r hr
    rw [List.mem_singleton.1 hq, List.mem_singleton.1 hr]
    exact ⟨rfl, rfl, rfl⟩
  | array qs => exact h.2

end Value

namespace Eval

/-- Computations for all elements come to results exactly if each one comes to its own. -/
theorem mapM_result_eq_ok {α β : Type} {f : α → Eval β} (hf : ∀ a, Steady (f a)) {as : List α}
    {bs : List β} :
    (as.mapM f).result.1 = .ok bs ↔ List.Forall₂ (fun a b => (f a).result.1 = .ok b) as bs := by
  have hsteady : ∀ as : List α, Steady (as.mapM f) := reports_mapM hf
  induction as generalizing bs with
  | nil =>
    rw [List.mapM_nil, List.forall₂_nil_left_iff]
    exact ⟨fun h => (Except.ok.inj h).symm, fun h => h ▸ rfl⟩
  | cons a as ih =>
    have hjoined : ∀ b, Steady (as.mapM f >>= fun bs => pure (b :: bs)) :=
      fun b => (hsteady as).bind fun _ => reports_done
    rw [List.mapM_cons, (hf a).result_bind hjoined, bind_eq_ok, List.forall₂_cons_left_iff]
    refine exists_congr fun b => ?_
    rw [(hsteady as).result_bind fun _ => reports_done, bind_eq_ok]
    constructor
    · rintro ⟨hb, later, hlater, hbs⟩
      exact ⟨later, hb, ih.1 hlater, (Except.ok.inj hbs).symm⟩
    · rintro ⟨later, hb, hlater, rfl⟩
      exact ⟨hb, later, ih.2 hlater, rfl⟩

end Eval

namespace Evaluation

open Eval

/-- Elements in equal units are put together as they are. -/
theorem arrayOf_of_units {span : Span} {qs : List Quantity} (hne : qs ≠ [])
    (hunits : ∀ q ∈ qs, ∀ r ∈ qs, q.units = r.units) : arrayOf span qs = pure (.array qs) := by
  cases qs with
  | nil => exact absurd rfl hne
  | cons first rest =>
    have hall : (rest.all fun q => q.units = first.units) = true := by
      rw [List.all_eq_true]
      intro q hq
      exact decide_eq_true (hunits q (List.mem_cons_of_mem _ hq) first List.mem_cons_self)
    rw [arrayOf, Value.ofElements, if_pos hall]

/-- An array that is computed element by element holds exactly what the elements come to, if that
is in equal units. -/
theorem mapM_arrayOf_eq_ok {α : Type} {span : Span} {f : α → Eval Quantity} (hf : ∀ a, Steady (f a))
    {as : List α} (hne : as ≠ [])
    (hunits : ∀ a ∈ as, ∀ b ∈ as, ∀ p p', (f a).result.1 = .ok p → (f b).result.1 = .ok p' →
      p.units = p'.units) {z : Value} :
    (as.mapM f >>= arrayOf span).result.1 = .ok z ↔
      z.isArray = true ∧ List.Forall₂ (fun a p => (f a).result.1 = .ok p) as z.quantities := by
  have harray : ∀ ps, List.Forall₂ (fun a p => (f a).result.1 = .ok p) as ps →
      arrayOf span ps = pure (.array ps) := by
    intro ps hps
    refine arrayOf_of_units ?_ fun p hp p' hp' => ?_
    · rintro rfl
      exact hne (List.forall₂_nil_right_iff.1 hps)
    · obtain ⟨a, ha, hap⟩ := exists_of_forall₂ hps p hp
      obtain ⟨b, hb, hbp⟩ := exists_of_forall₂ hps p' hp'
      exact hunits a ha b hb p p' hap hbp
  have hsteady : Steady (as.mapM f) := reports_mapM hf as
  rw [hsteady.result_bind fun ps => arrayOf_reports trivial ps, bind_eq_ok]
  constructor
  · rintro ⟨ps, hps, hz⟩
    have hps' := (mapM_result_eq_ok hf).1 hps
    rw [harray ps hps'] at hz
    cases hz
    exact ⟨rfl, hps'⟩
  · rintro ⟨hz, hps⟩
    cases z with
    | scalar q => cases hz
    | array ps =>
      refine ⟨ps, (mapM_result_eq_ok hf).2 hps, ?_⟩
      rw [harray ps hps]
      rfl

/-- Two values go together exactly if their quantities can be paired, and then the result holds
what the pairs come to, in their order. -/
theorem broadcast_eq_ok {span : Span} {f : Quantity → Quantity → Eval Quantity}
    (hf : ∀ q r, Steady (f q r)) {v w : Value} (hv : v.IsAlike) (hw : w.IsAlike)
    (hunits : ∀ q q' r r' : Quantity, q.Alike q' → r.Alike r' → ∀ p p',
      (f q r).result.1 = .ok p → (f q' r').result.1 = .ok p' → p.units = p'.units) {z : Value} :
    (broadcast span f v w).result.1 = .ok z ↔
      z.isArray = (v.isArray || w.isArray) ∧ ∃ pairs, v.pairs? w = some pairs ∧
        List.Forall₂ (fun pair p => (f pair.1 pair.2).result.1 = .ok p) pairs z.quantities := by
  have hpairs : ∀ q ∈ v.quantities, ∀ q' ∈ v.quantities, ∀ r ∈ w.quantities,
      ∀ r' ∈ w.quantities, ∀ p p', (f q r).result.1 = .ok p → (f q' r').result.1 = .ok p' →
        p.units = p'.units :=
    fun q hq q' hq' r hr r' hr' => hunits q q' r r' (hv.alike q hq q' hq') (hw.alike r hr r' hr')
  cases v with
  | scalar q =>
    have hq : q ∈ (Value.scalar q).quantities := List.mem_cons_self
    cases w with
    | scalar r =>
      change (f q r >>= fun p => pure (.scalar p)).result.1 = .ok z ↔ _
      rw [(hf q r).result_bind fun _ => reports_done, bind_eq_ok]
      constructor
      · rintro ⟨p, hp, hz⟩
        cases hz
        exact ⟨rfl, _, rfl, .cons hp .nil⟩
      · rintro ⟨hz, pairs, hpairs, hps⟩
        cases z with
        | scalar p =>
          cases hpairs
          obtain ⟨hp, -⟩ := List.forall₂_cons.1 hps
          exact ⟨p, hp, rfl⟩
        | array ps => cases hz
    | array rs =>
      change (rs.mapM (f q) >>= arrayOf span).result.1 = .ok z ↔ _
      rw [mapM_arrayOf_eq_ok (hf q) hw.1 fun r hr r' hr' => hpairs q hq q hq r hr r' hr']
      simp [Value.pairs?, Value.isArray]
  | array qs =>
    cases w with
    | scalar r =>
      have hr : r ∈ (Value.scalar r).quantities := List.mem_cons_self
      change (qs.mapM (fun q => f q r) >>= arrayOf span).result.1 = .ok z ↔ _
      rw [mapM_arrayOf_eq_ok (fun q => hf q r) hv.1
        fun q hq q' hq' => hpairs q hq q' hq' r hr r hr]
      simp [Value.pairs?, Value.isArray]
    | array rs =>
      change (if qs.length = rs.length then _ else _ : Eval Value).result.1 = .ok z ↔ _
      by_cases hlength : qs.length = rs.length
      · have hne : qs.zip rs ≠ [] := by
          have hqs := List.length_pos_of_ne_nil hv.1
          have hzip : (qs.zip rs).length = qs.length := by simp [hlength]
          exact List.ne_nil_of_length_pos (hzip ▸ hqs)
        rw [if_pos hlength, mapM_arrayOf_eq_ok (fun pair => hf pair.1 pair.2) hne]
        · simp [Value.pairs?, Value.isArray, hlength]
        · intro pair hpair pair' hpair'
          obtain ⟨hq, hr⟩ := List.of_mem_zip hpair
          obtain ⟨hq', hr'⟩ := List.of_mem_zip hpair'
          exact hpairs _ hq _ hq' _ hr _ hr'
      · rw [if_neg hlength]
        simp only [Value.pairs?, if_neg hlength]
        constructor
        · rintro ⟨⟩
        · rintro ⟨-, _, ⟨⟩, -⟩

theorem combine_alike {env : Environment} {span : Span} {op : BinaryOp} (hop : op ≠ .exp)
    {q q' r r' : Quantity} (hq : q.Alike q') (hr : r.Alike r') (p p' : Quantity)
    (hp : (combine env span op q r).result.1 = .ok p)
    (hp' : (combine env span op q' r').result.1 = .ok p') : p.units = p'.units := by
  have hunits := combine_units hop hp
  rw [hq.resultUnits? hr, combine_units hop hp'] at hunits
  exact (Option.some.inj hunits).symm

theorem check_eq_ok {v z : Value} {span : Span} : check v span = .ok z ↔ v = z ∧ z.IsFinite := by
  unfold check
  split
  · rename_i hv
    exact ⟨fun h => Except.ok.inj h ▸ ⟨rfl, hv⟩, fun h => congrArg _ h.1⟩
  · rename_i hv
    exact ⟨nofun, fun h => absurd h.2 (h.1 ▸ hv)⟩

theorem exists_forall₂ {α β : Type} {R : α → β → Prop} {as : List α} (h : ∀ a ∈ as, ∃ b, R a b) :
    ∃ bs, List.Forall₂ R as bs := by
  induction as with
  | nil => exact ⟨[], .nil⟩
  | cons a as ih =>
    obtain ⟨⟨b, hb⟩, hothers⟩ := List.forall_mem_cons.1 h
    obtain ⟨bs, hbs⟩ := ih hothers
    exact ⟨b :: bs, .cons hb hbs⟩

/-- One quantity for each pair makes a value. -/
theorem exists_value {v w : Value} {pairs : List (Quantity × Quantity)} {ps : List Quantity}
    (hpairs : v.pairs? w = some pairs) (hlength : pairs.length = ps.length) :
    ∃ z : Value, z.isArray = (v.isArray || w.isArray) ∧ z.quantities = ps := by
  cases harray : v.isArray || w.isArray with
  | true => exact ⟨.array ps, rfl, rfl⟩
  | false =>
    cases v <;> cases w <;> cases harray
    cases hpairs
    obtain ⟨p, rfl⟩ := List.length_eq_one_iff.1 hlength.symm
    exact ⟨.scalar p, rfl, rfl⟩

section

variable {env : Environment} {enter : Enter} {locals : List Value} {span : Span} {op : BinaryOp}
  {left right : Expr} {before between after : List Diagnostic} {v w : Value}

/-- An operation goes on with the values of its sides. -/
theorem run_binary (span : Span) (op : BinaryOp)
    (hleft : (value env enter locals left).run.run before = (.ok v, between))
    (hright : (value env enter locals right).run.run between = (.ok w, after)) :
    (value env enter locals (.binary span op left right)).run.run before =
      (broadcast span (combine env span op) v w >>= fun z => z.finite span).run.run after := by
  rw [value, run_bind, hleft]
  dsimp only
  rw [run_bind, hright]

/-- A result is what the pairs come to, and finite. -/
theorem binary_eq_ok (hop : op ≠ .exp)
    (hleft : (value env enter locals left).run.run before = (.ok v, between))
    (hright : (value env enter locals right).run.run between = (.ok w, after))
    (hv : v.IsAlike) (hw : w.IsAlike) {z : Value} :
    ((value env enter locals (.binary span op left right)).run.run before).1 = .ok z ↔
      (z.isArray = (v.isArray || w.isArray) ∧ ∃ pairs, v.pairs? w = some pairs ∧
        List.Forall₂ (fun pair p => (combine env span op pair.1 pair.2).result.1 = .ok p) pairs
          z.quantities) ∧
      z.IsFinite := by
  have hcombined : Steady (broadcast span (combine env span op) v w) :=
    broadcast_reports trivial (combine_reports trivial op) v w
  obtain ⟨_, hsame, -⟩ := (hcombined.bind fun z => finite_steady z span).run after
  have hresult : ((value env enter locals (.binary span op left right)).run.run before).1 =
      (broadcast span (combine env span op) v w).result.1 >>= fun z => check z span :=
    (congrArg Prod.fst ((run_binary span op hleft hright).trans hsame)).trans
      (checked_result hcombined span)
  rw [hresult, bind_eq_ok, ← broadcast_eq_ok (combine_reports trivial op) hv hw
    fun _ _ _ _ => combine_alike hop]
  constructor
  · rintro ⟨z', hz', hcheck⟩
    obtain ⟨rfl, hfinite⟩ := check_eq_ok.1 hcheck
    exact ⟨hz', hfinite⟩
  · rintro ⟨hz, hfinite⟩
    exact ⟨z, hz, check_eq_ok.2 ⟨rfl, hfinite⟩⟩

/-- A sum, a difference, a product or a quotient of values whose arrays have elements that are all
alike is taken element by element, under either policy. There is one exactly if the lengths go
together and each pair of elements has a finite one, and then it holds exactly what the pairs come
to, in their order. Where the lengths differ it is an error, and there is no further warning. -/
theorem binary_pointwise (hop : op ≠ .exp)
    (hleft : (value env enter locals left).run.run before = (.ok v, between))
    (hright : (value env enter locals right).run.run between = (.ok w, after))
    (hv : v.IsAlike) (hw : w.IsAlike) :
    let run := (value env enter locals (.binary span op left right)).run.run before
    let ComesTo (pair : Quantity × Quantity) (p : Quantity) :=
      (combine env span op pair.1 pair.2).result.1 = .ok p
    ((∃ z, run.1 = .ok z) ↔
      ∃ pairs, v.pairs? w = some pairs ∧ ∀ pair ∈ pairs, ∃ p, ComesTo pair p ∧ p.IsFinite) ∧
    (∀ z, run.1 = .ok z ↔
      (z.isArray = (v.isArray || w.isArray) ∧
        ∃ pairs, v.pairs? w = some pairs ∧ List.Forall₂ ComesTo pairs z.quantities) ∧
      z.IsFinite) ∧
    ∀ qs rs, v = .array qs → w = .array rs → qs.length ≠ rs.length →
      run = (.error ⟨.arrayLengthMismatch, span,
        some (toString qs.length ++ " and " ++ toString rs.length ++ " elements")⟩, after) := by
  intro run ComesTo
  have hvalue : ∀ z, run.1 = .ok z ↔
      (z.isArray = (v.isArray || w.isArray) ∧
        ∃ pairs, v.pairs? w = some pairs ∧ List.Forall₂ ComesTo pairs z.quantities) ∧
      z.IsFinite := fun z => binary_eq_ok hop hleft hright hv hw
  refine ⟨?_, hvalue, ?_⟩
  · constructor
    · rintro ⟨z, hz⟩
      obtain ⟨⟨-, pairs, hpairs, hps⟩, hfinite⟩ := (hvalue z).1 hz
      refine ⟨pairs, hpairs, fun pair hpair => ?_⟩
      obtain ⟨p, hp, hcomes⟩ := exists_of_forall₂ hps.flip pair hpair
      exact ⟨p, hcomes, hfinite p hp⟩
    · rintro ⟨pairs, hpairs, hps⟩
      obtain ⟨ps, hps⟩ := exists_forall₂ hps
      obtain ⟨z, hz, rfl⟩ := exists_value hpairs hps.length_eq
      refine ⟨z, (hvalue z).2 ⟨⟨hz, pairs, hpairs, hps.imp fun _ _ => And.left⟩, fun p hp => ?_⟩⟩
      obtain ⟨pair, -, -, hfinite⟩ := exists_of_forall₂ hps p hp
      exact hfinite
  · rintro qs rs rfl rfl hlength
    refine (run_binary span op hleft hright).trans ?_
    rw [broadcast, if_neg hlength]
    rfl

end

/-- So many seconds. -/
def seconds (x : Float) : Quantity := ⟨x, .unit "s", .unit "s", 1, 0⟩

theorem isAlike_seconds {xs : List Float} (h : xs ≠ []) :
    (Value.array (xs.map seconds)).IsAlike := by
  refine ⟨by simpa using h, fun q hq r hr => ?_⟩
  obtain ⟨x, -, rfl⟩ := List.mem_map.1 hq
  obtain ⟨y, -, rfl⟩ := List.mem_map.1 hr
  exact ⟨rfl, rfl, rfl⟩

/-- Ten seconds are added to each of two times. -/
theorem binary_pointwise_seconds :
    let env : Environment := { table := {}, registry := {}, settings := {} }
    let times : Value := .array ([1, 2].map seconds)
    let locals := [times, .scalar (seconds 10)]
    let sum : Expr := .binary ⟨0, 5⟩ .add (.var ⟨0, 1⟩ ⟨"x"⟩ (.parameter 0))
      (.var ⟨4, 5⟩ ⟨"y"⟩ (.parameter 1))
    ((value env none locals sum).run.run []).1 = .ok (.array ([11, 12].map seconds)) := by
  intro env times locals sum
  have hleft : (value env none locals (.var ⟨0, 1⟩ ⟨"x"⟩ (.parameter 0))).run.run [] =
      (.ok times, []) := rfl
  have hright : (value env none locals (.var ⟨4, 5⟩ ⟨"y"⟩ (.parameter 1))).run.run [] =
      (.ok (.scalar (seconds 10)), []) := rfl
  have halike : times.IsAlike := isAlike_seconds (by simp)
  obtain ⟨-, hvalue, -⟩ := @binary_pointwise env none locals ⟨0, 5⟩ .add _ _ _ _ _ _ _ (by decide)
    hleft hright halike trivial
  refine (hvalue _).2 ⟨⟨rfl, _, rfl, ?_⟩, by decide +kernel⟩
  exact .cons (by decide +kernel) (.cons (by decide +kernel) .nil)

end Evaluation

end Worksheet
