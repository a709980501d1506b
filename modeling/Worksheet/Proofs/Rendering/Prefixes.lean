import Worksheet.Rendering
/-!
# Choosing a prefix

A value is shown in the units that it has, or with a unit of the same family in the place of the one
above the line.
-/

namespace Worksheet.Rendering

variable {r : Rendering} {v : Value} {units : UnitProduct} {old new : String} {factor : Float}

theorem handySymbol?_eq_some {t : UnitTable} {current : UnitEntry} {size : Float}
    {candidates : List String} (h : handySymbol? t current size candidates = some (new, factor)) :
    new ∈ candidates ∧ ∃ entry, t.lookup new = some entry ∧
      factor = current.scale / entry.scale ∧ isHandy (size * factor) := by
  fun_induction handySymbol? t current size candidates with
  | case1 => cases h
  | case2 candidate others hnone ih => exact (ih h).imp (List.mem_cons_of_mem _) id
  | case3 candidate others entry hentry ratio hhandy =>
    obtain ⟨hnew, hfactor⟩ := Prod.mk.inj (Option.some.inj h)
    rw [← hnew, ← hfactor]
    exact ⟨List.mem_cons_self, entry, hentry, rfl, hhandy⟩
  | case4 candidate others entry hentry ratio hhandy ih =>
    exact (ih h).imp (List.mem_cons_of_mem _) id

/-- A value that counts from zero and is not handy gets a unit of the family that makes it so, in the
place of the one above the line. -/
structure Respells (r : Rendering) (v : Value) (units : UnitProduct) (old new : String)
    (factor : Float) : Prop where
  first : ∃ first, v.first? = some first ∧ first.units = units ∧ (first.offset != 0) = false
  leading : leadingSymbol? units = some old
  size : (largest v == 0 || isHandy (largest v)) = false
  handy : ∃ current, r.table.lookup old = some current ∧
    handySymbol? r.table current (largest v) (r.table.family old) = some (new, factor)

/-- A quantity with its magnitude in other units. -/
def respell (r : Rendering) (units : UnitProduct) (factor : Float) (q : Quantity) : Quantity :=
  (r.table.quantity? (q.magnitude * factor) units).getD q

theorem compact_of_respells (h : r.Respells v units old new factor) :
    r.compact v = v.map (r.respell ((units.div (.unit old)).mul (.unit new)) factor) := by
  obtain ⟨⟨first, hfirst, rfl, hoffset⟩, hleading, hsize, current, hcurrent, hhandy⟩ := h
  simp only [compact, hfirst, hoffset, hleading, hsize, hcurrent, hhandy, Bool.false_eq_true,
    if_false]
  rfl

/-- A value is shown with the prefix it has, or all of it in other units. -/
theorem compact_cases (r : Rendering) (v : Value) :
    r.compact v = v ∨ ∃ units old new factor, r.Respells v units old new factor := by
  cases hfirst : v.first? with
  | none => simp [compact, hfirst]
  | some first =>
    cases hoffset : first.offset != 0 with
    | true => simp [compact, hfirst, hoffset]
    | false =>
      cases hleading : leadingSymbol? first.units with
      | none => simp [compact, hfirst, hleading]
      | some old =>
        cases hsize : largest v == 0 || isHandy (largest v) with
        | true =>
          rw [Bool.or_eq_true] at hsize
          simp [compact, hfirst, hleading, hsize]
        | false =>
          cases hcurrent : r.table.lookup old with
          | none => simp [compact, hfirst, hleading, hcurrent]
          | some current =>
            cases hhandy : handySymbol? r.table current (largest v) (r.table.family old) with
            | none => simp [compact, hfirst, hleading, hcurrent, hhandy]
            | some chosen =>
              exact .inr ⟨first.units, old, chosen.1, chosen.2, ⟨first, hfirst, rfl, hoffset⟩,
                hleading, hsize, current, hcurrent, hhandy⟩

theorem respell_cases (r : Rendering) (units : UnitProduct) (factor : Float) (q : Quantity) :
    r.respell units factor q = q ∨
      r.table.quantity? (q.magnitude * factor) units = some (r.respell units factor q) := by
  unfold respell
  cases r.table.quantity? (q.magnitude * factor) units with
  | none => exact .inl rfl
  | some p => exact .inr rfl

end Worksheet.Rendering
