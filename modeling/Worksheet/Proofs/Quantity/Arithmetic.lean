import Worksheet.UnitTable.Basic
/-!
# Arithmetic of quantities

What products, quotients, powers and conversions can come to, said once for each, and what they
leave as it was.
-/

namespace Worksheet

namespace Quantity

variable {q r p : Quantity}

@[simp] theorem withMagnitude_units (q : Quantity) (x : Float) :
    (q.withMagnitude x).units = q.units := rfl

@[simp] theorem withMagnitude_dimension (q : Quantity) (x : Float) :
    (q.withMagnitude x).dimension = q.dimension := rfl

@[simp] theorem withMagnitude_offset (q : Quantity) (x : Float) :
    (q.withMagnitude x).offset = q.offset := rfl

@[simp] theorem toBase_units (q : Quantity) : q.toBase.units = q.dimension := rfl

@[simp] theorem toBase_dimension (q : Quantity) : q.toBase.dimension = q.dimension := rfl

@[simp] theorem toBase_offset (q : Quantity) : q.toBase.offset = 0 := rfl

/-- What a quantity is taken for in a product: itself, or the same in base units. -/
theorem withoutOffset_cases (q : Quantity) : q.withoutOffset = q ∨ q.withoutOffset = q.toBase := by
  unfold withoutOffset
  split
  · exact .inl rfl
  · exact .inr rfl

/-- A sum, a difference or a conversion keeps everything but the magnitude of one side. -/
theorem add?_eq_some (h : q.add? r = some p) :
    q.dimension = r.dimension ∧ p = q.withMagnitude (q.magnitude + q.addend r) := by
  unfold add? at h
  split at h
  · rename_i hsame
    cases h
    exact ⟨by simpa [sameDimension] using hsame, rfl⟩
  · cases h

theorem sub?_eq_some (h : q.sub? r = some p) :
    q.dimension = r.dimension ∧ p = q.withMagnitude (q.magnitude - q.addend r) := by
  unfold sub? at h
  split at h
  · rename_i hsame
    cases h
    exact ⟨by simpa [sameDimension] using hsame, rfl⟩
  · cases h

theorem convertTo?_eq_some {target : Quantity} (h : q.convertTo? target = some p) :
    q.dimension = target.dimension ∧
      p = target.withMagnitude (q.toSi / target.scale - target.offset) := by
  unfold convertTo? at h
  split at h
  · rename_i hsame
    cases h
    exact ⟨by simpa [sameDimension] using hsame, rfl⟩
  · cases h

/-- A product with a bare number keeps the units of the other side; any other one multiplies units
and dimensions, and counts from zero. -/
theorem mul?_eq_some (h : q.mul? r = some p) :
    (q.isNumber = true ∧ p = r.withMagnitude (q.magnitude * r.magnitude)) ∨
    (r.isNumber = true ∧ p = q.withMagnitude (q.magnitude * r.magnitude)) ∨
    (q.isNumber = false ∧ r.isNumber = false ∧
      q.withoutOffset.units.mul? r.withoutOffset.units = some p.units ∧
      q.withoutOffset.dimension.mul? r.withoutOffset.dimension = some p.dimension ∧
      p.offset = 0) := by
  unfold mul? at h
  split at h
  · rename_i hq
    cases h
    exact .inl ⟨hq, rfl⟩
  · rename_i hq
    split at h
    · rename_i hr
      cases h
      exact .inr (.inl ⟨hr, rfl⟩)
    · rename_i hr
      obtain ⟨units, hunits, h⟩ := Option.bind_eq_some_iff.1 h
      obtain ⟨dimension, hdimension, h⟩ := Option.bind_eq_some_iff.1 h
      cases h
      exact .inr (.inr ⟨by simpa using hq, by simpa using hr, hunits, hdimension, rfl⟩)

theorem div?_eq_some (h : q.div? r = some p) :
    (r.isNumber = true ∧ p = q.withMagnitude (q.magnitude / r.magnitude)) ∨
    (r.isNumber = false ∧
      q.withoutOffset.units.div? r.withoutOffset.units = some p.units ∧
      q.withoutOffset.dimension.div? r.withoutOffset.dimension = some p.dimension ∧
      p.offset = 0) := by
  unfold div? at h
  split at h
  · rename_i hr
    cases h
    exact .inl ⟨hr, rfl⟩
  · rename_i hr
    obtain ⟨units, hunits, h⟩ := Option.bind_eq_some_iff.1 h
    obtain ⟨dimension, hdimension, h⟩ := Option.bind_eq_some_iff.1 h
    cases h
    exact .inr ⟨by simpa using hr, hunits, hdimension, rfl⟩

theorem pow?_eq_some {power : Float} (h : q.pow? power = some p) :
    q.withoutOffset.units.scale? power = some p.units ∧
      q.withoutOffset.dimension.scale? power = some p.dimension ∧ p.offset = 0 := by
  obtain ⟨units, hunits, h⟩ := Option.bind_eq_some_iff.1 h
  obtain ⟨dimension, hdimension, h⟩ := Option.bind_eq_some_iff.1 h
  cases h
  exact ⟨hunits, hdimension, rfl⟩

end Quantity

/-- A quantity that a table makes is in the units asked for, with their offset. -/
theorem UnitTable.quantity?_eq_some {t : UnitTable} {x : Float} {units : UnitProduct}
    {q : Quantity} (h : t.quantity? x units = some q) :
    t.measure? units = some (q.dimension, q.scale) ∧ q.magnitude = x ∧ q.units = units ∧
      q.offset = t.offsetOf units := by
  obtain ⟨⟨dimension, scale⟩, hmeasure, h⟩ := Option.bind_eq_some_iff.1 h
  cases h
  exact ⟨hmeasure, rfl, rfl, rfl⟩

end Worksheet
