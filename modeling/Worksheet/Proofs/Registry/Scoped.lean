import Worksheet.Proofs.Expr.Scoped
import Worksheet.Proofs.Registry.Integrity
/-!
# Scoped registries

Names are never unbound, so what a body refers to stays where it was when the body was read,
whatever the name is bound to by now.
-/

namespace Worksheet

/-- The entry has its place, and so has everything that its body refers to. -/
structure Entry.Scoped (size : Nat) (e : Entry) : Prop where
  place : e.id.index < size
  body : ∀ f, e.binder = .function f → f.body.Scoped f.arity size

theorem Entry.Scoped.mono {size size' : Nat} {e : Entry} (he : e.Scoped size)
    (hsize : size ≤ size') : e.Scoped size' where
  place := Nat.lt_of_lt_of_le he.place hsize
  body f hf := Expr.Scoped.mono hsize f.body (he.body f hf)

namespace Registry

/-- Everything that is bound refers to what is bound. -/
def Scoped (r : Registry) : Prop := ∀ e ∈ r.entries, e.Scoped r.size

theorem exists_get? (r : Registry) {id : SymbolId} (h : id.index < r.size) :
    ∃ e, r.get? id = some e :=
  ⟨_, List.getElem?_eq_getElem h⟩

theorem size_le_size_bind (r : Registry) (display : String) (binder : Binder) :
    r.size ≤ (r.bind display binder).size := by
  rcases r.bind_cases display binder with ⟨id, -, -, hbind⟩ | ⟨-, hbind⟩
  · exact Nat.le_of_eq (by rw [hbind, size_rebind])
  · rw [hbind, size_add]
    exact Nat.le_succ _

/-- What is bound after a binding was bound before, perhaps to something else, or is new. -/
theorem mem_bind {r : Registry} {display : String} {binder : Binder} {e : Entry}
    (h : e ∈ (r.bind display binder).entries) :
    (∃ old ∈ r.entries, e = old ∨ e = { old with binder }) ∨
      e.id.index = r.size ∧ e.binder = binder ∧ r.size < (r.bind display binder).size := by
  obtain ⟨i, hi⟩ := List.mem_iff_getElem?.1 h
  change (r.bind display binder).get? ⟨i⟩ = some e at hi
  rcases r.bind_cases display binder with ⟨id, -, -, hbind⟩ | ⟨-, hbind⟩
  · rw [hbind, get?_rebind] at hi
    obtain ⟨old, hold, rfl⟩ := Option.map_eq_some_iff.1 hi
    refine .inl ⟨old, List.mem_of_getElem? hold, ?_⟩
    split
    · exact .inr rfl
    · exact .inl rfl
  · rw [hbind, get?_add] at hi
    split at hi
    · cases hi
      exact .inr ⟨rfl, rfl, by rw [hbind, size_add]; exact Nat.lt_succ_self _⟩
    · exact .inl ⟨e, List.mem_of_getElem? hi, .inl rfl⟩

theorem Scoped.bind {r : Registry} (hr : r.Scoped) {display : String} {binder : Binder}
    (hbody : ∀ f, binder = .function f → f.body.Scoped f.arity r.size) :
    (r.bind display binder).Scoped := by
  have hsize := r.size_le_size_bind display binder
  have hbody' : ∀ f, binder = .function f → f.body.Scoped f.arity (r.bind display binder).size :=
    fun f hf => Expr.Scoped.mono hsize f.body (hbody f hf)
  intro e he
  obtain ⟨old, hold, rfl | rfl⟩ | ⟨hplace, hbinder, hlt⟩ := mem_bind he
  · exact (hr e hold).mono hsize
  · exact ⟨((hr old hold).mono hsize).place, hbody'⟩
  · exact ⟨hplace ▸ hlt, hbinder ▸ hbody'⟩

theorem Scoped.bindValue {r r' : Registry} (hr : r.Scoped) {t : UnitTable}
    {display source : String} {v : Value} {span : Span}
    (h : r.bindValue t display v source span = .ok r') : r'.Scoped := by
  obtain ⟨-, rfl⟩ := bindValue_eq_ok h
  exact hr.bind nofun

theorem Scoped.defineFunction {r : Registry} (hr : r.Scoped) {display source : String}
    {params : List Name} {body : Expr} (hbody : body.Scoped params.length r.size) :
    (r.defineFunction display params body source).Scoped :=
  hr.bind fun f hf => by cases hf; exact hbody

/-- An equation that is read now can only refer to what is bound. -/
theorem Scoped.scope_within {r : Registry} (hr : r.Scoped) (t : UnitTable) (params : List Name) :
    (r.scope t params).Within params.length r.size := by
  have hplace : ∀ {name e}, r.lookup name = some e → e.id.index < r.size := fun h =>
    (hr _ (r.mem_of_lookup h)).place
  refine ⟨Nat.le_refl _, ?_, ?_⟩
  · intro name id h
    obtain ⟨e, he, hmeaning⟩ := Option.map_eq_some_iff.1 h
    split at hmeaning
    · cases hmeaning
      exact hplace he
    · cases hmeaning
  · intro name id arity h
    obtain ⟨e, he, hmeaning⟩ := Option.map_eq_some_iff.1 h
    split at hmeaning
    · cases hmeaning
    · cases hmeaning
      exact hplace he

end Registry

end Worksheet
