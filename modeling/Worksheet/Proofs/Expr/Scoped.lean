import Worksheet.Proofs.Expr.Reading
/-!
# Scoped expressions

Every name that a tree refers to by its place has that place: a parameter is one of those of the
function, and a symbol one of those bound. The parser makes only such trees.
-/

namespace Worksheet

/-- A parameter is below `count`, and a bound symbol below `size`. -/
def Binding.Scoped (count size : Nat) : Binding → Prop
  | .parameter i => i < count
  | .symbol id => id.index < size
  | .unresolved => True

def Callee.Scoped (size : Nat) : Callee → Prop
  | .user id => id.index < size
  | .builtin _ => True
  | .unresolved => True

namespace Expr

mutual

/-- All parameters in the tree are below `count`, and all bound symbols below `size`. -/
def Scoped (count size : Nat) : Expr → Prop
  | const .. => True
  | unit .. => True
  | var _ _ binding => binding.Scoped count size
  | call _ _ callee args => callee.Scoped size ∧ AllScoped count size args
  | array _ elements => AllScoped count size elements
  | index _ base position => base.Scoped count size ∧ position.Scoped count size
  | signed _ _ operand => operand.Scoped count size
  | binary _ _ left right => left.Scoped count size ∧ right.Scoped count size
  | group _ inner => inner.Scoped count size

def AllScoped (count size : Nat) : List Expr → Prop
  | [] => True
  | e :: es => e.Scoped count size ∧ AllScoped count size es

end

end Expr

theorem Binding.Scoped.mono {count size size' : Nat} (hsize : size ≤ size') {b : Binding}
    (h : b.Scoped count size) : b.Scoped count size' := by
  cases b with
  | parameter i => exact h
  | symbol id => exact Nat.lt_of_lt_of_le h hsize
  | unresolved => exact trivial

theorem Callee.Scoped.mono {size size' : Nat} (hsize : size ≤ size') {callee : Callee}
    (h : callee.Scoped size) : callee.Scoped size' := by
  cases callee with
  | builtin function => exact trivial
  | user id => exact Nat.lt_of_lt_of_le h hsize
  | unresolved => exact trivial

namespace Expr

mutual

theorem Scoped.mono {count size size' : Nat} (hsize : size ≤ size') :
    ∀ e : Expr, e.Scoped count size → e.Scoped count size'
  | const .., _ => trivial
  | unit .., _ => trivial
  | var _ _ _, h => Binding.Scoped.mono hsize h
  | call _ _ _ args, h => ⟨Callee.Scoped.mono hsize h.1, AllScoped.mono hsize args h.2⟩
  | array _ elements, h => AllScoped.mono hsize elements h
  | index _ base position, h => ⟨Scoped.mono hsize base h.1, Scoped.mono hsize position h.2⟩
  | signed _ _ operand, h => Scoped.mono hsize operand h
  | binary _ _ left right, h => ⟨Scoped.mono hsize left h.1, Scoped.mono hsize right h.2⟩
  | group _ inner, h => Scoped.mono hsize inner h

theorem AllScoped.mono {count size size' : Nat} (hsize : size ≤ size') :
    ∀ es : List Expr, AllScoped count size es → AllScoped count size' es
  | [], _ => trivial
  | e :: es, h => ⟨Scoped.mono hsize e h.1, AllScoped.mono hsize es h.2⟩

end

end Expr

/-- What names mean in the scope has its place: there are `count` parameters, and `size` bound
symbols. -/
structure Scope.Within (scope : Scope) (count size : Nat) : Prop where
  parameters : scope.parameters.length ≤ count
  value : ∀ {name id}, scope.resolve name = some (.value id) → id.index < size
  function : ∀ {name id arity}, scope.resolve name = some (.function id arity) → id.index < size

theorem Scope.empty_within (mode : Mode) : (Scope.empty mode).Within 0 0 where
  parameters := Nat.le_refl 0
  value := nofun
  function := nofun

namespace Scope.Within

variable {scope : Scope} {count size : Nat} (hscope : scope.Within count size)
include hscope

theorem binding {b : Binding} (h : scope.Binds b) : b.Scoped count size := by
  cases h with
  | @parameter name i h =>
    rw [Scope.parameter?, List.idxOf?_eq_some_iff] at h
    exact Nat.lt_of_lt_of_le h.1 hscope.parameters
  | value h => exact hscope.value h
  | function h => exact hscope.function h
  | unresolved => exact trivial

theorem callee {c : Callee} (h : scope.Calls c) : c.Scoped size := by
  cases h with
  | user h => exact hscope.function h
  | builtin function => exact trivial
  | unresolved => exact trivial

end Scope.Within

namespace Expr

variable {scope : Scope} {count size : Nat}

mutual

/-- A tree is scoped if its names mean what the scope says. -/
theorem scoped_of_means (hscope : scope.Within count size) :
    ∀ e : Expr, (∀ n, e.Node n → n.Means scope) → e.Scoped count size
  | const .., _ => trivial
  | unit .., _ => trivial
  | var _ _ _, h => hscope.binding (h _ .refl)
  | call _ _ _ args, h =>
    ⟨hscope.callee (h _ .refl), allScoped_of_means hscope args fun _ hc n hn => h n (hn.head hc)⟩
  | array _ elements, h =>
    allScoped_of_means hscope elements fun _ hc n hn => h n (hn.head hc)
  | index span base position, h =>
    have hc : ∀ c ∈ [base, position], ∀ n, c.Node n → n.Means scope := fun _ hc n hn =>
      h n (hn.head hc)
    ⟨scoped_of_means hscope base (hc base (by simp)),
      scoped_of_means hscope position (hc position (by simp))⟩
  | signed span sign operand, h =>
    scoped_of_means hscope operand fun n hn => h n (hn.head (List.mem_singleton_self operand))
  | binary span op left right, h =>
    have hc : ∀ c ∈ [left, right], ∀ n, c.Node n → n.Means scope := fun _ hc n hn =>
      h n (hn.head hc)
    ⟨scoped_of_means hscope left (hc left (by simp)),
      scoped_of_means hscope right (hc right (by simp))⟩
  | group span inner, h =>
    scoped_of_means hscope inner fun n hn => h n (hn.head (List.mem_singleton_self inner))

theorem allScoped_of_means (hscope : scope.Within count size) :
    ∀ es : List Expr, (∀ e ∈ es, ∀ n, e.Node n → n.Means scope) → AllScoped count size es
  | [], _ => trivial
  | e :: es, h =>
    have h' := List.forall_mem_cons.1 h
    ⟨scoped_of_means hscope e h'.1, allScoped_of_means hscope es h'.2⟩

end

/-- Reading a text in a scope gives a tree that is scoped, or tells what is wrong with the text. -/
theorem parse_meets (hscope : scope.Within count size) (text : String) :
    Meets (fun e => e.code.External) (fun e? => ∀ e ∈ e?, e.Scoped count size)
      (parse scope text) :=
  (parse_gives scope text).imp (fun _ he => he.1) fun _ h e he =>
    scoped_of_means hscope e fun n hn => ((h e he).nodes n hn).2

end Expr

end Worksheet
