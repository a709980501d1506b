import Mathlib.Logic.Relation
import Worksheet.Expr.Basic
/-!
# Nodes of expressions

A message about an expression points at one of its nodes: the expression itself, or a node of one of
the expressions right under it.
-/

namespace Worksheet.Expr

/-- The expressions right under the root. -/
def children : Expr → List Expr
  | const .. | var .. | unit .. => []
  | call _ _ _ args => args
  | array _ elements => elements
  | index _ base position => [base, position]
  | signed _ _ operand => [operand]
  | binary _ _ left right => [left, right]
  | group _ inner => [inner]

/-- An expression stands somewhere in another one, or is that one itself. -/
def Node : Expr → Expr → Prop := Relation.ReflTransGen fun e c => c ∈ e.children

/-- All nodes have a property. -/
def Everywhere (P : Expr → Prop) (e : Expr) : Prop := ∀ n, e.Node n → P n

section

variable {P : Expr → Prop} {e c : Expr}

theorem Everywhere.self (h : e.Everywhere P) : P e := h e .refl

theorem Everywhere.children (h : e.Everywhere P) : ∀ c ∈ e.children, c.Everywhere P :=
  fun _ hc n hn => h n (hn.head hc)

theorem Everywhere.only (h : e.Everywhere P) (hchildren : e.children = [c]) : c.Everywhere P :=
  h.children c (hchildren ▸ List.mem_cons_self)

theorem Everywhere.pair {c' : Expr} (h : e.Everywhere P) (hchildren : e.children = [c, c']) :
    c.Everywhere P ∧ c'.Everywhere P :=
  ⟨h.children c (hchildren ▸ List.mem_cons_self),
    h.children c' (hchildren ▸ List.mem_cons_of_mem c List.mem_cons_self)⟩

theorem everywhere_of_children (h : P e) (hchildren : ∀ c ∈ e.children, c.Everywhere P) :
    e.Everywhere P := by
  intro n hn
  rcases Relation.ReflTransGen.cases_head hn with rfl | ⟨c, hc, hn⟩
  · exact h
  · exact hchildren c hc n hn

theorem everywhere_leaf (h : P e) (hchildren : e.children = []) : e.Everywhere P :=
  everywhere_of_children h (by simp [hchildren])

theorem sizeOf_lt_of_mem_children (h : c ∈ e.children) : sizeOf c < sizeOf e := by
  cases e with
  | const | var | unit => cases h
  | call _ _ _ es | array _ es =>
    have hlist : sizeOf c < sizeOf es := List.sizeOf_lt_of_mem h
    simp only [call.sizeOf_spec, array.sizeOf_spec]
    omega
  | index _ a b | binary _ _ a b =>
    have hpair : c = a ∨ c = b := by simpa [children] using h
    rcases hpair with rfl | rfl <;> simp only [index.sizeOf_spec, binary.sizeOf_spec] <;> omega
  | signed | group =>
    obtain rfl := List.mem_singleton.1 h
    simp only [signed.sizeOf_spec, group.sizeOf_spec]
    omega

end

instance decidableEverywhere (P : Expr → Prop) [DecidablePred P] (e : Expr) :
    Decidable (e.Everywhere P) :=
  have children : DecidablePred fun c : { c // c ∈ e.children } => c.1.Everywhere P :=
    fun c => decidableEverywhere P c.1
  decidable_of_iff (P e ∧ ∀ c ∈ e.children.attach, c.1.Everywhere P)
    ⟨fun h => everywhere_of_children h.1 fun c hc => h.2 ⟨c, hc⟩ (List.mem_attach _ _),
      fun h => ⟨h.self, fun c _ => h.children c.1 c.2⟩⟩
termination_by sizeOf e
decreasing_by exact sizeOf_lt_of_mem_children c.2

/-- A span is the place of a node. -/
def Marks (e : Expr) (s : Span) : Prop := ∃ n, e.Node n ∧ n.span = s

variable {e c : Expr} {s : Span}

theorem marks_self (e : Expr) : e.Marks e.span := ⟨e, .refl, rfl⟩

theorem Marks.child (h : c.Marks s) (hc : c ∈ e.children) : e.Marks s := by
  obtain ⟨n, hn, hs⟩ := h
  exact ⟨n, hn.head hc, hs⟩

end Worksheet.Expr
