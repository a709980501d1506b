import Worksheet.Proofs.Expr.Factor
import Worksheet.Proofs.Token.Margins
/-!
# Names at the root

A tree with a name at its root is what its first token was read as: where anything is joined to it,
the root is an operation.
-/

namespace Worksheet.Expr

/-- The name of a variable or of a call. -/
def name? : Expr → Option Name
  | var _ name _ | call _ name _ _ => some name
  | _ => none

variable {scope : Scope} {last n : Nat} {e : Expr} {name : Name} {rest : List Token}

/-! ## Nothing is joined to a name -/

theorem eq_of_sumFrom {left : Expr} {ts : List Token} {shorter h}
    (hname : e.name? = some name)
    (hread : sumFrom scope last n left ts shorter = .ok ⟨e, rest, h⟩) : e = left := by
  cases ts with
  | nil =>
    rw [sumFrom] at hread
    cases hread
    rfl
  | cons t more =>
    rw [sumFrom] at hread
    split at hread
    · cases hread
      rfl
    · obtain ⟨⟨right, rest', shorter'⟩, -, hread⟩ := bind_eq_ok.1 hread
      have hlt : rest'.length < (t :: more).length := Nat.lt_succ_of_lt shorter'
      rw [eq_of_sumFrom hname hread] at hname
      cases hname
termination_by ts.length

theorem eq_of_productFrom {left : Expr} {ts : List Token} {shorter h}
    (hname : e.name? = some name)
    (hread : productFrom scope last n left ts shorter = .ok ⟨e, rest, h⟩) : e = left := by
  cases ts with
  | nil =>
    rw [productFrom] at hread
    cases hread
    rfl
  | cons t more =>
    rw [productFrom] at hread
    split at hread
    · cases hread
      rfl
    · obtain ⟨⟨right, rest', shorter'⟩, -, hread⟩ := bind_eq_ok.1 hread
      have hlt : rest'.length < (t :: more).length := Nat.lt_succ_of_lt shorter'
      rw [eq_of_productFrom hname hread] at hname
      cases hname
termination_by ts.length

theorem eq_of_juxtaposedFrom {left : Expr} {ts : List Token} {shorter h}
    (hname : e.name? = some name)
    (hread : juxtaposedFrom scope last n left ts shorter = .ok ⟨e, rest, h⟩) : e = left := by
  cases ts with
  | nil =>
    rw [juxtaposedFrom] at hread
    cases hread
    rfl
  | cons t more =>
    rw [juxtaposedFrom] at hread
    split at hread
    · obtain ⟨⟨right, rest', shorter'⟩, -, hread⟩ := bind_eq_ok.1 hread
      have hlt : rest'.length < (t :: more).length := shorter'
      rw [eq_of_juxtaposedFrom hname hread] at hname
      cases hname
    · cases hread
      rfl
termination_by ts.length

theorem eq_of_subscriptedFrom {left : Expr} {ts : List Token} {shorter h}
    (hname : e.name? = some name)
    (hread : subscriptedFrom scope last n left ts shorter = .ok ⟨e, rest, h⟩) : e = left := by
  cases ts with
  | nil =>
    rw [subscriptedFrom] at hread
    cases hread
    rfl
  | cons t more =>
    rw [subscriptedFrom] at hread
    split at hread
    · obtain ⟨⟨position, rest', shorter'⟩, -, hread⟩ := bind_eq_ok.1 hread
      obtain ⟨⟨stop, rest'', shorter''⟩, -, hread⟩ := bind_eq_ok.1 hread
      have hlt : rest''.length < (t :: more).length :=
        Nat.lt_succ_of_lt (Nat.lt_trans shorter'' shorter')
      rw [eq_of_subscriptedFrom hname hread] at hname
      cases hname
    · cases hread
      rfl
termination_by ts.length

/-- Behind a name at the root there are no operations, and it stands in the first token. -/
theorem operand_of_sum {t : Token} {more : List Token} {h} (ht : sign? t.kind = none)
    (hname : e.name? = some name) (hread : sum scope last (t :: more) = .ok ⟨e, rest, h⟩) :
    ∃ rest' h', operand scope last (t :: more) = .ok ⟨e, rest', h'⟩ := by
  rw [sum] at hread
  obtain ⟨⟨left, rest₁, shorter₁⟩, hproduct, hread⟩ := bind_eq_ok.1 hread
  obtain rfl := eq_of_sumFrom hname hread
  rw [product] at hproduct
  obtain ⟨⟨left, rest₂, shorter₂⟩, hjuxtaposed, hproduct⟩ := bind_eq_ok.1 hproduct
  obtain rfl := eq_of_productFrom hname hproduct
  rw [juxtaposed] at hjuxtaposed
  obtain ⟨⟨left, rest₃, shorter₃⟩, hterm, hjuxtaposed⟩ := bind_eq_ok.1 hjuxtaposed
  obtain rfl := eq_of_juxtaposedFrom hname hjuxtaposed
  rw [signedTerm, ht] at hterm
  dsimp only at hterm
  rw [power] at hterm
  obtain ⟨⟨base, rest₄, shorter₄⟩, hsubscripted, hterm⟩ := bind_eq_ok.1 hterm
  have hbase : e = base := by
    cases rest₄ with
    | nil =>
      cases hterm
      rfl
    | cons u others =>
      dsimp only at hterm
      split at hterm
      · obtain ⟨⟨exponent, rest₅, shorter₅⟩, -, hterm⟩ := bind_eq_ok.1 hterm
        cases hterm
        cases hname
      · cases hterm
        rfl
  subst hbase
  rw [subscripted] at hsubscripted
  obtain ⟨⟨base, rest₅, shorter₅⟩, hoperand, hsubscripted⟩ := bind_eq_ok.1 hsubscripted
  obtain rfl := eq_of_subscriptedFrom hname hsubscripted
  exact ⟨_, _, hoperand⟩

/-! ## The name in the first token -/

theorem eq_of_useOf {v : String} {span : Span} {called : Bool} (hname : e.name? = some name)
    (h : useOf scope v span called = .operand e) : name = .ofSpelling v := by
  unfold useOf at h
  dsimp only at h
  repeat' split at h
  all_goals cases h <;> cases hname <;> rfl

theorem eq_of_callOf {called : Name} {callee : Callee} {arity : Option Nat} {args : List Expr}
    {span : Span} (hname : e.name? = some name) (h : callOf called callee arity args span = .ok e) :
    name = called := by
  unfold callOf at h
  split at h
  · cases h
    cases hname
    rfl
  · cases h

/-- A name at the root of an operand that begins with an identifier is that of the identifier. -/
theorem eq_of_operand {v : String} {t : Token} {more : List Token} {h}
    (ht : t.kind = .ident v ∨ t.kind = .unit v) (hname : e.name? = some name)
    (hread : operand scope last (t :: more) = .ok ⟨e, rest, h⟩) : name = .ofSpelling v := by
  obtain ⟨kind, start, stop⟩ := t
  rw [operand.eq_def] at hread
  rcases ht with rfl | rfl
  · dsimp only at hread
    split at hread
    · rename_i huse
      cases hread
      exact eq_of_useOf hname huse
    · obtain ⟨⟨⟨args, argsStop⟩, rest', shorter⟩, -, hread⟩ := bind_eq_ok.1 hread
      obtain ⟨call, hcall, hread⟩ := bind_eq_ok.1 hread
      cases hread
      exact eq_of_callOf hname hcall
  · cases hread
    cases hname

/-- A text that begins with a text of one identifier has no other name at the root of its tree. -/
theorem eq_of_parse {text text' v : String} {r : List Char} {a b : Nat}
    (hmode : scope.mode = .equation)
    (hscan : tokens { mode := .equation } text = .ok [⟨.ident v, a, b⟩]) (hr : Scan.Apart r)
    (htext : text'.toList = text.toList ++ r) (hname : e.name? = some name)
    (hparse : parse scope text' = .ok (some e)) : name = .ofSpelling v := by
  obtain ⟨ts, hts, hread⟩ := bind_eq_ok.1 hparse
  have htokens : Scan.tokensFrom ⟨.equation, scope.isUnitWord⟩ 0 0 (text.toList ++ r) = .ok ts := by
    rw [← htext, ← hmode]
    exact hts
  obtain ⟨t, more, rfl, ht⟩ := Scan.first_token hr hscan htokens
  have hsign : sign? t.kind = none := by
    rcases ht with ht | ht <;> rw [ht] <;> rfl
  rw [ofTokens, if_neg (by simp)] at hread
  obtain ⟨⟨e', rest, shorter⟩, hsum, hread⟩ := bind_eq_ok.1 hread
  cases rest with
  | cons u rest => cases hread
  | nil =>
    cases hread
    obtain ⟨rest', shorter', hoperand⟩ := operand_of_sum hsign hname hsum
    exact eq_of_operand ht hname hoperand

end Worksheet.Expr
