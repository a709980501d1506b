import Mathlib.Data.List.Forall2
import Worksheet.Proofs.Expr.Grammar
/-!
# Trees without their places

What is read from tokens depends on their kinds alone, and tokens behind an expression that do not
go on with it stay. So the same text says the same wherever it stands, up to the places of its
nodes.
-/

namespace Worksheet

namespace Expr

mutual

/-- The tree without the places that it was read from. -/
def bare : Expr → Expr
  | const _ literal value => const default literal value
  | var _ name binding => var default name binding
  | unit _ text => unit default text
  | call _ name callee args => call default name callee (bares args)
  | array _ elements => array default (bares elements)
  | index _ base position => index default base.bare position.bare
  | signed _ sign operand => signed default sign operand.bare
  | binary _ op left right => binary default op left.bare right.bare
  | group _ inner => group default inner.bare

def bares : List Expr → List Expr
  | [] => []
  | e :: es => e.bare :: bares es

end

theorem bares_eq_map (es : List Expr) : bares es = es.map bare := by
  induction es with
  | nil => rfl
  | cons e es ih => rw [bares, ih, List.map_cons]

theorem length_eq_of_bares {es es' : List Expr} (h : bares es = bares es') :
    es.length = es'.length := by
  simpa [bares_eq_map] using congrArg List.length h

theorem isIndexable_bare (e : Expr) : e.bare.isIndexable = e.isIndexable := by cases e <;> rfl

theorem bare_join (op : BinaryOp) (left right : Expr) :
    (join op left right).bare = binary default op left.bare right.bare := rfl

end Expr

namespace Token.Kind

/-- The same kind of token, except that a function may be spelled in different ways. -/
inductive Same : Kind → Kind → Prop where
  | refl (k : Kind) : Same k k
  | function {name name' : String} (h : Name.ofSpelling name = Name.ofSpelling name') :
      Same (.function name) (.function name')

variable {k k' : Kind}

theorem Same.sumOp? (h : Same k k') : Expr.sumOp? k = Expr.sumOp? k' := by cases h <;> rfl

theorem Same.productOp? (h : Same k k') : Expr.productOp? k = Expr.productOp? k' := by
  cases h <;> rfl

theorem Same.sign? (h : Same k k') : Expr.sign? k = Expr.sign? k' := by cases h <;> rfl

theorem Same.startsOperand (h : Same k k') : k.startsOperand = k'.startsOperand := by
  cases h <;> rfl

theorem Same.isCloser (h : Same k k') : k.isCloser = k'.isCloser := by cases h <;> rfl

theorem Same.eq_iff (h : Same k k') {sign : Kind} (hsign : ∀ name, sign ≠ .function name) :
    k = sign ↔ k' = sign := by
  cases h with
  | refl => exact Iff.rfl
  | function => exact iff_of_false (hsign _).symm (hsign _).symm

end Token.Kind

namespace Expr

/-- Tokens of the same kinds, wherever they stand. -/
abbrev SameKinds (ts ts' : List Token) : Prop :=
  List.Forall₂ (fun t t' => t.kind.Same t'.kind) ts ts'

theorem sameKinds_of_map {ts ts' : List Token} (h : ts.map Token.kind = ts'.map Token.kind) :
    SameKinds ts ts' := by
  induction ts generalizing ts' with
  | nil =>
    obtain rfl := List.map_eq_nil_iff.1 h.symm
    exact .nil
  | cons t ts ih =>
    obtain ⟨t', ts', rfl, ht, hts⟩ := List.map_eq_cons_iff.1 h.symm
    refine .cons ?_ (ih hts.symm)
    rw [ht]
    exact .refl _

theorem SameKinds.isOpen {ts ts' : List Token} (h : SameKinds ts ts') :
    Expr.isOpen ts = Expr.isOpen ts' := by
  cases h with
  | nil => rfl
  | @cons t t' ts ts' ht hts =>
    have hopen : t.kind = .lparen ↔ t'.kind = .lparen := ht.eq_iff nofun
    simp [Expr.isOpen, hopen]

/-- What was read from some tokens is read from others, too, and what is behind them stays unless it
goes on with them. An error is the same one. -/
structure Agrees {n n' : Nat} {α : Type} (goesOn : Token.Kind → Bool) (extra : List Token)
    (same : α → α → Prop) (r : Except SourceError (Reading n α))
    (r' : Except SourceError (Reading n' α)) : Prop where
  result : ∀ a rest shorter, r = .ok ⟨a, rest, shorter⟩ → (rest = [] → Ends goesOn extra) →
    ∃ a' rest', same a a' ∧ SameKinds rest rest' ∧ Reads r' a' (rest' ++ extra)
  fault : ∀ e, r = .error e → extra = [] → ∃ e', r' = .error e' ∧ e'.code = e.code

abbrev SameTree (e e' : Expr) : Prop := e.bare = e'.bare

abbrev SameTrees (es es' : List Expr) : Prop := bares es = bares es'

theorem sameTrees_single {e e' : Expr} (h : SameTree e e') : SameTrees [e] [e'] := by
  simp only [SameTrees, bares, h]

section

variable {n n' m m' : Nat} {α β : Type} {goesOn goesOn' : Token.Kind → Bool} {extra : List Token}
  {same : α → α → Prop} {same' : β → β → Prop}

theorem agrees_ok {a a' : α} {rest rest' : List Token} {shorter : rest.length < n}
    {shorter' : (rest' ++ extra).length < n'} (ha : same a a') (hrest : SameKinds rest rest') :
    Agrees goesOn extra same (.ok ⟨a, rest, shorter⟩) (.ok ⟨a', rest' ++ extra, shorter'⟩) where
  result := by
    rintro _ _ _ ⟨⟩ -
    exact ⟨a', rest', ha, hrest, shorter', rfl⟩
  fault := nofun

theorem agrees_error {e e' : SourceError} (h : e'.code = e.code) :
    Agrees goesOn extra same (.error e : Except SourceError (Reading n α))
      (.error e' : Except SourceError (Reading n' α)) where
  result := nofun
  fault := by
    rintro _ ⟨⟩ -
    exact ⟨e', rfl, h⟩

/-- Where nothing could be read, what is behind does not count. -/
theorem agrees_fault {e : SourceError} {r : Except SourceError (Reading n α)}
    {r' : Except SourceError (Reading n' α)} (hr : r = .error e)
    (h : extra = [] → ∃ e', r' = .error e' ∧ e'.code = e.code) :
    Agrees goesOn extra same r r' := by
  subst hr
  refine ⟨nofun, ?_⟩
  rintro _ ⟨⟩ hextra
  exact h hextra

/-- Where nothing is left, what is behind does not go on. -/
theorem agrees_of_ends {r : Except SourceError (Reading n α)}
    {r' : Except SourceError (Reading n' α)}
    (hnil : ∀ a rest shorter, r = .ok ⟨a, rest, shorter⟩ → rest = [])
    (h : Ends goesOn extra → Agrees goesOn extra same r r') : Agrees goesOn extra same r r' where
  result a rest shorter hr hends :=
    (h (hends (hnil a rest shorter hr))).result a rest shorter hr hends
  fault e hr hextra := by
    subst hextra
    exact (h ends_nil).fault e hr rfl

/-- The reading ends with the tokens, and so it does with what is behind them. -/
theorem agrees_stop {a a' : α} {r : Except SourceError (Reading n α)}
    {r' : Except SourceError (Reading n' α)} (ha : same a a') (hr : Reads r a [])
    (hr' : Ends goesOn extra → Reads r' a' extra) : Agrees goesOn extra same r r' := by
  obtain ⟨shorter, rfl⟩ := hr
  refine ⟨?_, nofun⟩
  rintro _ _ _ ⟨⟩ hends
  exact ⟨a', [], ha, .nil, hr' (hends rfl)⟩

theorem agrees_of_reads {a a' : α} {rest rest' : List Token}
    {r : Except SourceError (Reading n α)} {r' : Except SourceError (Reading n' α)}
    (hr : Reads r a rest) (hr' : Reads r' a' rest') (ha : same a a')
    (hrest : SameKinds rest rest') : Agrees goesOn [] same r r' := by
  obtain ⟨shorter, rfl⟩ := hr
  refine ⟨?_, nofun⟩
  rintro _ _ _ ⟨⟩ -
  exact ⟨a', rest', ha, hrest, by rwa [List.append_nil]⟩

theorem Agrees.bind {r : Except SourceError (Reading n α)} {r' : Except SourceError (Reading n' α)}
    {f : Reading n α → Except SourceError (Reading m β)}
    {f' : Reading n' α → Except SourceError (Reading m' β)}
    (hr : Agrees goesOn extra same r r')
    (hnil : ∀ a shorter b rest shorter', f ⟨a, [], shorter⟩ = .ok ⟨b, rest, shorter'⟩ →
      rest = [] ∧ (Ends goesOn' extra → Ends goesOn extra))
    (hf : ∀ a rest shorter a' rest' shorter', same a a' → SameKinds rest rest' →
      Agrees goesOn' extra same' (f ⟨a, rest, shorter⟩) (f' ⟨a', rest' ++ extra, shorter'⟩)) :
    Agrees goesOn' extra same' (r >>= f) (r' >>= f') where
  result b rest shorter h hends := by
    obtain ⟨⟨a, rest₁, shorter₁⟩, hr₁, hf₁⟩ := bind_eq_ok.1 h
    have hends₁ : rest₁ = [] → Ends goesOn extra := by
      rintro rfl
      obtain ⟨hrest, himp⟩ := hnil a shorter₁ b rest shorter hf₁
      exact himp (hends hrest)
    obtain ⟨a', rest', ha, hrest', shorter', hr'⟩ := hr.result a rest₁ shorter₁ hr₁ hends₁
    obtain ⟨b', rest'', hb, hrest'', shorter'', hf'⟩ :=
      (hf a rest₁ shorter₁ a' rest' shorter' ha hrest').result b rest shorter hf₁ hends
    refine ⟨b', rest'', hb, hrest'', shorter'', ?_⟩
    rw [hr', ok_bind, hf']
  fault e h hextra := by
    subst hextra
    cases hr₁ : r with
    | error e₁ =>
      rw [hr₁] at h
      cases h
      obtain ⟨e', hr', hcode⟩ := hr.fault e hr₁ rfl
      refine ⟨e', ?_, hcode⟩
      rw [hr', error_bind]
    | ok a =>
      obtain ⟨a, rest₁, shorter₁⟩ := a
      rw [hr₁, ok_bind] at h
      obtain ⟨a', rest', ha, hrest', shorter', hr'⟩ :=
        hr.result a rest₁ shorter₁ hr₁ fun _ => ends_nil
      obtain ⟨e', hf', hcode⟩ := (hf a rest₁ shorter₁ a' rest' shorter' ha hrest').fault e h rfl
      refine ⟨e', ?_, hcode⟩
      rw [hr', ok_bind, hf']

/-- A step behind it that reads nothing more. -/
theorem Agrees.map {r : Except SourceError (Reading n α)} {r' : Except SourceError (Reading n' α)}
    {f : Reading n α → Except SourceError (Reading m β)}
    {f' : Reading n' α → Except SourceError (Reading m' β)} {g g' : α → β}
    (hr : Agrees goesOn extra same r r')
    (hf : ∀ a rest shorter, Reads (f ⟨a, rest, shorter⟩) (g a) rest)
    (hf' : ∀ a rest shorter, Reads (f' ⟨a, rest, shorter⟩) (g' a) rest)
    (hg : ∀ a a', same a a' → same' (g a) (g' a')) :
    Agrees goesOn extra same' (r >>= f) (r' >>= f') := by
  refine hr.bind ?_ ?_
  · intro a shorter b rest shorter' h
    obtain ⟨_, hok⟩ := hf a [] shorter
    cases hok.symm.trans h
    exact ⟨rfl, id⟩
  · intro a rest shorter a' rest' shorter' ha hrest
    obtain ⟨_, hok⟩ := hf a rest shorter
    obtain ⟨_, hok'⟩ := hf' a' (rest' ++ extra) shorter'
    rw [hok, hok']
    exact agrees_ok (hg a a' ha) hrest

theorem close_agrees (closer : Token.Kind) (hcloser : ∀ name, closer ≠ .function name)
    {opener opener' : Token} {ts ts' : List Token} (h : SameKinds ts ts') :
    Agrees goesOn extra (fun _ _ => True) (close closer opener ts)
      (close closer opener' (ts' ++ extra)) := by
  cases h with
  | nil =>
    refine ⟨nofun, ?_⟩
    rintro _ ⟨⟩ rfl
    exact ⟨_, rfl, rfl⟩
  | @cons t t' ts ts' ht hts =>
    have hclosed := ht.eq_iff hcloser
    change Agrees _ _ _ (if t.kind = closer then _ else _) (if t'.kind = closer then _ else _)
    by_cases hkind : t.kind = closer
    · rw [if_pos hkind, if_pos (hclosed.1 hkind)]
      exact agrees_ok trivial hts
    · rw [if_neg hkind, if_neg (hclosed.not.1 hkind)]
      refine agrees_error ?_
      rw [ht.isCloser]
      rfl

/-- With a closing sign behind it, which there is none of where nothing is left. -/
theorem Agrees.bind_close {closer : Token.Kind} (hcloser : ∀ name, closer ≠ .function name)
    {opener opener' : Token} {r : Except SourceError (Reading n α)}
    {r' : Except SourceError (Reading n' α)}
    {f : Reading n α → Except SourceError (Reading m β)}
    {f' : Reading n' α → Except SourceError (Reading m' β)}
    {k : ∀ (_ : α) (rest : List Token), rest.length < n → Reading rest.length Nat →
      Except SourceError (Reading m β)}
    {k' : ∀ (_ : α) (rest : List Token), rest.length < n' → Reading rest.length Nat →
      Except SourceError (Reading m' β)}
    (hr : Agrees goesOn extra same r r')
    (hf : ∀ a rest shorter,
      f ⟨a, rest, shorter⟩ = close closer opener rest >>= k a rest shorter)
    (hf' : ∀ a rest shorter,
      f' ⟨a, rest, shorter⟩ = close closer opener' rest >>= k' a rest shorter)
    (hnil : ∀ a rest h stop h₁ b rest₂ h₂, k a rest h ⟨stop, [], h₁⟩ = .ok ⟨b, rest₂, h₂⟩ →
      rest₂ = [])
    (hk : ∀ a rest h a' rest' h', same a a' → ∀ stop rest₂ h₂ stop' rest₂' h₂',
      SameKinds rest₂ rest₂' → Agrees goesOn' extra same' (k a rest h ⟨stop, rest₂, h₂⟩)
        (k' a' rest' h' ⟨stop', rest₂' ++ extra, h₂'⟩)) :
    Agrees goesOn' extra same' (r >>= f) (r' >>= f') := by
  refine hr.bind ?_ ?_
  · intro a shorter b rest shorter' h
    rw [hf] at h
    cases h
  · intro a rest shorter a' rest' shorter' ha hrest
    have hclose : Agrees goesOn' extra (fun _ _ => True) (close closer opener rest)
        (close closer opener' (rest' ++ extra)) := close_agrees closer hcloser hrest
    rw [hf, hf']
    refine hclose.bind ?_ ?_
    · intro stop h₁ b rest₂ h₂ h
      exact ⟨hnil a rest shorter stop h₁ b rest₂ h₂ h, id⟩
    · intro stop rest₂ h₂ stop' rest₂' h₂' _ hrest₂
      exact hk a rest shorter a' _ shorter' ha stop rest₂ h₂ stop' rest₂' h₂' hrest₂

/-- With a closing sign behind it and nothing more. -/
theorem Agrees.map_close {closer : Token.Kind} (hcloser : ∀ name, closer ≠ .function name)
    {opener opener' : Token} {r : Except SourceError (Reading n α)}
    {r' : Except SourceError (Reading n' α)}
    {f : Reading n α → Except SourceError (Reading m β)}
    {f' : Reading n' α → Except SourceError (Reading m' β)} {g g' : α → Nat → β}
    {k : ∀ (_ : α) (rest : List Token), rest.length < n → Reading rest.length Nat →
      Except SourceError (Reading m β)}
    {k' : ∀ (_ : α) (rest : List Token), rest.length < n' → Reading rest.length Nat →
      Except SourceError (Reading m' β)}
    (hr : Agrees goesOn extra same r r')
    (hf : ∀ a rest shorter,
      f ⟨a, rest, shorter⟩ = close closer opener rest >>= k a rest shorter)
    (hf' : ∀ a rest shorter,
      f' ⟨a, rest, shorter⟩ = close closer opener' rest >>= k' a rest shorter)
    (hk : ∀ a rest h stop rest₂ h₂, Reads (k a rest h ⟨stop, rest₂, h₂⟩) (g a stop) rest₂)
    (hk' : ∀ a rest h stop rest₂ h₂, Reads (k' a rest h ⟨stop, rest₂, h₂⟩) (g' a stop) rest₂)
    (hg : ∀ a a' stop stop', same a a' → same' (g a stop) (g' a' stop')) :
    Agrees goesOn' extra same' (r >>= f) (r' >>= f') := by
  refine hr.bind_close hcloser hf hf' ?_ ?_
  · intro a rest h stop h₁ b rest₂ h₂ hread
    obtain ⟨_, hok⟩ := hk a rest h stop [] h₁
    cases hok.symm.trans hread
    rfl
  · intro a rest h a' rest' h' ha stop rest₂ h₂ stop' rest₂' h₂' hrest₂
    obtain ⟨_, hok⟩ := hk a rest h stop rest₂ h₂
    obtain ⟨_, hok'⟩ := hk' a' rest' h' stop' (rest₂' ++ extra) h₂'
    rw [hok, hok']
    exact agrees_ok (hg a a' stop stop' ha) hrest₂

theorem rest_of_callOf {name : Name} {callee : Callee} {arity : Option Nat} {args : List Expr}
    {span : Span} {rest rest' : List Token} {shorter : rest.length < n} {e : Expr}
    {shorter' : rest'.length < n}
    (h : (callOf name callee arity args span >>= fun e => .ok ⟨e, rest, shorter⟩) =
      .ok (⟨e, rest', shorter'⟩ : Reading n Expr)) : rest' = rest := by
  obtain ⟨_, -, hok⟩ := bind_eq_ok.1 h
  cases hok
  rfl

theorem callOf_agrees {name : Name} {callee : Callee} {arity : Option Nat} {args args' : List Expr}
    {span span' : Span} {rest rest' : List Token} {shorter : rest.length < n}
    {shorter' : (rest' ++ extra).length < n'} (hargs : SameTrees args args')
    (hrest : SameKinds rest rest') :
    Agrees goesOn extra SameTree
      (callOf name callee arity args span >>= fun e => .ok ⟨e, rest, shorter⟩)
      (callOf name callee arity args' span' >>= fun e => .ok ⟨e, rest' ++ extra, shorter'⟩) := by
  unfold callOf
  rw [length_eq_of_bares hargs]
  split
  · refine agrees_ok ?_ hrest
    change bare (call _ _ _ args) = bare (call _ _ _ args')
    rw [bare, bare, hargs]
  · exact agrees_error rfl

/-- The same use, at another place. -/
inductive Use.Same : Use → Use → Prop where
  | operand {e e' : Expr} (h : SameTree e e') : Use.Same (.operand e) (.operand e')
  | call (callee : Callee) (arity : Option Nat) : Use.Same (.call callee arity) (.call callee arity)

theorem useOf_same (scope : Scope) (spelling : String) (span span' : Span) (called : Bool) :
    (useOf scope spelling span called).Same (useOf scope spelling span' called) := by
  unfold useOf
  dsimp only
  cases scope.mode with
  | units =>
    cases called with
    | true => exact .call _ _
    | false => exact .operand rfl
  | equation =>
    cases scope.parameter? (Name.ofSpelling spelling) with
    | some i => exact .operand rfl
    | none =>
      rcases scope.resolve (Name.ofSpelling spelling) with _ | ⟨id | ⟨id, arity⟩⟩
      case some.value => exact .operand rfl
      all_goals
        cases called with
        | true =>
          cases Builtin.ofName? (Name.ofSpelling spelling).text <;> exact .call _ _
        | false =>
          cases scope.isUnitSymbol (Name.ofSpelling spelling) <;>
            cases (Builtin.ofName? (Name.ofSpelling spelling).text).filter Builtin.isConstant <;>
              exact .operand rfl

end

/-! ## The parser -/

section

open Token.Kind

variable {scope : Scope} {last last' : Nat} {extra : List Token}

theorem ends_adds (h : Ends lists extra) : Ends adds extra := h.mono fun k hk => by
  simp only [lists, Bool.or_eq_false_iff] at hk
  exact hk.1

theorem Ends.ne_comma (h : Ends lists extra) : ∀ t ∈ extra.head?, t.kind ≠ .comma := by
  intro t ht
  have hlists := h t ht
  simp only [lists, Bool.or_eq_false_iff, decide_eq_false_iff_not] at hlists
  exact hlists.2

/-! ### Nothing is read from no tokens -/

theorem operand_nil : operand scope last [] = .error (endFault last) := by rw [operand]

theorem signedTerm_nil : signedTerm scope last [] = .error (endFault last) := by
  rw [signedTerm, power, subscripted, operand_nil]
  rfl

theorem fractionPart_nil : fractionPart scope last [] = .error (endFault last) := by
  rw [fractionPart.eq_def]
  dsimp only
  rw [operand_nil]
  rfl

theorem listed_nil : listed scope last [] = .error (endFault last) := by
  rw [listed, sum, product, juxtaposed, signedTerm_nil]
  rfl

theorem arguments_single (t : Token) : arguments scope last [t] = .error (endFault last) := by
  rw [arguments, if_neg (by simp), listed_nil]
  rfl

theorem subscriptedFrom_of_not_isIndexable {n : Nat} {base : Expr}
    (hbase : base.isIndexable = false) {ts : List Token} (shorter : ts.length < n) :
    subscriptedFrom scope last n base ts shorter = .ok ⟨base, ts, shorter⟩ := by
  cases ts with
  | nil => rw [subscriptedFrom]
  | cons t more => rw [subscriptedFrom, if_neg (by simp [hbase])]

/-! ### What is joined to an operand

Where two operands are related, so is what is read from them on, if joining the same to both keeps
the relation.
-/

/-- Joining the same to related trees relates the results. -/
def Joins (same : Expr → Expr → Prop) : Prop :=
  ∀ (op : BinaryOp) (left left' right right' : Expr), same left left' → SameTree right right' →
    same (join op left right) (join op left' right')

theorem joins_sameTree : Joins SameTree := by
  intro op left left' right right' hleft hright
  rw [SameTree, bare_join, bare_join, hleft, hright]

section

variable {same : Expr → Expr → Prop} {ts ts' : List Token}

theorem sum_agrees_of_product
    (hproduct : Agrees operates extra same (product scope last ts) (product scope last' ts'))
    (hfrom : ∀ left rest shorter left' rest' shorter', same left left' → SameKinds rest rest' →
      Agrees adds extra same (sumFrom scope last ts.length left rest shorter)
        (sumFrom scope last' ts'.length left' (rest' ++ extra) shorter')) :
    Agrees adds extra same (sum scope last ts) (sum scope last' ts') := by
  rw [sum, sum]
  refine hproduct.bind ?_ ?_
  · intro left shorter b rest shorter' h
    dsimp only at h
    rw [sumFrom] at h
    cases h
    exact ⟨rfl, ends_operates⟩
  · intro left rest shorter left' rest' shorter' hleft hrest
    exact hfrom left rest shorter left' rest' shorter' hleft hrest

theorem product_agrees_of_juxtaposed
    (hfactor : Agrees multiplies extra same (juxtaposed scope last ts) (juxtaposed scope last' ts'))
    (hfrom : ∀ left rest shorter left' rest' shorter', same left left' → SameKinds rest rest' →
      Agrees operates extra same (productFrom scope last ts.length left rest shorter)
        (productFrom scope last' ts'.length left' (rest' ++ extra) shorter')) :
    Agrees operates extra same (product scope last ts) (product scope last' ts') := by
  rw [product, product]
  refine hfactor.bind ?_ ?_
  · intro left shorter b rest shorter' h
    dsimp only at h
    rw [productFrom] at h
    cases h
    exact ⟨rfl, fun hends => hends.mono fun _ => multiplies_of_operates⟩
  · intro left rest shorter left' rest' shorter' hleft hrest
    exact hfrom left rest shorter left' rest' shorter' hleft hrest

theorem juxtaposed_agrees_of_signedTerm
    (hterm : Agrees raises extra same (signedTerm scope last ts) (signedTerm scope last' ts'))
    (hfrom : ∀ left rest shorter left' rest' shorter', same left left' → SameKinds rest rest' →
      Agrees multiplies extra same (juxtaposedFrom scope last ts.length left rest shorter)
        (juxtaposedFrom scope last' ts'.length left' (rest' ++ extra) shorter')) :
    Agrees multiplies extra same (juxtaposed scope last ts) (juxtaposed scope last' ts') := by
  rw [juxtaposed, juxtaposed]
  refine hterm.bind ?_ ?_
  · intro left shorter b rest shorter' h
    dsimp only at h
    rw [juxtaposedFrom] at h
    cases h
    exact ⟨rfl, fun hends => hends.mono fun _ => raises_of_multiplies⟩
  · intro left rest shorter left' rest' shorter' hleft hrest
    exact hfrom left rest shorter left' rest' shorter' hleft hrest

theorem power_agrees_of_subscripted (hjoins : Joins same)
    (hbase : Agrees raises extra same (subscripted scope last ts) (subscripted scope last' ts'))
    (hsigned : ∀ more more', more.length < ts.length → SameKinds more more' →
      Agrees raises extra SameTree (signedTerm scope last more)
        (signedTerm scope last' (more' ++ extra))) :
    Agrees raises extra same (power scope last ts) (power scope last' ts') := by
  rw [power, power]
  refine hbase.bind ?_ ?_
  · rintro base h _ _ _ ⟨⟩
    exact ⟨rfl, id⟩
  · intro base rest shorter base' rest' shorter' hbase hrest
    cases hrest with
    | nil =>
      refine agrees_stop hbase ⟨shorter, rfl⟩ fun hends => ⟨shorter', ?_⟩
      cases extra with
      | nil => rfl
      | cons t extra => exact if_neg (hends.ne_exp t rfl)
    | @cons t t' more more' ht hmore =>
      have hlength : more.length < ts.length := Nat.lt_of_succ_lt shorter
      have hexp : t.kind = .exp ↔ t'.kind = .exp := ht.eq_iff (by simp)
      dsimp only [List.cons_append]
      by_cases hkind : t.kind = .exp
      · rw [if_pos hkind, if_pos (hexp.1 hkind)]
        exact (hsigned more more' hlength hmore).map (fun _ _ _ => ⟨_, rfl⟩)
          (fun _ _ _ => ⟨_, rfl⟩) fun exponent exponent' => hjoins .exp _ _ _ _ hbase
      · rw [if_neg hkind, if_neg (hexp.not.1 hkind)]
        exact agrees_ok hbase (.cons ht hmore)

end

/-! ### What is called

A call is read alike where its arguments are.
-/

section

variable {name : Name} {callee : Callee} {arity : Option Nat} {start start' : Nat}
  {ts ts' : List Token}

theorem called_agrees
    (harguments : Agrees raises extra (fun a a' => SameTrees a.1 a'.1) (arguments scope last ts)
      (arguments scope last' (ts' ++ extra))) :
    Agrees raises extra SameTree
      (do
        let ⟨(args, stop), rest, h⟩ ← arguments scope last ts
        let e ← callOf name callee arity args (Span.ofBytes start stop)
        .ok (⟨e, rest, Nat.lt_succ_of_lt h⟩ : Reading (ts.length + 1) Expr))
      (do
        let ⟨(args, stop), rest, h⟩ ← arguments scope last' (ts' ++ extra)
        let e ← callOf name callee arity args (Span.ofBytes start' stop)
        .ok (⟨e, rest, Nat.lt_succ_of_lt h⟩ : Reading ((ts' ++ extra).length + 1) Expr)) := by
  refine harguments.bind ?_ ?_
  · rintro ⟨args, stop⟩ h e rest h' hcall
    exact ⟨rest_of_callOf hcall, id⟩
  · rintro ⟨args, stop⟩ rest h ⟨args', stop'⟩ rest' h' hargs hrest
    exact callOf_agrees hargs hrest

/-- A command for a function takes what is in parentheses behind it, or one argument without. -/
theorem operand_agrees_function {spelling spelling' : String} {stop stop' : Nat}
    (hname : Name.ofSpelling spelling = Name.ofSpelling spelling') (hts : SameKinds ts ts')
    (harguments : Agrees raises extra (fun a a' => SameTrees a.1 a'.1) (arguments scope last ts)
      (arguments scope last' (ts' ++ extra)))
    (hbare : ts ≠ [] → Agrees raises extra SameTree (bareArgument scope last ts)
      (bareArgument scope last' (ts' ++ extra))) :
    Agrees raises extra SameTree (operand scope last (⟨.function spelling, start, stop⟩ :: ts))
      (operand scope last' (⟨.function spelling', start', stop'⟩ :: (ts' ++ extra))) := by
  rw [operand.eq_def scope last, operand.eq_def scope last']
  dsimp only
  rw [hname]
  cases hts with
  | nil =>
    refine agrees_fault rfl ?_
    rintro rfl
    exact ⟨_, rfl, rfl⟩
  | @cons u u' more more' hu hmore =>
    have hopen : isOpen (u' :: more' ++ extra) = isOpen (u :: more) :=
      (SameKinds.isOpen (.cons hu hmore)).symm
    rw [hopen]
    split
    · exact called_agrees harguments
    · refine (hbare (List.cons_ne_nil _ _)).bind ?_ ?_
      · intro arg h e rest h' hcall
        exact ⟨rest_of_callOf hcall, id⟩
      · intro arg rest h arg' rest' h' harg hrest
        exact callOf_agrees (sameTrees_single harg) hrest

/-- Whether a name is called is seen from what is behind it. -/
theorem operand_agrees_name {spelling : String} {stop stop' : Nat} (hts : SameKinds ts ts')
    (harguments : Agrees raises extra (fun a a' => SameTrees a.1 a'.1) (arguments scope last ts)
      (arguments scope last' (ts' ++ extra))) :
    Agrees raises extra SameTree (operand scope last (⟨.ident spelling, start, stop⟩ :: ts))
      (operand scope last' (⟨.ident spelling, start', stop'⟩ :: (ts' ++ extra))) := by
  have hname : isOpen (ts' ++ extra) = isOpen ts →
      Agrees raises extra SameTree (operand scope last (⟨.ident spelling, start, stop⟩ :: ts))
        (operand scope last' (⟨.ident spelling, start', stop'⟩ :: (ts' ++ extra))) := by
    intro hopen
    rw [operand.eq_def scope last, operand.eq_def scope last']
    dsimp only
    rw [hopen]
    have huse := useOf_same scope spelling (Span.ofBytes start stop) (Span.ofBytes start' stop')
      (isOpen ts)
    generalize useOf scope spelling (Span.ofBytes start stop) (isOpen ts) = use at huse ⊢
    generalize useOf scope spelling (Span.ofBytes start' stop') (isOpen ts) = use' at huse ⊢
    cases huse with
    | operand h => exact agrees_ok h hts
    | call callee arity => exact called_agrees harguments
  cases hts with
  | nil =>
    refine agrees_of_ends ?_ fun hends => hname ?_
    · intro a rest shorter _
      exact List.length_eq_zero_iff.1 (Nat.lt_one_iff.1 shorter)
    · rw [List.nil_append, (ends_opens hends).isOpen]
      rfl
  | cons hu hmore => exact hname (SameKinds.isOpen (.cons hu hmore)).symm

end

mutual

theorem sum_agrees (ts ts' : List Token) (hts : SameKinds ts ts') :
    Agrees adds extra SameTree (sum scope last ts) (sum scope last' (ts' ++ extra)) := by
  refine sum_agrees_of_product (product_agrees ts ts' hts) ?_
  intro left rest shorter left' rest' shorter' hleft hrest
  exact sumFrom_agrees joins_sameTree hleft rest rest' hrest
termination_by 10 * ts.length + 6

theorem sumFrom_agrees {same : Expr → Expr → Prop} (hjoins : Joins same) {n n' : Nat}
    {left left' : Expr} (hleft : same left left') :
    ∀ (ts ts' : List Token), SameKinds ts ts' → ∀ {shorter shorter'},
      Agrees adds extra same (sumFrom scope last n left ts shorter)
        (sumFrom scope last' n' left' (ts' ++ extra) shorter')
  | [], ts', hts, shorter, shorter' => by
    obtain rfl := List.forall₂_nil_left_iff.1 hts
    refine agrees_stop hleft ⟨shorter, by rw [sumFrom]⟩ fun hends => ⟨shorter', ?_⟩
    exact sumFrom_of_ends hends shorter'
  | t :: more, ts', hts, shorter, shorter' => by
    obtain ⟨t', more', ht, hmore, rfl⟩ := List.forall₂_cons_left_iff.1 hts
    change Agrees _ _ _ _ (sumFrom scope last' n' left' (t' :: (more' ++ extra)) shorter')
    rw [sumFrom, sumFrom, ht.sumOp?]
    split
    · exact agrees_ok hleft hts
    · refine (product_agrees more more' hmore).bind ?_ ?_
      · intro right h b rest h' heq
        dsimp only at heq
        rw [sumFrom] at heq
        cases heq
        exact ⟨rfl, ends_operates⟩
      · intro right rest h right' rest' h' hright hrest
        have hlength : rest.length < more.length := h
        exact sumFrom_agrees hjoins (hjoins _ _ _ _ _ hleft hright) rest rest' hrest
termination_by ts => 10 * ts.length + 9

theorem product_agrees (ts ts' : List Token) (hts : SameKinds ts ts') :
    Agrees operates extra SameTree (product scope last ts)
      (product scope last' (ts' ++ extra)) := by
  refine product_agrees_of_juxtaposed (juxtaposed_agrees ts ts' hts) ?_
  intro left rest shorter left' rest' shorter' hleft hrest
  exact productFrom_agrees joins_sameTree hleft rest rest' hrest
termination_by 10 * ts.length + 5

theorem productFrom_agrees {same : Expr → Expr → Prop} (hjoins : Joins same) {n n' : Nat}
    {left left' : Expr} (hleft : same left left') :
    ∀ (ts ts' : List Token), SameKinds ts ts' → ∀ {shorter shorter'},
      Agrees operates extra same (productFrom scope last n left ts shorter)
        (productFrom scope last' n' left' (ts' ++ extra) shorter')
  | [], ts', hts, shorter, shorter' => by
    obtain rfl := List.forall₂_nil_left_iff.1 hts
    refine agrees_stop hleft ⟨shorter, by rw [productFrom]⟩ fun hends => ⟨shorter', ?_⟩
    exact productFrom_of_ends hends shorter'
  | t :: more, ts', hts, shorter, shorter' => by
    obtain ⟨t', more', ht, hmore, rfl⟩ := List.forall₂_cons_left_iff.1 hts
    change Agrees _ _ _ _ (productFrom scope last' n' left' (t' :: (more' ++ extra)) shorter')
    rw [productFrom, productFrom, ht.productOp?]
    split
    · exact agrees_ok hleft hts
    · refine (juxtaposed_agrees more more' hmore).bind ?_ ?_
      · intro right h b rest h' heq
        dsimp only at heq
        rw [productFrom] at heq
        cases heq
        exact ⟨rfl, fun hends => hends.mono fun _ => multiplies_of_operates⟩
      · intro right rest h right' rest' h' hright hrest
        have hlength : rest.length < more.length := h
        exact productFrom_agrees hjoins (hjoins _ _ _ _ _ hleft hright) rest rest' hrest
termination_by ts => 10 * ts.length + 9

theorem juxtaposed_agrees (ts ts' : List Token) (hts : SameKinds ts ts') :
    Agrees multiplies extra SameTree (juxtaposed scope last ts)
      (juxtaposed scope last' (ts' ++ extra)) := by
  refine juxtaposed_agrees_of_signedTerm (signedTerm_agrees ts ts' hts) ?_
  intro left rest shorter left' rest' shorter' hleft hrest
  exact juxtaposedFrom_agrees joins_sameTree hleft rest rest' hrest
termination_by 10 * ts.length + 4

theorem juxtaposedFrom_agrees {same : Expr → Expr → Prop} (hjoins : Joins same) {n n' : Nat}
    {left left' : Expr} (hleft : same left left') :
    ∀ (ts ts' : List Token), SameKinds ts ts' → ∀ {shorter shorter'},
      Agrees multiplies extra same (juxtaposedFrom scope last n left ts shorter)
        (juxtaposedFrom scope last' n' left' (ts' ++ extra) shorter')
  | [], ts', hts, shorter, shorter' => by
    obtain rfl := List.forall₂_nil_left_iff.1 hts
    refine agrees_stop hleft ⟨shorter, by rw [juxtaposedFrom]⟩ fun hends => ⟨shorter', ?_⟩
    exact juxtaposedFrom_of_ends hends shorter'
  | t :: more, ts', hts, shorter, shorter' => by
    obtain ⟨t', more', ht, hmore, rfl⟩ := List.forall₂_cons_left_iff.1 hts
    change Agrees _ _ _ _ (juxtaposedFrom scope last' n' left' (t' :: (more' ++ extra)) shorter')
    rw [juxtaposedFrom, juxtaposedFrom, ht.startsOperand]
    split
    · refine (power_agrees (t :: more) (t' :: more') hts).bind ?_ ?_
      · intro right h b rest h' heq
        dsimp only at heq
        rw [juxtaposedFrom] at heq
        cases heq
        exact ⟨rfl, fun hends => hends.mono fun _ => raises_of_multiplies⟩
      · intro right rest h right' rest' h' hright hrest
        have hlength : rest.length ≤ more.length := Nat.le_of_lt_succ h
        exact juxtaposedFrom_agrees hjoins (hjoins _ _ _ _ _ hleft hright) rest rest' hrest
    · exact agrees_ok hleft hts
termination_by ts => 10 * ts.length + 9

theorem signedTerm_agrees :
    ∀ ts ts' : List Token, SameKinds ts ts' →
      Agrees raises extra SameTree (signedTerm scope last ts)
        (signedTerm scope last' (ts' ++ extra))
  | [], ts', hts => by
    obtain rfl := List.forall₂_nil_left_iff.1 hts
    refine agrees_fault signedTerm_nil ?_
    rintro rfl
    exact ⟨_, signedTerm_nil, rfl⟩
  | t :: more, ts', hts => by
    obtain ⟨t', more', ht, hmore, rfl⟩ := List.forall₂_cons_left_iff.1 hts
    rw [List.cons_append, signedTerm, signedTerm, ht.sign?]
    split
    · exact power_agrees (t :: more) (t' :: more') hts
    · refine (signedTerm_agrees more more' hmore).map (fun _ _ _ => ⟨_, rfl⟩)
        (fun _ _ _ => ⟨_, rfl⟩) fun operand operand' hoperand => ?_
      rw [SameTree, bare, bare, hoperand]
termination_by ts => 10 * ts.length + 3

theorem power_agrees (ts ts' : List Token) (hts : SameKinds ts ts') :
    Agrees raises extra SameTree (power scope last ts) (power scope last' (ts' ++ extra)) := by
  refine power_agrees_of_subscripted joins_sameTree (subscripted_agrees ts ts' hts) ?_
  intro more more' hlength hmore
  exact signedTerm_agrees more more' hmore
termination_by 10 * ts.length + 2

theorem subscripted_agrees (ts ts' : List Token) (hts : SameKinds ts ts') :
    Agrees raises extra SameTree (subscripted scope last ts)
      (subscripted scope last' (ts' ++ extra)) := by
  rw [subscripted, subscripted]
  refine (operand_agrees ts ts' hts).bind ?_ ?_
  · intro base shorter b rest shorter' h
    dsimp only at h
    rw [subscriptedFrom] at h
    cases h
    exact ⟨rfl, id⟩
  · intro base rest shorter base' rest' shorter' hbase hrest
    exact subscriptedFrom_agrees hbase rest rest' hrest
termination_by 10 * ts.length + 1

theorem subscriptedFrom_agrees {n n' : Nat} {base base' : Expr} (hbase : SameTree base base') :
    ∀ (ts ts' : List Token), SameKinds ts ts' → ∀ {shorter shorter'},
      Agrees raises extra SameTree (subscriptedFrom scope last n base ts shorter)
        (subscriptedFrom scope last' n' base' (ts' ++ extra) shorter')
  | [], ts', hts, shorter, shorter' => by
    obtain rfl := List.forall₂_nil_left_iff.1 hts
    refine agrees_stop hbase ⟨shorter, by rw [subscriptedFrom]⟩ fun hends => ⟨shorter', ?_⟩
    exact subscriptedFrom_of_ne (ends_opens hends).ne_lbracket shorter'
  | t :: more, ts', hts, shorter, shorter' => by
    obtain ⟨t', more', ht, hmore, rfl⟩ := List.forall₂_cons_left_iff.1 hts
    have hindexable : base.isIndexable = base'.isIndexable := by
      rw [← isIndexable_bare base, hbase, isIndexable_bare]
    have hopens : t.kind = .lbracket ↔ t'.kind = .lbracket := ht.eq_iff nofun
    change Agrees _ _ _ _ (subscriptedFrom scope last' n' base' (t' :: (more' ++ extra)) shorter')
    rw [subscriptedFrom, subscriptedFrom, hindexable]
    by_cases hkind : t.kind = .lbracket ∧ base'.isIndexable
    · rw [if_pos hkind, if_pos ⟨hopens.1 hkind.1, hkind.2⟩]
      refine (sum_agrees more more' hmore).bind_close (by nofun) (fun _ _ _ => rfl)
        (fun _ _ _ => rfl) ?_ ?_
      · intro position rest h stop h₁ b rest₂ h₂ heq
        dsimp only at heq
        rw [subscriptedFrom] at heq
        cases heq
        rfl
      · intro position rest h position' rest' h' hposition stop rest₂ h₂ stop' rest₂' h₂' hrest₂
        refine subscriptedFrom_agrees ?_ rest₂ rest₂' hrest₂
        rw [SameTree, bare, bare, hbase, hposition]
    · rw [if_neg hkind, if_neg fun h => hkind ⟨hopens.2 h.1, h.2⟩]
      exact agrees_ok hbase hts
termination_by ts => 10 * ts.length + 9

theorem operand_agrees :
    ∀ ts ts' : List Token, SameKinds ts ts' →
      Agrees raises extra SameTree (operand scope last ts) (operand scope last' (ts' ++ extra))
  | [], ts', hts => by
    obtain rfl := List.forall₂_nil_left_iff.1 hts
    refine agrees_fault operand_nil ?_
    rintro rfl
    exact ⟨_, operand_nil, rfl⟩
  | t :: more, ts', hts => by
    obtain ⟨⟨kind', start', stop'⟩, more', ht, hmore, rfl⟩ := List.forall₂_cons_left_iff.1 hts
    obtain ⟨kind, start, stop⟩ := t
    change Token.Kind.Same kind kind' at ht
    have hfunction : ∀ spelling spelling', Name.ofSpelling spelling = Name.ofSpelling spelling' →
        Agrees raises extra SameTree
          (operand scope last (⟨.function spelling, start, stop⟩ :: more))
          (operand scope last' (⟨.function spelling', start', stop'⟩ :: (more' ++ extra))) := by
      intro spelling spelling' hname
      refine operand_agrees_function hname hmore (arguments_agrees more more' hmore) fun hne => ?_
      cases hmore with
      | nil => exact absurd rfl hne
      | cons hu hmore => exact bareArgument_agrees hu hmore
    cases ht with
    | function h => exact hfunction _ _ h
    | refl =>
      change Agrees _ _ _ _ (operand scope last' (⟨kind', start', stop'⟩ :: (more' ++ extra)))
      cases kind' with
      | function spelling => exact hfunction spelling spelling rfl
      | num literal =>
        rw [operand.eq_def scope last, operand.eq_def scope last']
        dsimp only
        split
        · exact agrees_ok rfl hmore
        · exact agrees_error rfl
      | unit text =>
        rw [operand.eq_def scope last, operand.eq_def scope last']
        exact agrees_ok rfl hmore
      | ident spelling => exact operand_agrees_name hmore (arguments_agrees more more' hmore)
      | frac =>
        rw [operand.eq_def scope last, operand.eq_def scope last']
        refine (fractionPart_agrees more more' hmore).bind ?_ ?_
        · intro numerator h e rest h' heq
          dsimp only at heq
          rw [fractionPart_nil] at heq
          cases heq
        · intro numerator rest h numerator' rest' h' hnumerator hrest
          refine (fractionPart_agrees rest rest' hrest).map (fun _ _ _ => ⟨_, rfl⟩)
            (fun _ _ _ => ⟨_, rfl⟩) fun denominator denominator' hdenominator => ?_
          rw [SameTree, bare, bare, hnumerator, hdenominator]
      | sqrt =>
        rw [operand.eq_def scope last, operand.eq_def scope last']
        exact (root_agrees ⟨.sqrt, start, stop⟩ ⟨.sqrt, start', stop'⟩ more more' hmore).map
          (fun _ _ _ => ⟨_, rfl⟩) (fun _ _ _ => ⟨_, rfl⟩) fun _ _ => id
      | lparen | lbrace =>
        rw [operand.eq_def scope last, operand.eq_def scope last']
        refine (sum_agrees more more' hmore).map_close (by nofun) (fun _ _ _ => rfl)
          (fun _ _ _ => rfl) (fun _ _ _ _ _ _ => ⟨_, rfl⟩) (fun _ _ _ _ _ _ => ⟨_, rfl⟩)
          fun inner inner' _ _ hinner => ?_
        rw [SameTree, bare, bare, hinner]
      | lbracket =>
        rw [operand.eq_def scope last, operand.eq_def scope last']
        cases hmore with
        | nil =>
          refine agrees_fault rfl ?_
          rintro rfl
          exact ⟨_, rfl, rfl⟩
        | @cons u u' more more' hu hmore =>
          have hclosed : u.kind = .rbracket ↔ u'.kind = .rbracket := hu.eq_iff nofun
          change Agrees _ _ _ (if u.kind = .rbracket then _ else _)
            (if u'.kind = .rbracket then _ else _)
          by_cases hkind : u.kind = .rbracket
          · rw [if_pos hkind, if_pos (hclosed.1 hkind)]
            exact agrees_error rfl
          · rw [if_neg hkind, if_neg (hclosed.not.1 hkind)]
            refine (listed_agrees (u :: more) (u' :: more') (.cons hu hmore)).map_close (by nofun)
              (fun _ _ _ => rfl) (fun _ _ _ => rfl) (fun _ _ _ _ _ _ => ⟨_, rfl⟩)
              (fun _ _ _ _ _ _ => ⟨_, rfl⟩) fun elements elements' _ _ helements => ?_
            rw [SameTree, bare, bare, helements]
      | _ =>
        rw [operand.eq_def scope last, operand.eq_def scope last']
        exact agrees_error rfl
termination_by ts => 10 * ts.length

theorem root_agrees (command command' : Token) :
    ∀ ts ts' : List Token, SameKinds ts ts' →
      Agrees raises extra SameTree (root scope last command ts)
        (root scope last' command' (ts' ++ extra))
  | [], ts', hts => by
    obtain rfl := List.forall₂_nil_left_iff.1 hts
    rw [root]
    refine agrees_fault rfl ?_
    rintro rfl
    exact ⟨endFault last', by rw [List.append_nil, root], rfl⟩
  | t :: more, ts', hts => by
    obtain ⟨t', more', ht, hmore, rfl⟩ := List.forall₂_cons_left_iff.1 hts
    have hopens : t.kind = .lbracket ↔ t'.kind = .lbracket := ht.eq_iff nofun
    change Agrees _ _ _ _ (root scope last' command' (t' :: (more' ++ extra)))
    rw [root, root]
    by_cases hkind : t.kind = .lbracket
    · rw [if_pos hkind, if_pos (hopens.1 hkind)]
      refine (sum_agrees more more' hmore).bind_close (by nofun) (fun _ _ _ => rfl)
        (fun _ _ _ => rfl) ?_ ?_
      · intro degree rest h stop h₁ e rest₂ h₂ heq
        dsimp only at heq
        rw [operand_nil] at heq
        cases heq
      · intro degree rest h degree' rest' h' hdegree stop rest₂ h₂ stop' rest₂' h₂' hrest₂
        refine (operand_agrees rest₂ rest₂' hrest₂).map (fun _ _ _ => ⟨_, rfl⟩)
          (fun _ _ _ => ⟨_, rfl⟩) fun radicand radicand' hradicand => ?_
        rw [SameTree]
        simp only [bare, hradicand, hdegree]
    · rw [if_neg hkind, if_neg (hopens.not.1 hkind)]
      refine (operand_agrees (t :: more) (t' :: more') hts).map (fun _ _ _ => ⟨_, rfl⟩)
        (fun _ _ _ => ⟨_, rfl⟩) fun radicand radicand' hradicand => ?_
      rw [SameTree, bare, bare, bares, bares, hradicand]
      rfl
termination_by ts => 10 * ts.length + 1

theorem bareArgument_agrees {t t' : Token} {more more' : List Token} (ht : t.kind.Same t'.kind)
    (hmore : SameKinds more more') :
    Agrees raises extra SameTree (bareArgument scope last (t :: more))
      (bareArgument scope last' (t' :: more' ++ extra)) := by
  have hopens : t.kind = .lbrace ↔ t'.kind = .lbrace := ht.eq_iff nofun
  rw [bareArgument, bareArgument]
  by_cases hkind : t.kind = .lbrace
  · rw [if_pos (by simp [hkind]), if_pos (by simp [hopens.1 hkind])]
    exact operand_agrees (t :: more) (t' :: more') (.cons ht hmore)
  · rw [if_neg (by simp [hkind]), if_neg (by simp [hopens.not.1 hkind])]
    exact signedTerm_agrees (t :: more) (t' :: more') (.cons ht hmore)
termination_by 10 * (t :: more).length + 4

theorem fractionPart_agrees (ts ts' : List Token) (hts : SameKinds ts ts') :
    Agrees raises extra SameTree (fractionPart scope last ts)
      (fractionPart scope last' (ts' ++ extra)) := by
  have hoperand : Agrees raises extra SameTree
      (operand scope last ts >>= fun r => .ok ⟨r.value, r.rest, Nat.lt_succ_of_lt r.shorter⟩ :
        Except SourceError (Reading (ts.length + 1) Expr))
      (operand scope last' (ts' ++ extra) >>=
        fun r => .ok ⟨r.value, r.rest, Nat.lt_succ_of_lt r.shorter⟩ :
        Except SourceError (Reading ((ts' ++ extra).length + 1) Expr)) :=
    (operand_agrees ts ts' hts).map (fun _ _ _ => ⟨_, rfl⟩) (fun _ _ _ => ⟨_, rfl⟩) fun _ _ => id
  cases hts with
  | nil =>
    refine agrees_fault fractionPart_nil ?_
    rintro rfl
    exact ⟨_, fractionPart_nil, rfl⟩
  | @cons t t' more more' ht hmore =>
    obtain ⟨kind, start, stop⟩ := t
    obtain ⟨kind', start', stop'⟩ := t'
    change Token.Kind.Same kind kind' at ht
    change Agrees _ _ _ _ (fractionPart scope last' (⟨kind', start', stop'⟩ :: (more' ++ extra)))
    rw [fractionPart.eq_def scope last, fractionPart.eq_def scope last']
    cases ht with
    | function => exact hoperand
    | refl =>
      cases kind with
      | num literal =>
        dsimp only
        cases splitDigit? literal with
        | none => exact hoperand
        | some split =>
          obtain ⟨digit, others⟩ := split
          have hrest : SameKinds (⟨.num others, start + 1, stop⟩ :: more)
              (⟨.num others, start' + 1, stop'⟩ :: more') := .cons (.refl _) hmore
          have hdigit : ∀ literal x, SameTree (const (Span.ofBytes start (start + 1)) literal x)
              (const (Span.ofBytes start' (start' + 1)) literal x) := fun _ _ => rfl
          exact agrees_ok (hdigit _ _) hrest
      | _ => exact hoperand
termination_by 10 * ts.length + 1

theorem listed_agrees (ts ts' : List Token) (hts : SameKinds ts ts') :
    Agrees lists extra SameTrees (listed scope last ts) (listed scope last' (ts' ++ extra)) := by
  rw [listed, listed]
  refine (sum_agrees ts ts' hts).bind ?_ ?_
  · rintro first h _ _ _ ⟨⟩
    exact ⟨rfl, ends_adds⟩
  · intro first rest shorter first' rest' shorter' hfirst hrest
    have hone := sameTrees_single hfirst
    cases hrest with
    | nil =>
      refine agrees_stop hone ⟨shorter, rfl⟩ fun hends => ⟨shorter', ?_⟩
      cases extra with
      | nil => rfl
      | cons t extra => exact if_neg (hends.ne_comma t rfl)
    | @cons t t' more more' ht hmore =>
      have hlength : more.length < ts.length := Nat.lt_of_succ_lt shorter
      have hcomma : t.kind = .comma ↔ t'.kind = .comma := ht.eq_iff nofun
      dsimp only [List.cons_append]
      by_cases hkind : t.kind = .comma
      · rw [if_pos hkind, if_pos (hcomma.1 hkind)]
        refine (listed_agrees more more' hmore).map (fun _ _ _ => ⟨_, rfl⟩)
          (fun _ _ _ => ⟨_, rfl⟩) fun others others' hothers => ?_
        rw [SameTrees, bares, bares, hfirst, hothers]
      · rw [if_neg hkind, if_neg (hcomma.not.1 hkind)]
        exact agrees_ok hone (.cons ht hmore)
termination_by 10 * ts.length + 7

theorem arguments_agrees :
    ∀ ts ts' : List Token, SameKinds ts ts' →
      Agrees raises extra (fun a a' => SameTrees a.1 a'.1) (arguments scope last ts)
        (arguments scope last' (ts' ++ extra))
  | [], ts', hts => by
    obtain rfl := List.forall₂_nil_left_iff.1 hts
    rw [arguments]
    refine agrees_fault rfl ?_
    rintro rfl
    exact ⟨endFault last', by rw [List.append_nil, arguments], rfl⟩
  | t :: more, ts', hts => by
    obtain ⟨t', more', ht, hmore, rfl⟩ := List.forall₂_cons_left_iff.1 hts
    cases hmore with
    | nil =>
      refine agrees_fault (arguments_single t) ?_
      rintro rfl
      exact ⟨_, arguments_single t', rfl⟩
    | @cons u u' more more' hu hmore =>
      have hclosed : u.kind = .rparen ↔ u'.kind = .rparen := hu.eq_iff nofun
      change Agrees _ _ _ _ (arguments scope last' (t' :: (u' :: more' ++ extra)))
      rw [arguments, arguments]
      by_cases hkind : u.kind = .rparen
      · rw [if_pos (by simp [hkind]), if_pos (by simp [hclosed.1 hkind])]
        have hclose : Agrees raises extra (fun _ _ => True) (close .rparen t (u :: more))
            (close .rparen t' (u' :: more' ++ extra)) :=
          close_agrees .rparen nofun (.cons hu hmore)
        exact hclose.map (fun _ _ _ => ⟨_, rfl⟩) (fun _ _ _ => ⟨_, rfl⟩) fun _ _ _ => rfl
      · rw [if_neg (by simp [hkind]), if_neg (by simp [hclosed.not.1 hkind])]
        exact (listed_agrees (u :: more) (u' :: more') (.cons hu hmore)).map_close (by nofun)
          (fun _ _ _ => rfl) (fun _ _ _ => rfl) (fun _ _ _ _ _ _ => ⟨_, rfl⟩)
          (fun _ _ _ _ _ _ => ⟨_, rfl⟩) fun _ _ _ _ => id
termination_by ts => 10 * ts.length

end

/-- An operand without an index may be any other one: what is read behind it is the same. -/
theorem sum_agrees_of_operand {same : Expr → Expr → Prop} (hjoins : Joins same)
    (hindex : ∀ e e', same e e' → e.isIndexable = false ∧ e'.isIndexable = false)
    {t t' : Token} {more more' : List Token} (ht : sign? t.kind = none)
    (ht' : sign? t'.kind = none)
    (hoperand : Agrees raises extra same (operand scope last (t :: more))
      (operand scope last' (t' :: more'))) :
    Agrees adds extra same (sum scope last (t :: more)) (sum scope last' (t' :: more')) := by
  have hsubscripted : Agrees raises extra same (subscripted scope last (t :: more))
      (subscripted scope last' (t' :: more')) := by
    rw [subscripted, subscripted]
    refine hoperand.bind ?_ ?_
    · intro base shorter b rest shorter' h
      dsimp only at h
      rw [subscriptedFrom] at h
      cases h
      exact ⟨rfl, id⟩
    · intro base rest shorter base' rest' shorter' hbase hrest
      obtain ⟨hbase₁, hbase₂⟩ := hindex base base' hbase
      dsimp only
      rw [subscriptedFrom_of_not_isIndexable hbase₁, subscriptedFrom_of_not_isIndexable hbase₂]
      exact agrees_ok hbase hrest
  have hpower : Agrees raises extra same (power scope last (t :: more))
      (power scope last' (t' :: more')) :=
    power_agrees_of_subscripted hjoins hsubscripted fun more more' _ => signedTerm_agrees more more'
  have hterm : Agrees raises extra same (signedTerm scope last (t :: more))
      (signedTerm scope last' (t' :: more')) := by
    rw [signedTerm, signedTerm, ht, ht']
    exact hpower
  refine sum_agrees_of_product (product_agrees_of_juxtaposed
    (juxtaposed_agrees_of_signedTerm hterm ?_) ?_) ?_
  · intro left rest shorter left' rest' shorter' hleft hrest
    exact juxtaposedFrom_agrees hjoins hleft rest rest' hrest
  · intro left rest shorter left' rest' shorter' hleft hrest
    exact productFrom_agrees hjoins hleft rest rest' hrest
  · intro left rest shorter left' rest' shorter' hleft hrest
    exact sumFrom_agrees hjoins hleft rest rest' hrest

end

/-- What tokens are read as, tokens of the same kinds are read as at any other place, in front of
whatever does not go on with them. -/
theorem understands_of_sum {scope : Scope} {last : Nat} {ts : List Token} {e : Expr}
    (h : Reads (sum scope last ts) e []) (last' : Nat) :
    Understands (sum scope last') Token.Kind.adds (ts.map Token.kind) (SameTree e) := by
  intro front rest hfront hrest
  obtain ⟨shorter, hsum⟩ := h
  obtain ⟨e', rest', he, hrest', hreads⟩ :=
    (sum_agrees ts front (sameKinds_of_map hfront.symm)).result e [] shorter hsum fun _ => hrest
  obtain rfl := List.forall₂_nil_left_iff.1 hrest'
  exact ⟨e', he, hreads⟩

end Expr

/-- Both give the same, or both fail with the same code. -/
inductive SameResult {α : Type} (same : α → α → Prop) :
    Except SourceError α → Except SourceError α → Prop where
  | ok {a a' : α} (h : same a a') : SameResult same (.ok a) (.ok a')
  | error {e e' : SourceError} (h : e.code = e'.code) : SameResult same (.error e) (.error e')

theorem SameResult.of_ok {α : Type} {same : α → α → Prop} {a : α} {r : Except SourceError α}
    (h : SameResult same (.ok a) r) : ∃ a', r = .ok a' ∧ same a a' := by
  cases h with
  | ok h => exact ⟨_, rfl, h⟩

theorem SameResult.of_error {α : Type} {same : α → α → Prop} {e : SourceError}
    {r : Except SourceError α} (h : SameResult same (.error e) r) :
    ∃ e', r = .error e' ∧ e.code = e'.code := by
  cases h with
  | error h => exact ⟨_, rfl, h⟩

theorem SameResult.bind {α β : Type} {same : α → α → Prop} {same' : β → β → Prop}
    {r r' : Except SourceError α} {f f' : α → Except SourceError β} (hr : SameResult same r r')
    (hf : ∀ a a', same a a' → SameResult same' (f a) (f' a')) :
    SameResult same' (r >>= f) (r' >>= f') := by
  cases hr with
  | ok h => exact hf _ _ h
  | error h => exact .error h

section

variable {α : Type} {r r' r'' : Except SourceError α}

theorem sameResult_refl (r : Except SourceError α) : SameResult Eq r r := by
  cases r with
  | ok a => exact .ok rfl
  | error e => exact .error rfl

theorem SameResult.symm (h : SameResult Eq r r') : SameResult Eq r' r := by
  cases h with
  | ok h => exact .ok h.symm
  | error h => exact .error h.symm

theorem SameResult.trans (h : SameResult Eq r r') (h' : SameResult Eq r' r'') :
    SameResult Eq r r'' := by
  cases h with
  | ok h =>
    cases h' with
    | ok h' => exact .ok (h.trans h')
  | error h =>
    cases h' with
    | error h' => exact .error (h.trans h')

end

namespace Expr

variable {scope : Scope}

/-- Tokens that are summed to related trees are read as such, and the same is wrong with them. -/
theorem ofTokens_agrees {same : Expr → Expr → Prop} {same' : Option Expr → Option Expr → Prop}
    {t t' : Token} {ts ts' : List Token} (hsame : ∀ e e', same e e' → same' (some e) (some e'))
    (hsum : ∀ last last', Agrees Token.Kind.adds [] same (sum scope last (t :: ts))
      (sum scope last' (t' :: ts'))) :
    SameResult same' (ofTokens scope (t :: ts)) (ofTokens scope (t' :: ts')) := by
  rw [ofTokens, ofTokens, if_neg (by simp), if_neg (by simp)]
  generalize ((t :: ts).getLast?.map Token.stop).getD 0 = last
  generalize ((t' :: ts').getLast?.map Token.stop).getD 0 = last'
  dsimp only
  obtain ⟨hresult, hfault⟩ := hsum last last'
  cases hread : sum scope last (t :: ts) with
  | error e =>
    obtain ⟨e', he', hcode⟩ := hfault e hread rfl
    rw [he']
    exact .error hcode.symm
  | ok reading =>
    obtain ⟨e, rest, shorter⟩ := reading
    obtain ⟨e', rest', he, hrest, shorter', he'⟩ := hresult e rest shorter hread fun _ => ends_nil
    rw [he']
    cases hrest with
    | nil => exact .ok (hsame e e' he)
    | @cons u u' rest rest' hu hrest =>
      refine .error ?_
      change (if u.kind.isCloser then _ else _) = (if u'.kind.isCloser then _ else _)
      rw [hu.isCloser]

theorem ofTokens_same {ts ts' : List Token} (hts : SameKinds ts ts') :
    SameResult (fun e? e?' => e?.map bare = e?'.map bare) (ofTokens scope ts)
      (ofTokens scope ts') := by
  cases hts with
  | nil => exact .ok rfl
  | @cons t t' ts ts' ht hts =>
    refine ofTokens_agrees (fun e e' he => congrArg some he) fun last last' => ?_
    have hsum := @sum_agrees scope last last' [] _ _ (.cons ht hts)
    rwa [List.append_nil] at hsum

/-- Texts that are cut into tokens of the same kinds are read as the same. -/
theorem parse_same {text text' : String}
    (h : SameResult SameKinds (tokens ⟨scope.mode, scope.isUnitWord⟩ text)
      (tokens ⟨scope.mode, scope.isUnitWord⟩ text')) :
    SameResult (fun e? e?' => e?.map bare = e?'.map bare) (parse scope text)
      (parse scope text') :=
  h.bind fun _ _ => ofTokens_same

end Expr

/-! ## Tokens at other places -/

namespace Scan

open Worksheet.Expr

theorem sameKinds_place (ps : List Piece) (start start' : Nat) :
    SameResult SameKinds ((place start ps).mapM id) ((place start' ps).mapM id) := by
  induction ps generalizing start start' with
  | nil => exact .ok .nil
  | cons p ps ih =>
    rw [place, place]
    cases p.meaning with
    | layout => exact ih _ _
    | token kind =>
      dsimp only
      rw [List.mapM_cons, List.mapM_cons]
      exact (ih _ _).bind fun ts ts' hts => .ok (.cons (.refl kind) hts)
    | misread fault => exact .error rfl

/-- The tokens of a text are of the same kinds wherever it stands. -/
theorem sameKinds_tokensFrom (rules : ScanRules) (start start' depth : Nat) (cs : List Char) :
    SameResult SameKinds (tokensFrom rules start depth cs) (tokensFrom rules start' depth cs) :=
  sameKinds_place _ start start'

end Scan

end Worksheet
