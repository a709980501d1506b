import Worksheet.Expr.Parse
import Worksheet.Proofs.Except
import Worksheet.Proofs.Token.Scans
/-!
# What expressions are read from

For every level of the parser the tokens that it reads as an expression of some kind, whatever
tokens follow that do not go on with it. The rules follow the levels from tight to loose.
-/

namespace Worksheet

namespace Token.Kind

/-- Would make a call or a subscript of what is before it. -/
def opens (k : Kind) : Bool := k = .lparen || k = .lbracket

def raises (k : Kind) : Bool := k.opens || k = .exp

def multiplies (k : Kind) : Bool := k.raises || k.startsOperand

def operates (k : Kind) : Bool := k.multiplies || (Expr.productOp? k).isSome

def adds (k : Kind) : Bool := k.operates || (Expr.sumOp? k).isSome

def lists (k : Kind) : Bool := k.adds || k = .comma

end Token.Kind

namespace Expr

open Token.Kind

/-- The tokens that are left do not go on with one of some kind. -/
def Ends (p : Token.Kind → Bool) (rest : List Token) : Prop := ∀ t ∈ rest.head?, p t.kind = false

section

variable {p p' : Token.Kind → Bool} {rest : List Token}

theorem ends_nil : Ends p [] := nofun

theorem ends_cons {t : Token} (h : p t.kind = false) : Ends p (t :: rest) := by
  intro u hu
  cases hu
  exact h

theorem Ends.mono (h : Ends p rest) (hp : ∀ k, p k = false → p' k = false) : Ends p' rest :=
  fun t ht => hp t.kind (h t ht)

end

/-- Something was read, and these tokens are left. -/
def Reads {n : Nat} {α : Type} (r : Except SourceError (Reading n α)) (a : α)
    (rest : List Token) : Prop :=
  ∃ shorter, r = .ok ⟨a, rest, shorter⟩

/-- Tokens of these kinds are read as something that has a property, unless they go on. -/
def Understands {α : Type}
    (read : (ts : List Token) → Except SourceError (Reading ts.length α))
    (goesOn : Token.Kind → Bool) (ks : List Token.Kind) (Q : α → Prop) : Prop :=
  ∀ front rest : List Token, front.map Token.kind = ks → Ends goesOn rest →
    ∃ a, Q a ∧ Reads (read (front ++ rest)) a rest

section

variable {scope : Scope} {last : Nat} {rest : List Token} {ks ks' : List Token.Kind}
  {k : Token.Kind} {goesOn : Token.Kind → Bool} {Q R Q' : Expr → Prop}

theorem Understands.imp {α : Type}
    {read : (ts : List Token) → Except SourceError (Reading ts.length α)}
    {goesOn : Token.Kind → Bool} {Q Q' : α → Prop} (h : Understands read goesOn ks Q)
    (hQ : ∀ a, Q a → Q' a) : Understands read goesOn ks Q' := by
  intro front rest hfront hrest
  obtain ⟨a, ha, hreads⟩ := h front rest hfront hrest
  exact ⟨a, hQ a ha, hreads⟩

theorem Understands.mono {α : Type}
    {read : (ts : List Token) → Except SourceError (Reading ts.length α)}
    {p p' : Token.Kind → Bool} {Q : α → Prop} (h : Understands read p ks Q)
    (hp : ∀ k, p' k = false → p k = false) : Understands read p' ks Q :=
  fun front rest hfront hrest => h front rest hfront (hrest.mono hp)

/-! ## Operands -/

theorem Ends.isOpen (h : Ends opens rest) : isOpen rest = false := by
  cases rest with
  | nil => rfl
  | cons t rest =>
    have ht := h t rfl
    simp only [opens, Bool.or_eq_false_iff] at ht
    simpa [Expr.isOpen] using ht.1

theorem operand_ident {spelling : String} (hmode : scope.mode = .units)
    (h : ∀ span, Q (.var span (Name.ofSpelling spelling) .unresolved)) :
    Understands (operand scope last) opens [.ident spelling] Q := by
  intro front rest hfront hrest
  obtain ⟨⟨kind, start, stop⟩, rfl, hkind⟩ := List.map_eq_singleton_iff.1 hfront
  cases hkind
  refine ⟨_, h (Span.ofBytes start stop), ?_⟩
  change Reads (operand scope last (⟨.ident spelling, start, stop⟩ :: rest)) _ _
  refine ⟨by simp, ?_⟩
  rw [operand.eq_def]
  simp [useOf, hmode, hrest.isOpen]

theorem operand_num {literal : String} {x : Float}
    (hvalue : Number.Numeral.value? literal.toList = some x)
    (h : ∀ span, Q (.const span literal x)) :
    Understands (operand scope last) goesOn [.num literal] Q := by
  intro front rest hfront _
  obtain ⟨⟨kind, start, stop⟩, rfl, hkind⟩ := List.map_eq_singleton_iff.1 hfront
  cases hkind
  refine ⟨_, h (Span.ofBytes start stop), ?_⟩
  change Reads (operand scope last (⟨.num literal, start, stop⟩ :: rest)) _ _
  refine ⟨by simp, ?_⟩
  rw [operand.eq_def]
  simp [hvalue]

theorem operand_unit {text : String} (h : ∀ span, Q (.unit span text)) :
    Understands (operand scope last) goesOn [.unit text] Q := by
  intro front rest hfront _
  obtain ⟨⟨kind, start, stop⟩, rfl, hkind⟩ := List.map_eq_singleton_iff.1 hfront
  cases hkind
  refine ⟨_, h (Span.ofBytes start stop), ?_⟩
  change Reads (operand scope last (⟨.unit text, start, stop⟩ :: rest)) _ _
  refine ⟨by simp, ?_⟩
  rw [operand.eq_def]

theorem reads_close {closer : Token.Kind} {t : Token} (opener : Token) (h : t.kind = closer)
    (rest : List Token) :
    Reads (close closer opener (t :: rest)) t.stop rest := by
  refine ⟨by simp, ?_⟩
  rw [close, if_pos h]

theorem operand_group {opener closer : Token.Kind}
    (hpair : opener = .lparen ∧ closer = .rparen ∨ opener = .lbrace ∧ closer = .rbrace)
    (hinner : Understands (sum scope last) adds ks Q) (h : ∀ span e, Q e → Q' (.group span e)) :
    Understands (operand scope last) goesOn (opener :: (ks ++ [closer])) Q' := by
  intro front rest hfront _
  obtain ⟨⟨kind, start, stop⟩, front, rfl, hkind, hmap⟩ := List.map_eq_cons_iff.1 hfront
  obtain ⟨inner, closing, rfl, hks, hclosing⟩ := List.map_eq_append_iff.1 hmap
  obtain ⟨t, rfl, ht⟩ := List.map_eq_singleton_iff.1 hclosing
  change kind = opener at hkind
  subst hkind
  have hends : Ends adds (t :: rest) := by
    apply ends_cons
    rcases hpair with ⟨-, rfl⟩ | ⟨-, rfl⟩ <;> rw [ht] <;> rfl
  obtain ⟨e, he, shorter, hsum⟩ := hinner inner (t :: rest) hks hends
  obtain ⟨shorter', hclose⟩ := reads_close ⟨kind, start, stop⟩ ht rest
  have happend : inner ++ [t] ++ rest = inner ++ t :: rest := by simp
  refine ⟨_, h (Span.ofBytes start t.stop) e he, ?_⟩
  rw [List.cons_append, happend]
  refine ⟨by simp; omega, ?_⟩
  rcases hpair with ⟨rfl, rfl⟩ | ⟨rfl, rfl⟩
  · rw [operand.eq_def]
    simp [hsum, hclose]
  · rw [operand.eq_def]
    simp [hsum, hclose]

/-! ## Powers and signs -/

theorem subscriptedFrom_of_ne {n : Nat} {e : Expr} (hrest : ∀ t ∈ rest.head?, t.kind ≠ .lbracket)
    (shorter : rest.length < n) :
    subscriptedFrom scope last n e rest shorter = .ok ⟨e, rest, shorter⟩ := by
  cases rest with
  | nil => rw [subscriptedFrom]
  | cons t rest => rw [subscriptedFrom, if_neg fun h => hrest t rfl h.1]

theorem Ends.ne_lbracket (h : Ends opens rest) : ∀ t ∈ rest.head?, t.kind ≠ .lbracket := by
  intro t ht
  have hopens := h t ht
  simp only [opens, Bool.or_eq_false_iff, decide_eq_false_iff_not] at hopens
  exact hopens.2

theorem subscripted_of_operand (h : Understands (operand scope last) opens ks Q) :
    Understands (subscripted scope last) opens ks Q := by
  intro front rest hfront hrest
  obtain ⟨e, he, shorter, hoperand⟩ := h front rest hfront hrest
  refine ⟨e, he, shorter, ?_⟩
  rw [subscripted, hoperand, ok_bind]
  exact subscriptedFrom_of_ne hrest.ne_lbracket shorter

theorem ends_opens (h : Ends raises rest) : Ends opens rest := h.mono fun k hk => by
  simp only [raises, Bool.or_eq_false_iff] at hk
  exact hk.1

theorem Ends.ne_exp (h : Ends raises rest) : ∀ t ∈ rest.head?, t.kind ≠ .exp := by
  intro t ht
  have hraises := h t ht
  simp only [raises, Bool.or_eq_false_iff, decide_eq_false_iff_not] at hraises
  exact hraises.2

theorem power_of_subscripted (h : Understands (subscripted scope last) opens ks Q) :
    Understands (power scope last) raises ks Q := by
  intro front rest hfront hrest
  obtain ⟨e, he, shorter, hbase⟩ := h front rest hfront (ends_opens hrest)
  refine ⟨e, he, shorter, ?_⟩
  rw [power, hbase, ok_bind]
  cases rest with
  | nil => rfl
  | cons t rest => exact if_neg (hrest.ne_exp t rfl)

theorem power_exp (hbase : Understands (subscripted scope last) opens ks Q)
    (hexponent : Understands (signedTerm scope last) raises ks' R)
    (h : ∀ base exponent, Q base → R exponent → Q' (join .exp base exponent)) :
    Understands (power scope last) raises (ks ++ .exp :: ks') Q' := by
  intro front rest hfront hrest
  obtain ⟨front, others, rfl, hks, hothers⟩ := List.map_eq_append_iff.1 hfront
  obtain ⟨t, others, rfl, ht, hks'⟩ := List.map_eq_cons_iff.1 hothers
  obtain ⟨base, hQ, shorter, hreads⟩ :=
    hbase front (t :: (others ++ rest)) hks (ends_cons (by rw [ht]; rfl))
  obtain ⟨exponent, hR, shorter', hreads'⟩ := hexponent others rest hks' hrest
  refine ⟨_, h base exponent hQ hR, ?_⟩
  rw [List.append_assoc, List.cons_append]
  refine ⟨by simp; omega, ?_⟩
  rw [power, hreads, ok_bind]
  simp [ht, hreads']

theorem signedTerm_of_power (hk : sign? k = none)
    (h : Understands (power scope last) raises (k :: ks) Q) :
    Understands (signedTerm scope last) raises (k :: ks) Q := by
  intro front rest hfront hrest
  obtain ⟨e, he, hreads⟩ := h front rest hfront hrest
  obtain ⟨t, front, rfl, rfl, hks⟩ := List.map_eq_cons_iff.1 hfront
  refine ⟨e, he, ?_⟩
  rw [List.cons_append, signedTerm, hk]
  exact hreads

theorem signedTerm_sign {sign : Sign} (hk : sign? k = some sign)
    (h : Understands (signedTerm scope last) raises ks Q)
    (hsigned : ∀ span e, Q e → Q' (.signed span sign e)) :
    Understands (signedTerm scope last) raises (k :: ks) Q' := by
  intro front rest hfront hrest
  obtain ⟨t, front, rfl, rfl, hks⟩ := List.map_eq_cons_iff.1 hfront
  obtain ⟨e, he, shorter, hreads⟩ := h front rest hks hrest
  refine ⟨_, hsigned (Span.ofBytes t.start e.span.stop) e he, ?_⟩
  rw [List.cons_append]
  refine ⟨Nat.lt_succ_of_lt shorter, ?_⟩
  rw [signedTerm, hk]
  simp [hreads]

/-! ## Products -/

theorem juxtaposedFrom_of_ends {n : Nat} {e : Expr} (hrest : Ends multiplies rest)
    (shorter : rest.length < n) :
    juxtaposedFrom scope last n e rest shorter = .ok ⟨e, rest, shorter⟩ := by
  cases rest with
  | nil => rw [juxtaposedFrom]
  | cons t rest =>
    have ht : t.kind.startsOperand = false := by
      have hmultiplies := hrest t rfl
      simp only [multiplies, Bool.or_eq_false_iff] at hmultiplies
      exact hmultiplies.2
    simp [juxtaposedFrom, ht]

theorem raises_of_multiplies (hk : multiplies k = false) : raises k = false := by
  simp only [multiplies, Bool.or_eq_false_iff] at hk
  exact hk.1

theorem juxtaposed_of_signedTerm (h : Understands (signedTerm scope last) raises ks Q) :
    Understands (juxtaposed scope last) multiplies ks Q := by
  intro front rest hfront hrest
  obtain ⟨e, he, shorter, hreads⟩ :=
    h front rest hfront (hrest.mono fun _ => raises_of_multiplies)
  refine ⟨e, he, shorter, ?_⟩
  rw [juxtaposed, hreads, ok_bind]
  exact juxtaposedFrom_of_ends hrest shorter

/-- Two factors beside each other. -/
theorem juxtaposed_pair
    (hleft : Understands (signedTerm scope last) goesOn ks Q) (hk : goesOn k = false)
    (hstarts : k.startsOperand)
    (hright : Understands (power scope last) raises (k :: ks') R)
    (h : ∀ left right, Q left → R right → Q' (join .mul left right)) :
    Understands (juxtaposed scope last) multiplies (ks ++ k :: ks') Q' := by
  intro front rest hfront hrest
  obtain ⟨front, others, rfl, hks, hothers⟩ := List.map_eq_append_iff.1 hfront
  obtain ⟨right, hR, hreads'⟩ :=
    hright others rest hothers (hrest.mono fun _ => raises_of_multiplies)
  obtain ⟨t, others, rfl, rfl, hks'⟩ := List.map_eq_cons_iff.1 hothers
  rw [List.cons_append] at hreads'
  obtain ⟨shorter', hreads'⟩ := hreads'
  obtain ⟨left, hQ, shorter, hreads⟩ :=
    hleft front (t :: (others ++ rest)) hks (ends_cons hk)
  refine ⟨_, h left right hQ hR, ?_⟩
  rw [List.append_assoc, List.cons_append]
  refine ⟨by simp; omega, ?_⟩
  rw [juxtaposed, hreads, ok_bind]
  simp only [juxtaposedFrom, hstarts, if_true, hreads', ok_bind]
  exact juxtaposedFrom_of_ends hrest _

/-- What follows the first factor of a product: factors, each with its sign. -/
inductive Tail (scope : Scope) (last : Nat) :
    List Token.Kind → (Expr → Prop) → (Expr → Prop) → Prop where
  | nil {Q : Expr → Prop} : Tail scope last [] Q Q
  | cons {k : Token.Kind} {op : BinaryOp} {ks ks' : List Token.Kind} {Q R Q' Q'' : Expr → Prop}
      (hop : productOp? k = some op) (hfactor : Understands (juxtaposed scope last) multiplies ks R)
      (hjoin : ∀ left right, Q left → R right → Q' (join op left right))
      (others : Tail scope last ks' Q' Q'') :
      Tail scope last (k :: (ks ++ ks')) Q Q''

theorem Tail.append {Q'' : Expr → Prop} (h : Tail scope last ks Q Q')
    (h' : Tail scope last ks' Q' Q'') : Tail scope last (ks ++ ks') Q Q'' := by
  induction h with
  | nil => exact h'
  | cons hop hfactor hjoin others ih =>
    rw [List.cons_append, List.append_assoc]
    exact .cons hop hfactor hjoin (ih h')

theorem multiplies_of_operates (hk : operates k = false) : multiplies k = false := by
  simp only [operates, Bool.or_eq_false_iff] at hk
  exact hk.1

theorem multiplies_of_productOp? {op : BinaryOp} (hk : productOp? k = some op) :
    multiplies k = false := by
  cases k <;> first | rfl | cases hk

theorem Tail.ends (h : Tail scope last ks Q Q') {front : List Token}
    (hfront : front.map Token.kind = ks) (hrest : Ends operates rest) :
    Ends multiplies (front ++ rest) := by
  cases h with
  | nil =>
    obtain rfl := List.map_eq_nil_iff.1 hfront
    exact hrest.mono fun _ => multiplies_of_operates
  | cons hop hfactor hjoin others =>
    obtain ⟨t, front, rfl, rfl, -⟩ := List.map_eq_cons_iff.1 hfront
    exact ends_cons (multiplies_of_productOp? hop)

theorem productFrom_of_ends {n : Nat} {e : Expr} (hrest : Ends operates rest)
    (shorter : rest.length < n) :
    productFrom scope last n e rest shorter = .ok ⟨e, rest, shorter⟩ := by
  cases rest with
  | nil => rw [productFrom]
  | cons t rest =>
    have ht : productOp? t.kind = none := by
      have hoperates := hrest t rfl
      simp only [operates, Bool.or_eq_false_iff] at hoperates
      simpa using hoperates.2
    rw [productFrom, ht]

theorem Tail.reads (h : Tail scope last ks Q Q') {n : Nat} {left : Expr} {front : List Token}
    (hfront : front.map Token.kind = ks) (hrest : Ends operates rest) (hleft : Q left)
    (shorter : (front ++ rest).length < n) :
    ∃ e, Q' e ∧ Reads (productFrom scope last n left (front ++ rest) shorter) e rest := by
  induction h generalizing left front with
  | nil =>
    obtain rfl := List.map_eq_nil_iff.1 hfront
    change ∃ e, _ ∧ Reads (productFrom scope last n left rest shorter) e rest
    exact ⟨left, hleft, shorter, productFrom_of_ends hrest shorter⟩
  | @cons k op ks ks' Q R Q' Q'' hop hfactor hjoin others ih =>
    obtain ⟨t, front, rfl, rfl, hmap⟩ := List.map_eq_cons_iff.1 hfront
    obtain ⟨front, more, rfl, hks, hks'⟩ := List.map_eq_append_iff.1 hmap
    obtain ⟨right, hR, hreads⟩ :=
      hfactor front (more ++ rest) hks (others.ends hks' hrest)
    rw [← List.append_assoc] at hreads
    obtain ⟨shorter', hreads⟩ := hreads
    obtain ⟨e, he, shorter'', hreads'⟩ := ih hks' (hjoin left right hleft hR)
      (by simp at shorter ⊢; omega)
    refine ⟨e, he, ?_⟩
    change Reads (productFrom scope last n left (t :: (front ++ more ++ rest)) shorter) e rest
    refine ⟨shorter'', ?_⟩
    simp only [productFrom, hop, hreads, ok_bind]
    exact hreads'

theorem product_of_tail (hfirst : Understands (juxtaposed scope last) multiplies ks Q)
    (h : Tail scope last ks' Q Q') : Understands (product scope last) operates (ks ++ ks') Q' := by
  intro front rest hfront hrest
  obtain ⟨front, others, rfl, hks, hothers⟩ := List.map_eq_append_iff.1 hfront
  obtain ⟨left, hQ, shorter, hreads⟩ :=
    hfirst front (others ++ rest) hks (h.ends hothers hrest)
  obtain ⟨e, he, hreads'⟩ := h.reads hothers hrest hQ shorter
  refine ⟨e, he, ?_⟩
  rw [List.append_assoc, product, hreads, ok_bind]
  exact hreads'

theorem product_of_juxtaposed (h : Understands (juxtaposed scope last) multiplies ks Q) :
    Understands (product scope last) operates ks Q := by
  simpa using product_of_tail h .nil

theorem sumFrom_of_ends {n : Nat} {e : Expr} (hrest : Ends adds rest)
    (shorter : rest.length < n) :
    sumFrom scope last n e rest shorter = .ok ⟨e, rest, shorter⟩ := by
  cases rest with
  | nil => rw [sumFrom]
  | cons t rest =>
    have ht : sumOp? t.kind = none := by
      have hadds := hrest t rfl
      simp only [adds, Bool.or_eq_false_iff] at hadds
      simpa using hadds.2
    rw [sumFrom, ht]

theorem ends_operates (h : Ends adds rest) : Ends operates rest := h.mono fun k hk => by
  simp only [adds, Bool.or_eq_false_iff] at hk
  exact hk.1

theorem sum_of_product (h : Understands (product scope last) operates ks Q) :
    Understands (sum scope last) adds ks Q := by
  intro front rest hfront hrest
  obtain ⟨e, he, shorter, hreads⟩ := h front rest hfront (ends_operates hrest)
  refine ⟨e, he, shorter, ?_⟩
  rw [sum, hreads, ok_bind]
  exact sumFrom_of_ends hrest shorter

/-! ## Expressions of one operand -/

theorem power_of_operand (h : Understands (operand scope last) opens ks Q) :
    Understands (power scope last) raises ks Q :=
  power_of_subscripted (subscripted_of_operand h)

theorem sum_of_signedTerm (h : Understands (signedTerm scope last) raises ks Q) :
    Understands (sum scope last) adds ks Q :=
  sum_of_product (product_of_juxtaposed (juxtaposed_of_signedTerm h))

/-! ## Arrays -/

/-- The elements of a list have properties, one after the other. -/
def Elementwise (Qs : List (Expr → Prop)) (es : List Expr) : Prop :=
  List.Forall₂ (fun Q e => Q e) Qs es

/-- Lists of elements, with commas between them. -/
inductive Listed (scope : Scope) (last : Nat) : List Token.Kind → List (Expr → Prop) → Prop where
  | single {ks : List Token.Kind} {Q : Expr → Prop}
      (h : Understands (sum scope last) adds ks Q) : Listed scope last ks [Q]
  | cons {ks ks' : List Token.Kind} {Q : Expr → Prop} {Qs : List (Expr → Prop)}
      (h : Understands (sum scope last) adds ks Q) (others : Listed scope last ks' Qs) :
      Listed scope last (ks ++ .comma :: ks') (Q :: Qs)

theorem Listed.understands {Qs : List (Expr → Prop)} (h : Listed scope last ks Qs) :
    Understands (listed scope last) lists ks (Elementwise Qs) := by
  induction h with
  | single h =>
    intro front rest hfront hrest
    have hends : Ends adds rest := hrest.mono fun k hk => by
      simp only [lists, Bool.or_eq_false_iff] at hk
      exact hk.1
    obtain ⟨e, he, shorter, hreads⟩ := h front rest hfront hends
    refine ⟨[e], .cons he .nil, shorter, ?_⟩
    rw [listed, hreads, ok_bind]
    cases rest with
    | nil => rfl
    | cons t rest =>
      have ht : t.kind ≠ .comma := by
        have hlists := hrest t rfl
        simp only [lists, Bool.or_eq_false_iff, decide_eq_false_iff_not] at hlists
        exact hlists.2
      simp [ht]
  | cons h others ih =>
    intro front rest hfront hrest
    obtain ⟨front, more, rfl, hks, hmore⟩ := List.map_eq_append_iff.1 hfront
    obtain ⟨t, more, rfl, ht, hks'⟩ := List.map_eq_cons_iff.1 hmore
    obtain ⟨e, he, shorter, hreads⟩ :=
      h front (t :: (more ++ rest)) hks (ends_cons (by rw [ht]; rfl))
    obtain ⟨es, hes, shorter', hreads'⟩ := ih more rest hks' hrest
    refine ⟨e :: es, .cons he hes, ?_⟩
    rw [List.append_assoc, List.cons_append]
    refine ⟨by simp; omega, ?_⟩
    rw [listed, hreads, ok_bind]
    simp [ht, hreads']

theorem operand_array {Qs : List (Expr → Prop)} (hk : k ≠ .rbracket)
    (hlisted : Listed scope last (k :: ks) Qs)
    (h : ∀ span es, Elementwise Qs es → Q (.array span es)) :
    Understands (operand scope last) goesOn (.lbracket :: (k :: ks ++ [.rbracket])) Q := by
  intro front rest hfront _
  obtain ⟨⟨kind, start, stop⟩, front, rfl, hkind, hmap⟩ := List.map_eq_cons_iff.1 hfront
  obtain ⟨inner, closing, rfl, hks, hclosing⟩ := List.map_eq_append_iff.1 hmap
  obtain ⟨t, rfl, ht⟩ := List.map_eq_singleton_iff.1 hclosing
  cases hkind
  obtain ⟨es, hes, hreads⟩ :=
    hlisted.understands inner (t :: rest) hks (ends_cons (by rw [ht]; rfl))
  obtain ⟨u, inner, rfl, rfl, -⟩ := List.map_eq_cons_iff.1 hks
  rw [List.cons_append] at hreads
  obtain ⟨shorter, hlist⟩ := hreads
  obtain ⟨shorter', hclose⟩ := reads_close ⟨.lbracket, start, stop⟩ ht rest
  have happend : u :: inner ++ [t] ++ rest = u :: (inner ++ t :: rest) := by simp
  refine ⟨_, h (Span.ofBytes start t.stop) es hes, ?_⟩
  rw [List.cons_append, happend]
  refine ⟨by simp; omega, ?_⟩
  rw [operand.eq_def]
  simp [hk, hlist, hclose]

/-! ## Texts -/

/-- A text that is cut into tokens of these kinds is read as a whole. -/
theorem parse_of_scans {text : String}
    (hscans : Scan.Scans ⟨scope.mode, scope.isUnitWord⟩ 0 text.toList (k :: ks))
    (h : ∀ last, Understands (sum scope last) adds (k :: ks) Q) :
    ∃ e, Q e ∧ Expr.parse scope text = .ok (some e) := by
  obtain ⟨ts, hts, hkinds⟩ := scans_iff.1 hscans
  obtain ⟨t, ts, rfl, -, -⟩ := List.map_eq_cons_iff.1 hkinds
  obtain ⟨e, he, hreads⟩ :=
    h (((t :: ts).getLast?.map Token.stop).getD 0) (t :: ts) [] hkinds ends_nil
  rw [List.append_nil] at hreads
  obtain ⟨shorter, hsum⟩ := hreads
  refine ⟨e, he, ?_⟩
  rw [Expr.parse, hts, ok_bind, ofTokens]
  simp [hsum]

end

end Expr

end Worksheet
