import Worksheet.Proofs.Expr.Calls
import Worksheet.Proofs.Expr.Printed
/-!
# Trees that need no parentheses

What is printed has the parentheses of the tree and no others. It is read as the same tree if every
part of the tree binds as tightly as its place asks for.
-/

namespace Worksheet

namespace BinaryOp

def tightness : BinaryOp → Nat
  | .add | .sub => 0
  | .mul | .div => 1
  | .exp => 3

/-- How tightly the left side of the sign has to bind. Sums and products group to the left. -/
def leftBound : BinaryOp → Nat
  | .add | .sub => 0
  | .mul | .div => 1
  | .exp => 4

/-- How tightly the right side of the sign has to bind. Powers group to the right, and an exponent
may have a sign. -/
def rightBound : BinaryOp → Nat
  | .add | .sub => 1
  | .mul | .div => 2
  | .exp => 2

end BinaryOp

namespace Expr

/-- How tightly the parts of an expression hold together. -/
def tightness : Expr → Nat
  | binary _ op _ _ => op.tightness
  | signed .. => 2
  | _ => 4

/-- The parts right under the root bind as tightly as their places ask for. -/
def Fits : Expr → Prop
  | signed _ _ operand => 2 ≤ operand.tightness
  | binary _ op left right => op.leftBound ≤ left.tightness ∧ op.rightBound ≤ right.tightness
  | _ => True

instance decidableFits : DecidablePred Fits
  | signed _ _ operand => inferInstanceAs (Decidable (2 ≤ operand.tightness))
  | binary _ op left right => inferInstanceAs
      (Decidable (op.leftBound ≤ left.tightness ∧ op.rightBound ≤ right.tightness))
  | const .. | var .. | unit .. | call .. | array .. | index .. | group .. =>
    inferInstanceAs (Decidable True)

/-- No part needs parentheses that it does not have. -/
def Tight (e : Expr) : Prop := e.Everywhere Fits

instance decidableTight : DecidablePred Tight := fun e => decidableEverywhere Fits e

theorem tightness_of_isIndexable {e : Expr} (h : e.isIndexable) : e.tightness = 4 := by
  cases e <;> first | rfl | cases h

/-! ## Readings that go on -/

/-- Tokens of these kinds are read first, as something that has a property, and the reading goes on
with what follows them. -/
def Leads (read : (ts : List Token) → Except SourceError (Reading ts.length Expr))
    (goOn : (n : Nat) → Expr → (ts : List Token) → ts.length < n →
      Except SourceError (Reading n Expr))
    (goesOn : Token.Kind → Bool) (ks : List Token.Kind) (Q : Expr → Prop) : Prop :=
  ∀ front rest : List Token, front.map Token.kind = ks → Ends goesOn rest →
    ∃ e, Q e ∧ ∃ shorter, read (front ++ rest) = goOn (front ++ rest).length e rest shorter

section

open Token.Kind

variable {scope : Scope} {last : Nat} {ks ks' : List Token.Kind} {k : Token.Kind}
  {goesOn goesOn' : Token.Kind → Bool} {Q R Q' : Expr → Prop}
  {read read' : (ts : List Token) → Except SourceError (Reading ts.length Expr)}
  {goOn : (n : Nat) → Expr → (ts : List Token) → ts.length < n →
    Except SourceError (Reading n Expr)}

/-- A reading that ends in front of what follows. -/
theorem Leads.understands (h : Leads read goOn goesOn ks Q)
    (hmono : ∀ k, goesOn' k = false → goesOn k = false)
    (hends : ∀ {n e rest}, Ends goesOn' rest → ∀ shorter : rest.length < n,
      goOn n e rest shorter = .ok ⟨e, rest, shorter⟩) : Understands read goesOn' ks Q := by
  intro front rest hfront hrest
  obtain ⟨e, he, shorter, hread⟩ := h front rest hfront (hrest.mono hmono)
  exact ⟨e, he, shorter, hread.trans (hends hrest shorter)⟩

/-- A reading that begins with something tighter. -/
theorem Understands.leads (h : Understands read' goesOn ks Q)
    (hread : ∀ ts, read ts = read' ts >>= fun r => goOn ts.length r.value r.rest r.shorter) :
    Leads read goOn goesOn ks Q := by
  intro front rest hfront hrest
  obtain ⟨e, he, shorter, htighter⟩ := h front rest hfront hrest
  refine ⟨e, he, shorter, ?_⟩
  rw [hread, htighter]
  rfl

/-- One more part on the right, behind a sign. -/
theorem Leads.step (h : Leads read goOn goesOn ks Q) (hk : goesOn k = false)
    (hright : Understands read' goesOn' ks' R) (hmono : ∀ k, goesOn k = false → goesOn' k = false)
    {op : BinaryOp}
    (hstep : ∀ {n t left more right rest} shorter shorter', t.kind = k →
      read' more = .ok ⟨right, rest, shorter'⟩ →
      goOn n left (t :: more) shorter = goOn n (join op left right) rest
        (Nat.lt_trans (Nat.lt_succ_of_lt shorter') shorter))
    (hjoin : ∀ left right, Q left → R right → Q' (join op left right)) :
    Leads read goOn goesOn (ks ++ k :: ks') Q' := by
  intro front rest hfront hrest
  obtain ⟨front, others, rfl, hks, hothers⟩ := List.map_eq_append_iff.1 hfront
  obtain ⟨t, others, rfl, rfl, hks'⟩ := List.map_eq_cons_iff.1 hothers
  obtain ⟨left, hQ, shorter, hleft⟩ := h front (t :: (others ++ rest)) hks (ends_cons hk)
  obtain ⟨right, hR, shorter', hread⟩ := hright others rest hks' (hrest.mono hmono)
  refine ⟨_, hjoin left right hQ hR, ?_⟩
  rw [List.append_assoc, List.cons_append]
  exact ⟨_, hleft.trans (hstep shorter shorter' rfl hread)⟩

/-! ## The levels of the parser -/

theorem sum_eq_bind (ts : List Token) : sum scope last ts = product scope last ts >>=
    fun r => sumFrom scope last ts.length r.value r.rest r.shorter := by
  rw [sum]

theorem product_eq_bind (ts : List Token) : product scope last ts = juxtaposed scope last ts >>=
    fun r => productFrom scope last ts.length r.value r.rest r.shorter := by
  rw [product]

theorem subscripted_eq_bind (ts : List Token) :
    subscripted scope last ts = operand scope last ts >>=
      fun r => subscriptedFrom scope last ts.length r.value r.rest r.shorter := by
  rw [subscripted]

theorem leads_sum_step {op : BinaryOp} (hop : sumOp? k = some op)
    (hleft : Leads (sum scope last) (sumFrom scope last) operates ks Q)
    (hright : Understands (product scope last) operates ks' R)
    (hjoin : ∀ left right, Q left → R right → Q' (join op left right)) :
    Leads (sum scope last) (sumFrom scope last) operates (ks ++ k :: ks') Q' := by
  have hk : operates k = false := by cases k <;> cases hop <;> rfl
  refine hleft.step hk hright (fun _ => id) ?_ hjoin
  rintro n t left more right rest shorter shorter' rfl hread
  rw [sumFrom, hop]
  simp [hread]

theorem leads_product_step {op : BinaryOp} (hop : productOp? k = some op)
    (hleft : Leads (product scope last) (productFrom scope last) multiplies ks Q)
    (hright : Understands (juxtaposed scope last) multiplies ks' R)
    (hjoin : ∀ left right, Q left → R right → Q' (join op left right)) :
    Leads (product scope last) (productFrom scope last) multiplies (ks ++ k :: ks') Q' := by
  refine hleft.step (multiplies_of_productOp? hop) hright (fun _ => id) ?_ hjoin
  rintro n t left more right rest shorter shorter' rfl hread
  rw [productFrom, hop]
  simp [hread]

/-- A subscript behind what may have one. -/
theorem leads_index (hbase : Leads (subscripted scope last) (subscriptedFrom scope last)
      (· = .lparen) ks Q)
    (hindexable : ∀ e, Q e → e.isIndexable) (hposition : Understands (sum scope last) adds ks' R)
    (h : ∀ span base position, Q base → R position → Q' (.index span base position)) :
    Leads (subscripted scope last) (subscriptedFrom scope last) (· = .lparen)
      (ks ++ .lbracket :: (ks' ++ [.rbracket])) Q' := by
  intro front rest hfront _
  obtain ⟨front, others, rfl, hks, hothers⟩ := List.map_eq_append_iff.1 hfront
  obtain ⟨t, others, rfl, ht, hothers⟩ := List.map_eq_cons_iff.1 hothers
  obtain ⟨inner, closing, rfl, hks', hclosing⟩ := List.map_eq_append_iff.1 hothers
  obtain ⟨c, rfl, hc⟩ := List.map_eq_singleton_iff.1 hclosing
  obtain ⟨base, hQ, shorter, hread⟩ :=
    hbase front (t :: (inner ++ c :: rest)) hks (ends_cons (by rw [ht]; rfl))
  obtain ⟨position, hR, shorter', hsum⟩ :=
    hposition inner (c :: rest) hks' (ends_cons (by rw [hc]; rfl))
  obtain ⟨shorter'', hclose⟩ := reads_close t hc rest
  have happend : front ++ t :: (inner ++ [c]) ++ rest = front ++ t :: (inner ++ c :: rest) := by
    simp
  refine ⟨_, h (Span.ofBytes base.span.start c.stop) base position hQ hR, ?_⟩
  rw [happend]
  refine ⟨by simp; omega, hread.trans ?_⟩
  rw [subscriptedFrom, if_pos ⟨ht, hindexable base hQ⟩]
  simp [hsum, hclose]

/-! ## Operands -/

theorem operand_var {name : Name} (hname : Name.ofSpelling name.text = name)
    (hfree : (Builtin.ofName? name.text).filter Builtin.isConstant = none)
    (h : ∀ span, Q (.var span name .unresolved)) :
    Understands (operand (.empty .equation) last) (· = .lparen) [.ident name.text] Q := by
  intro front rest hfront hrest
  obtain ⟨⟨kind, start, stop⟩, rfl, hkind⟩ := List.map_eq_singleton_iff.1 hfront
  cases hkind
  have hopen : isOpen rest = false := by
    cases rest with
    | nil => rfl
    | cons t rest => exact hrest t rfl
  refine ⟨_, h (Span.ofBytes start stop), ?_⟩
  change Reads (operand _ last (⟨.ident name.text, start, stop⟩ :: rest)) _ _
  refine ⟨by simp, ?_⟩
  rw [operand.eq_def]
  dsimp only
  rw [useOf_empty, hopen, hname, hfree]
  rfl

theorem arguments_none :
    Understands (arguments scope last) (fun _ => false) [.lparen, .rparen] fun args =>
      args.1 = [] := by
  intro front rest hfront _
  obtain ⟨o, others, rfl, -, hothers⟩ := List.map_eq_cons_iff.1 hfront
  obtain ⟨c, rfl, hc⟩ := List.map_eq_singleton_iff.1 hothers
  obtain ⟨shorter, hclose⟩ := reads_close o hc rest
  refine ⟨([], c.stop), rfl, ?_⟩
  change Reads (arguments scope last (o :: c :: rest)) _ _
  refine ⟨Nat.lt_succ_of_lt shorter, ?_⟩
  rw [arguments, if_pos (by simp [hc])]
  simp [hclose]

theorem operand_call {v : String} {callee : Callee} {arity : Option Nat} {P : List Expr → Prop}
    (huse : ∀ span, useOf scope v span true = .call callee arity)
    (hargs : Understands (arguments scope last) (fun _ => false) (.lparen :: ks) fun args =>
      P args.1)
    (haccepts : ∀ args, P args → acceptsCount callee arity args.length)
    (h : ∀ span args, P args → Q (.call span (.ofSpelling v) callee args)) :
    Understands (operand scope last) goesOn (.ident v :: .lparen :: ks) Q := by
  intro front rest hfront _
  obtain ⟨⟨kind, start, stop⟩, others, rfl, hkind, hothers⟩ := List.map_eq_cons_iff.1 hfront
  cases hkind
  obtain ⟨⟨args, last'⟩, hP, shorter, hread⟩ := hargs others rest hothers fun _ _ => rfl
  have hopen : isOpen (others ++ rest) := by
    obtain ⟨o, others, rfl, ho, -⟩ := List.map_eq_cons_iff.1 hothers
    simp [isOpen, ho]
  refine ⟨_, h (Span.ofBytes start last') args hP, ?_⟩
  change Reads (operand scope last (⟨.ident v, start, stop⟩ :: (others ++ rest))) _ _
  refine ⟨Nat.lt_succ_of_lt shorter, ?_⟩
  rw [(tokenCalls_ident huse).operand last _ hopen, hread, ok_bind]
  dsimp only
  rw [callOf, if_pos (haccepts args hP)]
  rfl

/-! ## Trees -/

theorem kinds_begin : ∀ e : Expr, e.Everywhere Sound → e.Tight →
    ∃ k ks, e.kinds = k :: ks ∧ k.isCloser = false ∧ (3 ≤ e.tightness → sign? k = none)
  | const .., _, _ => ⟨_, _, rfl, rfl, fun _ => rfl⟩
  | var .., _, _ => ⟨_, _, rfl, rfl, fun _ => rfl⟩
  | unit .., hsound, _ => hsound.self.elim
  | call .., _, _ => ⟨_, _, rfl, rfl, fun _ => rfl⟩
  | array .., _, _ => ⟨_, _, rfl, rfl, fun _ => rfl⟩
  | index _ base _, hsound, htight => by
    obtain ⟨k, ks, hkinds, hcloser, hsign⟩ :=
      kinds_begin base (hsound.pair rfl).1 (htight.pair rfl).1
    have hbase : base.tightness = 4 := tightness_of_isIndexable hsound.self
    exact ⟨k, _, by rw [kinds, hkinds, List.cons_append], hcloser, fun _ => hsign (by omega)⟩
  | signed _ sign _, _, _ => by
    refine ⟨_, _, rfl, by cases sign <;> rfl, fun h => ?_⟩
    simp [tightness] at h
  | binary _ op left _, hsound, htight => by
    obtain ⟨k, ks, hkinds, hcloser, hsign⟩ :=
      kinds_begin left (hsound.pair rfl).1 (htight.pair rfl).1
    refine ⟨k, _, by rw [kinds, hkinds, List.cons_append], hcloser, fun h => hsign ?_⟩
    have hbound : op.leftBound ≤ left.tightness := htight.self.1
    have htighter : 3 ≤ op.tightness → 3 ≤ op.leftBound := by cases op <;> decide
    exact Nat.le_trans (htighter h) hbound
  | group .., _, _ => ⟨_, _, rfl, rfl, fun _ => rfl⟩

/-- The printed tokens of the tree are read as the tree at a level of the parser. -/
def ReadsAt (last : Nat) (e : Expr) : Nat → Prop
  | 0 => Leads (sum (.empty .equation) last) (sumFrom (.empty .equation) last) operates e.kinds
      (SameTree e)
  | 1 => Leads (product (.empty .equation) last) (productFrom (.empty .equation) last) multiplies
      e.kinds (SameTree e)
  | 2 => Understands (signedTerm (.empty .equation) last) raises e.kinds (SameTree e)
  | 3 => Understands (power (.empty .equation) last) raises e.kinds (SameTree e)
  | _ => Leads (subscripted (.empty .equation) last) (subscriptedFrom (.empty .equation) last)
      (· = .lparen) e.kinds (SameTree e)

section

variable {e : Expr} {m n : Nat}

theorem ReadsAt.product_understands (h : ReadsAt last e 1) :
    Understands (product (.empty .equation) last) operates e.kinds (SameTree e) :=
  Leads.understands h (fun _ => multiplies_of_operates) fun hrest => productFrom_of_ends hrest

theorem ReadsAt.sum_understands (h : ReadsAt last e 0) :
    Understands (sum (.empty .equation) last) adds e.kinds (SameTree e) := by
  refine Leads.understands h (fun k hk => ?_) fun hrest => sumFrom_of_ends hrest
  simp only [adds, Bool.or_eq_false_iff] at hk
  exact hk.1

theorem ReadsAt.subscripted_understands (h : ReadsAt last e 4) :
    Understands (subscripted (.empty .equation) last) opens e.kinds (SameTree e) := by
  refine Leads.understands h (fun k hk => ?_) fun hrest => subscriptedFrom_of_ne hrest.ne_lbracket
  simp only [opens, Bool.or_eq_false_iff] at hk
  exact hk.1

/-- What is read at a level is read at the next looser one, if it does not begin with a sign that
would be the sign of a part of it. -/
theorem ReadsAt.looser (hbegins : 3 ≤ n + 1 → ∃ k ks, e.kinds = k :: ks ∧ sign? k = none)
    (h : ReadsAt last e (n + 1)) : ReadsAt last e n := by
  match n with
  | 0 => exact h.product_understands.leads sum_eq_bind
  | 1 =>
    have hterm : Understands (signedTerm (.empty .equation) last) raises e.kinds (SameTree e) := h
    exact (juxtaposed_of_signedTerm hterm).leads product_eq_bind
  | 2 =>
    have hpower : Understands (power (.empty .equation) last) raises e.kinds (SameTree e) := h
    obtain ⟨k, ks, hkinds, hk⟩ := hbegins (by omega)
    rw [hkinds] at hpower
    rw [ReadsAt, hkinds]
    exact signedTerm_of_power hk hpower
  | 3 => exact power_of_subscripted h.subscripted_understands
  | _ + 4 => exact h

/-- At any level that the tree is tight enough for. -/
theorem ReadsAt.le (h : ReadsAt last e e.tightness) (hsound : e.Everywhere Sound) (htight : e.Tight)
    (hn : n ≤ e.tightness) : ReadsAt last e n := by
  obtain ⟨k, ks, hkinds, -, hsign⟩ := kinds_begin e hsound htight
  refine Nat.decreasingInduction (fun m hm ih => ?_) h hn
  exact ih.looser fun hm' => ⟨k, ks, hkinds, hsign (Nat.le_trans hm' hm)⟩

end

theorem sameTrees_of_elementwise {es es' : List Expr} (h : Elementwise (es.map SameTree) es') :
    SameTrees es es' := by
  rw [Elementwise, List.forall₂_map_left_iff] at h
  exact sameTrees_of_forall₂ h

/-- The arguments are a list, if there are any. -/
theorem arguments_of_listed {args : List Expr}
    (h : args ≠ [] → ∃ k ks, kindsList args = k :: ks ∧ k.isCloser = false ∧
      Listed scope last (kindsList args) (args.map SameTree)) :
    Understands (arguments scope last) (fun _ => false)
      (.lparen :: (kindsList args ++ [.rparen])) fun args' => SameTrees args args'.1 := by
  cases args with
  | nil => exact arguments_none.imp fun args' hargs' => by rw [hargs']
  | cons e es =>
    obtain ⟨k, ks, hkinds, hk, hlisted⟩ := h (List.cons_ne_nil e es)
    rw [hkinds] at hlisted ⊢
    exact (arguments_parentheses (fun h => by rw [h] at hk; cases hk) hlisted).imp
      fun args' hargs' => sameTrees_of_elementwise hargs'

mutual

theorem readsAt : ∀ e : Expr, e.Everywhere Sound → e.Tight → ReadsAt last e e.tightness
  | const _ literal value, hsound, _ => by
    have hvalue : Number.Numeral.value? literal.toList = some value := hsound.self
    have hnum : Understands (operand (.empty .equation) last) (· = .lparen) [.num literal]
        (SameTree (const default literal value)) := operand_num hvalue fun _ => rfl
    exact hnum.leads subscripted_eq_bind
  | var _ name binding, hsound, _ => by
    obtain ⟨rfl, -, hname, hfree⟩ := hsound.self
    exact (operand_var hname hfree fun _ => rfl).leads subscripted_eq_bind
  | unit .., hsound, _ => hsound.self.elim
  | call _ name callee args, hsound, htight => by
    obtain ⟨rfl, hname, haccepts⟩ := hsound.self
    have hargs := arguments_of_listed fun hne =>
      listed_readsAt args hne hsound.children htight.children
    have huse : ∀ span, useOf (.empty .equation) name.text span true =
        .call (calleeOf name) none := fun span => by rw [useOf_empty, if_pos rfl, hname]
    have hcall : Understands (operand (.empty .equation) last) (· = .lparen)
        (.ident name.text :: .lparen :: (kindsList args ++ [.rparen]))
        (SameTree (call default name (calleeOf name) args)) := by
      refine operand_call huse hargs (fun args' hargs' => ?_) fun span args' hargs' => ?_
      · rwa [← length_eq_of_bares hargs']
      · rw [SameTree, bare, bare, hargs', hname]
    exact hcall.leads subscripted_eq_bind
  | array _ elements, hsound, htight => by
    obtain ⟨k, ks, hkinds, hk, hlisted⟩ := listed_readsAt elements hsound.self
      hsound.children htight.children
    have harray : Understands (operand (.empty .equation) last) (· = .lparen)
        (.lbracket :: (kindsList elements ++ [.rbracket]))
        (SameTree (array default elements)) := by
      rw [hkinds] at hlisted ⊢
      refine operand_array (fun h => by rw [h] at hk; cases hk) hlisted fun span es hes => ?_
      rw [SameTree, bare, bare, sameTrees_of_elementwise hes]
    exact harray.leads subscripted_eq_bind
  | index _ base position, hsound, htight => by
    obtain ⟨hbase, hposition⟩ := hsound.pair rfl
    obtain ⟨hbase', hposition'⟩ := htight.pair rfl
    have hindexable : base.isIndexable := hsound.self
    have hleads := readsAt base hbase hbase'
    rw [tightness_of_isIndexable hindexable] at hleads
    have hinner := (readsAt position hposition hposition').le hposition hposition' (Nat.zero_le _)
    refine leads_index hleads (fun e he => ?_) hinner.sum_understands
      fun span base' position' hbase' hposition' => ?_
    · rwa [← isIndexable_bare, ← he, isIndexable_bare]
    · rw [SameTree, bare, bare, hbase', hposition']
  | signed _ sign operand, hsound, htight => by
    have hoperand := hsound.only rfl
    have hoperand' := htight.only rfl
    have hread := (readsAt operand hoperand hoperand').le hoperand hoperand' htight.self
    have hsign : sign? sign.kind = some sign := by cases sign <;> rfl
    refine signedTerm_sign hsign hread fun span operand' hsame => ?_
    rw [SameTree, bare, bare, hsame]
  | binary _ op left right, hsound, htight => by
    obtain ⟨hleft, hright⟩ := hsound.pair rfl
    obtain ⟨hleft', hright'⟩ := htight.pair rfl
    have hread := (readsAt left hleft hleft').le hleft hleft' htight.self.1
    have hread' := (readsAt right hright hright').le hright hright' htight.self.2
    have hjoin : ∀ left' right', SameTree left left' → SameTree right right' →
        SameTree (binary default op left right) (join op left' right') :=
      fun left' right' hsame hsame' => by rw [SameTree, bare_join, bare, hsame, hsame']
    cases op with
    | add | sub => exact leads_sum_step rfl hread hread'.product_understands hjoin
    | mul | div => exact leads_product_step rfl hread (juxtaposed_of_signedTerm hread') hjoin
    | exp => exact power_exp hread.subscripted_understands hread' hjoin
  | group _ inner, hsound, htight => by
    have hinner := hsound.only rfl
    have hinner' := htight.only rfl
    have hread := (readsAt inner hinner hinner').le hinner hinner' (Nat.zero_le _)
    have hgroup : Understands (operand (.empty .equation) last) (· = .lparen)
        (.lparen :: (inner.kinds ++ [.rparen])) (SameTree (group default inner)) := by
      refine operand_group (.inl ⟨rfl, rfl⟩) hread.sum_understands fun span inner' hsame => ?_
      rw [SameTree, bare, bare, hsame]
    exact hgroup.leads subscripted_eq_bind

theorem listed_readsAt : ∀ es : List Expr, es ≠ [] → (∀ e ∈ es, e.Everywhere Sound) →
    (∀ e ∈ es, e.Tight) → ∃ k ks, kindsList es = k :: ks ∧ k.isCloser = false ∧
      Listed (.empty .equation) last (kindsList es) (es.map SameTree)
  | [], hne, _, _ => absurd rfl hne
  | [e], _, hsound, htight => by
    have he := hsound e List.mem_cons_self
    have he' := htight e List.mem_cons_self
    obtain ⟨k, ks, hkinds, hk, -⟩ := kinds_begin e he he'
    have hread := (readsAt e he he').le he he' (Nat.zero_le _)
    exact ⟨k, ks, hkinds, hk, .single hread.sum_understands⟩
  | e :: e' :: es, _, hsound, htight => by
    have he := hsound e List.mem_cons_self
    have he' := htight e List.mem_cons_self
    obtain ⟨k, ks, hkinds, hk, -⟩ := kinds_begin e he he'
    have hread := (readsAt e he he').le he he' (Nat.zero_le _)
    obtain ⟨-, -, -, -, hothers⟩ := listed_readsAt (e' :: es) (by simp)
      (fun c hc => hsound c (List.mem_cons_of_mem e hc))
      fun c hc => htight c (List.mem_cons_of_mem e hc)
    refine ⟨k, ks ++ .comma :: kindsList (e' :: es), ?_, hk, .cons hread.sum_understands hothers⟩
    change e.kinds ++ .comma :: kindsList (e' :: es) = _
    rw [hkinds, List.cons_append]

end

theorem understands_kinds {e : Expr} (hsound : e.Everywhere Sound) (htight : e.Tight) (last : Nat) :
    Understands (sum (.empty .equation) last) adds e.kinds (SameTree e) :=
  ((readsAt e hsound htight).le hsound htight (Nat.zero_le _)).sum_understands

end

end Expr

end Worksheet
