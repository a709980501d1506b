import Mathlib.Data.List.Forall2
import Worksheet.Proofs.Expr.Composition
/-!
# Leaves

The leaves of an expression are its constants, variables, units and the names of what it calls.
Those of a text that is parsed are its numbers, units, names and functions, each of them once. Only
a root brings leaves that nothing else is written for: the number 1 over the degree of an n-th root,
and the name of the square root.
-/

namespace Worksheet

/-! ## Brackets -/

namespace Token.Kind

def isBracket : Token.Kind → Bool
  | lparen | rparen | lbracket | rbracket | lbrace | rbrace => true
  | _ => false

end Token.Kind

/-- Every bracket is closed by one of its kind, and what is between them is nested too. -/
inductive Nested : List Token.Kind → Prop where
  | nil : Nested []
  | pair {opener closer : Token.Kind} {inner others : List Token.Kind}
      (hpair : (opener, closer) ∈ Token.Kind.bracketPairs) (hinner : Nested inner)
      (hothers : Nested others) : Nested (opener :: (inner ++ closer :: others))

theorem Nested.append {ks ls : List Token.Kind} (h : Nested ks) (h' : Nested ls) :
    Nested (ks ++ ls) := by
  induction h with
  | nil => exact h'
  | pair hpair hinner _ _ ih =>
    rw [List.cons_append, List.append_assoc]
    exact .pair hpair hinner ih

theorem isBracket_of_mem {opener closer : Token.Kind}
    (h : (opener, closer) ∈ Token.Kind.bracketPairs) :
    opener.isBracket = true ∧ closer.isBracket = true := by
  simp only [Token.Kind.bracketPairs, List.mem_cons, Prod.mk.injEq, List.not_mem_nil, or_false] at h
  rcases h with ⟨rfl, rfl⟩ | ⟨rfl, rfl⟩ | ⟨rfl, rfl⟩ <;> exact ⟨rfl, rfl⟩

/-- The brackets among some tokens. -/
def bracketKinds (ts : List Token) : List Token.Kind :=
  (ts.map Token.kind).filter Token.Kind.isBracket

section

variable {t o c : Token} {ts ps : List Token}

theorem bracketKinds_append (ts us : List Token) :
    bracketKinds (ts ++ us) = bracketKinds ts ++ bracketKinds us := by
  rw [bracketKinds, List.map_append, List.filter_append, bracketKinds, bracketKinds]

theorem bracketKinds_cons_of_not (h : t.kind.isBracket = false) (ts : List Token) :
    bracketKinds (t :: ts) = bracketKinds ts := by
  rw [bracketKinds, List.map_cons, List.filter_cons_of_neg (by simp [h]), bracketKinds]

theorem bracketKinds_cons_of_bracket (h : t.kind.isBracket = true) (ts : List Token) :
    bracketKinds (t :: ts) = t.kind :: bracketKinds ts := by
  rw [bracketKinds, List.map_cons, List.filter_cons_of_pos h, bracketKinds]

/-- Tokens between brackets that match. -/
theorem nested_enclosed {opener closer : Token.Kind} (ho : o.kind = opener) (hc : c.kind = closer)
    (hpair : (opener, closer) ∈ Token.Kind.bracketPairs) (hts : Nested (bracketKinds ts))
    (hps : Nested (bracketKinds ps)) :
    Nested (bracketKinds (o :: (ts ++ c :: ps))) := by
  subst ho hc
  have hbrackets := isBracket_of_mem hpair
  rw [bracketKinds_cons_of_bracket hbrackets.1, bracketKinds_append,
    bracketKinds_cons_of_bracket hbrackets.2]
  exact .pair hpair hts hps

/-- The digits of a number are no brackets. -/
theorem Token.Pieces.bracketKinds_eq {taken : Token → Prop} (h : t.Pieces taken ps) :
    bracketKinds ps = bracketKinds [t] := by
  induction h with
  | whole => rfl
  | digit _ _ _ _ _ ih => exact (bracketKinds_cons_of_not rfl _).trans ih

theorem Cut.bracketKinds_eq {taken : Token → Prop} (h : Cut taken ts ps) :
    bracketKinds ps = bracketKinds ts := by
  induction h with
  | nil => rfl
  | cons first _ ih =>
    rw [bracketKinds_append, first.bracketKinds_eq, ih, ← bracketKinds_append,
      List.singleton_append]

end

/-! ## Leaves -/

inductive Leaf where
  | const (span : Span) (literal : String) (value : Float)
  | var (span : Span) (name : Name) (binding : Binding)
  | unit (span : Span) (text : String)
  /-- The name of something that is called, at its beginning. -/
  | call (start : Nat) (name : Name) (callee : Callee)

namespace Expr

mutual

def leaves : Expr → List Leaf
  | const span literal value => [.const span literal value]
  | var span name binding => [.var span name binding]
  | unit span text => [.unit span text]
  | call span name callee args => .call span.start name callee :: leavesList args
  | array _ elements => leavesList elements
  | index _ base position => base.leaves ++ position.leaves
  | signed _ _ operand => operand.leaves
  | binary _ _ left right => left.leaves ++ right.leaves
  | group _ inner => inner.leaves

def leavesList : List Expr → List Leaf
  | [] => []
  | e :: es => e.leaves ++ leavesList es

end

end Expr

/-- Tokens of the kind are written for leaves. -/
def Token.Kind.hasLeaf : Token.Kind → Bool
  | num _ | unit _ | ident _ | function _ | sqrt => true
  | _ => false

section

variable {k : Token.Kind}

theorem hasLeaf_of_isBracket (h : k.isBracket = true) : k.hasLeaf = false := by
  cases k <;> first | rfl | cases h

theorem plain_of_operation? {op : BinaryOp} (h : k.operation? = some op) :
    k.hasLeaf = false ∧ k.isBracket = false := by
  cases k <;> cases h <;> exact ⟨rfl, rfl⟩

theorem plain_of_sign? {sign : Sign} (h : Expr.sign? k = some sign) :
    k.hasLeaf = false ∧ k.isBracket = false := by
  cases k <;> cases h <;> exact ⟨rfl, rfl⟩

end

/-- A name that is a parameter of the function whose body is read. -/
def Scope.IsParameter (scope : Scope) (name : Name) (i : Nat) : Prop :=
  scope.mode = .equation ∧ scope.parameter? name = some i

/-- What a token may become. A parameter is always a variable. -/
inductive Token.Becomes (scope : Scope) : Token → Leaf → Prop where
  | const {literal : String} {value : Float} {start stop : Nat}
      (hvalue : Number.Numeral.value? literal.toList = some value) :
      Becomes scope ⟨.num literal, start, stop⟩ (.const (Span.ofBytes start stop) literal value)
  | unit {text : String} {start stop : Nat} :
      Becomes scope ⟨.unit text, start, stop⟩ (.unit (Span.ofBytes start stop) text)
  | parameter {spelling : String} {start stop i : Nat}
      (h : scope.IsParameter (.ofSpelling spelling) i) :
      Becomes scope ⟨.ident spelling, start, stop⟩
        (.var (Span.ofBytes start stop) (.ofSpelling spelling) (.parameter i))
  | var {spelling : String} {start stop : Nat} {binding : Binding}
      (h : ∀ i, ¬scope.IsParameter (.ofSpelling spelling) i) (hfree : ∀ i, binding ≠ .parameter i) :
      Becomes scope ⟨.ident spelling, start, stop⟩
        (.var (Span.ofBytes start stop) (.ofSpelling spelling) binding)
  | unitName {spelling : String} {start stop : Nat}
      (h : ∀ i, ¬scope.IsParameter (.ofSpelling spelling) i) :
      Becomes scope ⟨.ident spelling, start, stop⟩ (.unit (Span.ofBytes start stop) spelling)
  | call {spelling : String} {start stop : Nat} {callee : Callee}
      (h : ∀ i, ¬scope.IsParameter (.ofSpelling spelling) i) :
      Becomes scope ⟨.ident spelling, start, stop⟩ (.call (pin start) (.ofSpelling spelling) callee)
  | command {spelling : String} {start stop : Nat} {callee : Callee} :
      Becomes scope ⟨.function spelling, start, stop⟩
        (.call (pin start) (.ofSpelling spelling) callee)
  | sqrt {start stop : Nat} :
      Becomes scope ⟨.sqrt, start, stop⟩ (.call (pin start) (.ofSpelling "sqrt") (.builtin .sqrt))
  | one {start stop : Nat} :
      Becomes scope ⟨.sqrt, start, stop⟩ (.const (Span.ofBytes start stop) "1" 1)

namespace Expr

/-- The leaves are those that the tokens are written for, each of them once. -/
def Yields (scope : Scope) (ps : List Token) (ls : List Leaf) : Prop :=
  ∃ us, List.Forall₂ (Token.Becomes scope) (ps.filter fun t => t.kind.hasLeaf) us ∧ us.Perm ls

section

variable {scope : Scope} {t o c : Token} {ps qs : List Token} {l : Leaf} {ls ms : List Leaf}

theorem yields_nil : Yields scope [] [] := ⟨[], .nil, .nil⟩

theorem Yields.perm (h : Yields scope ps ls) (hperm : ls.Perm ms) : Yields scope ps ms := by
  obtain ⟨us, hus, hls⟩ := h
  exact ⟨us, hus, hls.trans hperm⟩

theorem Yields.append (h : Yields scope ps ls) (h' : Yields scope qs ms) :
    Yields scope (ps ++ qs) (ls ++ ms) := by
  obtain ⟨us, hus, hls⟩ := h
  obtain ⟨vs, hvs, hms⟩ := h'
  refine ⟨us ++ vs, ?_, hls.append hms⟩
  rw [List.filter_append]
  exact List.rel_append hus hvs

/-- A token that nothing stands for in the tree. -/
theorem Yields.skip (ht : t.kind.hasLeaf = false) (h : Yields scope ps ls) :
    Yields scope (t :: ps) ls := by
  obtain ⟨us, hus, hls⟩ := h
  refine ⟨us, ?_, hls⟩
  rwa [List.filter_cons_of_neg (by simp [ht])]

theorem Yields.cons (hl : t.Becomes scope l) (h : Yields scope ps ls) :
    Yields scope (t :: ps) (l :: ls) := by
  obtain ⟨us, hus, hls⟩ := h
  have ht : t.kind.hasLeaf = true := by cases hl <;> rfl
  refine ⟨l :: us, ?_, hls.cons l⟩
  have hfilter : (t :: ps).filter (fun t => t.kind.hasLeaf) =
      t :: ps.filter fun t => t.kind.hasLeaf := List.filter_cons_of_pos ht
  rw [hfilter]
  exact .cons hl hus

theorem yields_token (hl : t.Becomes scope l) : Yields scope [t] [l] := .cons hl yields_nil

theorem Yields.enclosed {opener closer : Token.Kind} (ho : o.kind = opener) (hc : c.kind = closer)
    (hpair : (opener, closer) ∈ Token.Kind.bracketPairs) (h : Yields scope ps ls)
    (h' : Yields scope qs ms) : Yields scope (o :: (ps ++ c :: qs)) (ls ++ ms) := by
  subst ho hc
  have hbrackets := isBracket_of_mem hpair
  exact .skip (hasLeaf_of_isBracket hbrackets.1)
    (h.append (.skip (hasLeaf_of_isBracket hbrackets.2) h'))

/-- What the parts of a list yield is what the list does. -/
theorem Listing.yields {parts : List (List Token × Expr)} (h : Listing parts ps)
    (hparts : ∀ p ∈ parts, Yields scope p.1 p.2.leaves) :
    Yields scope ps (leavesList (parts.map Prod.snd)) := by
  induction h with
  | nil => exact yields_nil
  | one =>
    have hnone : Yields scope [] [] := yields_nil
    have hpart := (hparts _ List.mem_cons_self).append hnone
    rwa [List.append_nil] at hpart
  | more hc _ ih =>
    obtain ⟨hfirst, hothers⟩ := List.forall_mem_cons.1 hparts
    exact hfirst.append (.skip (by rw [hc]; rfl) (ih hothers))

end

/-! ## Names -/

/-- What a name is used for, at a place that has the span. -/
def Use.Becomes (scope : Scope) (spelling : String) (span : Span) : Use → Prop
  | .operand e => ∃ l, e.leaves = [l] ∧ ∀ start stop, span = Span.ofBytes start stop →
      Token.Becomes scope ⟨.ident spelling, start, stop⟩ l
  | .call callee _ => ∀ start stop, Token.Becomes scope ⟨.ident spelling, start, stop⟩
      (.call (pin start) (.ofSpelling spelling) callee)

section

variable {scope : Scope} {spelling : String} {span : Span}

theorem becomes_var (h : ∀ i, ¬scope.IsParameter (.ofSpelling spelling) i) {binding : Binding}
    (hfree : ∀ i, binding ≠ .parameter i) :
    (Use.operand (.var span (.ofSpelling spelling) binding)).Becomes scope spelling span :=
  ⟨_, rfl, fun _ _ hspan => hspan ▸ .var h hfree⟩

theorem becomes_unit (h : ∀ i, ¬scope.IsParameter (.ofSpelling spelling) i) :
    (Use.operand (.unit span spelling)).Becomes scope spelling span :=
  ⟨_, rfl, fun _ _ hspan => hspan ▸ .unitName h⟩

/-- A builtin that is a value of its own is called without arguments. -/
theorem becomes_constant (h : ∀ i, ¬scope.IsParameter (.ofSpelling spelling) i)
    {callee : Callee} :
    (Use.operand (.call span (.ofSpelling spelling) callee [])).Becomes scope spelling span :=
  ⟨_, rfl, fun _ _ hspan => hspan ▸ .call h⟩

theorem becomes_call (h : ∀ i, ¬scope.IsParameter (.ofSpelling spelling) i) {callee : Callee}
    {arity : Option Nat} : (Use.call callee arity).Becomes scope spelling span :=
  fun _ _ => .call h

theorem useOf_becomes (scope : Scope) (spelling : String) (span : Span) (called : Bool) :
    (useOf scope spelling span called).Becomes scope spelling span := by
  unfold useOf
  dsimp only
  split
  · rename_i hmode
    have hno : ∀ i, ¬scope.IsParameter (.ofSpelling spelling) i := fun i h => by
      cases hmode.symm.trans h.1
    split
    · exact becomes_call hno
    · exact becomes_var hno nofun
  · rename_i hmode
    split
    · rename_i hparameter
      exact ⟨_, rfl, fun _ _ hspan => hspan ▸ .parameter ⟨hmode, hparameter⟩⟩
    · rename_i hparameter
      have hno : ∀ i, ¬scope.IsParameter (.ofSpelling spelling) i := fun i h => by
        cases hparameter.symm.trans h.2
      split
      · exact becomes_var hno nofun
      · split
        · exact becomes_call hno
        · split
          · split
            · exact becomes_constant hno
            · exact becomes_unit hno
          · exact becomes_var hno nofun
      · split
        · split <;> exact becomes_call hno
        · split
          · exact becomes_constant hno
          · split
            · exact becomes_unit hno
            · exact becomes_var hno nofun

theorem becomes_of_calls {t : Token} {name : Name} {callee : Callee}
    (h : t.kind.Calls scope name callee) : t.Becomes scope (.call (pin t.start) name callee) := by
  obtain ⟨kind, start, stop⟩ := t
  cases h with
  | @name spelling span called _ _ huse =>
    have huses := useOf_becomes scope spelling span called
    rw [huse] at huses
    exact huses start stop
  | command => exact .command

end

theorem MadeOf.yields {scope : Scope} {ps : List Token} {e : Expr} (h : MadeOf scope ps e) :
    Yields scope ps e.leaves := by
  induction h with
  | const hvalue => exact yields_token (.const hvalue)
  | unit => exact yields_token .unit
  | @name spelling start stop called e huse =>
    have huses := useOf_becomes scope spelling (Span.ofBytes start stop) called
    rw [huse] at huses
    obtain ⟨l, hl, hbecomes⟩ := huses
    rw [hl]
    exact yields_token (hbecomes start stop rfl)
  | call hcalls ho hc _ hlist ih =>
    have hargs := (hlist.yields ih).enclosed ho hc (by decide) yields_nil
    rw [List.append_nil] at hargs
    exact hargs.cons (becomes_of_calls hcalls)
  | @command t spelling _ arg ht _ ih =>
    obtain ⟨kind, start, stop⟩ := t
    subst ht
    rw [leaves, leavesList, leavesList, List.append_nil]
    exact ih.cons .command
  | fraction ht _ _ ih ih' => exact .skip (by rw [ht]; rfl) (ih.append ih')
  | @sqrt t _ radicand ht _ ih =>
    obtain ⟨kind, start, stop⟩ := t
    subst ht
    rw [leaves, leavesList, leavesList, List.append_nil]
    exact ih.cons .sqrt
  | @root t o c _ _ degree radicand ht ho hc _ _ ih ih' =>
    obtain ⟨kind, start, stop⟩ := t
    subst ht
    have hboth := (ih.enclosed ho hc (by decide) ih').cons
      (.one : Token.Becomes _ ⟨.sqrt, start, stop⟩ _)
    -- The tree has the radicand first, and then the quotient of the number and the degree.
    have hturned : ((.const (Span.ofBytes start stop) "1" 1 :: degree.leaves) ++
        radicand.leaves).Perm (radicand.leaves ++ (_ :: degree.leaves)) := List.perm_append_comm
    exact hboth.perm hturned
  | group hpair _ _ ih =>
    have hinner := ih.enclosed rfl rfl hpair yields_nil
    rwa [List.append_nil] at hinner
  | array ho hc _ hlist ih =>
    have helements :=
      (hlist.yields ih).enclosed ho hc (by decide) yields_nil
    rwa [List.append_nil] at helements
  | index ho hc _ _ ih ih' =>
    have hposition := ih'.enclosed ho hc (by decide) yields_nil
    rw [List.append_nil] at hposition
    exact ih.append hposition
  | signed ht _ ih => exact ih.skip (plain_of_sign? ht).1
  | operation ht _ _ ih ih' => exact ih.append (ih'.skip (plain_of_operation? ht).1)
  | product _ _ ih ih' => exact ih.append ih'

/-! ## Brackets of expressions -/

theorem isBracket_of_calls {scope : Scope} {k : Token.Kind} {name : Name} {callee : Callee}
    (h : k.Calls scope name callee) : k.isBracket = false := by
  cases h <;> rfl

theorem Listing.nested {parts : List (List Token × Expr)} {ks : List Token}
    (h : Listing parts ks) (hparts : ∀ p ∈ parts, Nested (bracketKinds p.1)) :
    Nested (bracketKinds ks) := by
  induction h with
  | nil => exact .nil
  | one => exact hparts _ List.mem_cons_self
  | more hc _ ih =>
    obtain ⟨hfirst, hothers⟩ := List.forall_mem_cons.1 hparts
    rw [bracketKinds_append, bracketKinds_cons_of_not (by rw [hc]; rfl)]
    exact hfirst.append (ih hothers)

theorem MadeOf.nested {scope : Scope} {ps : List Token} {e : Expr} (h : MadeOf scope ps e) :
    Nested (bracketKinds ps) := by
  induction h with
  | const | unit | name => exact .nil
  | call hcalls ho hc _ hlist ih =>
    rw [bracketKinds_cons_of_not (isBracket_of_calls hcalls)]
    exact nested_enclosed ho hc (by decide) (hlist.nested ih) .nil
  | command ht _ ih => rwa [bracketKinds_cons_of_not (by rw [ht]; rfl)]
  | fraction ht _ _ ih ih' =>
    rw [bracketKinds_cons_of_not (by rw [ht]; rfl), bracketKinds_append]
    exact ih.append ih'
  | sqrt ht _ ih => rwa [bracketKinds_cons_of_not (by rw [ht]; rfl)]
  | root ht ho hc _ _ ih ih' =>
    rw [bracketKinds_cons_of_not (by rw [ht]; rfl)]
    exact nested_enclosed ho hc (by decide) ih ih'
  | group hpair _ _ ih =>
    exact nested_enclosed rfl rfl hpair ih .nil
  | array ho hc _ hlist ih =>
    exact nested_enclosed ho hc (by decide) (hlist.nested ih) .nil
  | index ho hc _ _ ih ih' =>
    rw [bracketKinds_append]
    exact ih.append (nested_enclosed ho hc (by decide) ih' .nil)
  | signed ht _ ih => rwa [bracketKinds_cons_of_not (plain_of_sign? ht).2]
  | operation ht _ _ ih ih' =>
    rw [bracketKinds_append, bracketKinds_cons_of_not (plain_of_operation? ht).2]
    exact ih.append ih'
  | product _ _ ih ih' =>
    rw [bracketKinds_append]
    exact ih.append ih'

/-- The brackets of a text that is parsed match, and the leaves of its tree are those of its tokens,
each of them once. -/
theorem parse_yields {scope : Scope} {text : String} {e : Expr}
    (h : parse scope text = .ok (some e)) :
    ∃ ts ps ls, tokens ⟨scope.mode, scope.isUnitWord⟩ text = .ok ts ∧ Nested (bracketKinds ts) ∧
      Cut (PartOf ps e) ts ps ∧
      List.Forall₂ (Token.Becomes scope) (ps.filter fun t => t.kind.hasLeaf) ls ∧
      ls.Perm e.leaves := by
  obtain ⟨ts, ps, hts, hmade, hcut⟩ := parse_madeOf h
  obtain ⟨ls, hbecomes, hperm⟩ := hmade.yields
  exact ⟨ts, ps, ls, hts, hcut.bracketKinds_eq ▸ hmade.nested, hcut, hbecomes, hperm⟩

theorem parse_yields_fraction :
    let text := "\\frac123+\\sqrt[3]\x7bx\x7d(\\sqrt y)[2]"
    ∃ e, parse (.empty .equation) text = .ok (some e) ∧
      ∃ ts ps ls, tokens ⟨.equation, fun _ => false⟩ text = .ok ts ∧ Nested (bracketKinds ts) ∧
        Cut (PartOf ps e) ts ps ∧
        List.Forall₂ (Token.Becomes (.empty .equation)) (ps.filter fun t => t.kind.hasLeaf) ls ∧
        ls.Perm e.leaves := by
  intro text
  obtain ⟨e, he⟩ : ∃ e, parse (.empty .equation) text = .ok (some e) :=
    exists_of_isSome (by decide +kernel)
  exact ⟨e, he, parse_yields he⟩

end Expr

end Worksheet
