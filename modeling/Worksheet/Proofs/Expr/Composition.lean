import Worksheet.Proofs.Expr.Reading
/-!
# What expressions are made of

The tokens that an expression was read from, one constructor for each way to put expressions
together. How tightly things bind is left out. The tokens are those of the text, except that an
argument of a fraction may be a digit that is cut off a number.
-/

namespace Worksheet

open Worksheet.Expr

/-! ## Cutting digits off numbers -/

/-- A token is left whole, or it is a number and digits are cut off it one by one, each of which is
taken for something. -/
inductive Token.Pieces (taken : Token → Prop) : Token → List Token → Prop where
  | whole {t : Token} : Pieces taken t [t]
  | digit {number others : String} {digit : Char} {start stop : Nat} {ps : List Token}
      (hdigit : digit.isDigit) (hnumber : number.toList = digit :: others.toList)
      (hmore : others.toList ≠ [])
      (htaken : taken ⟨.num (String.singleton digit), start, start + 1⟩)
      (hothers : Pieces taken ⟨.num others, start + 1, stop⟩ ps) :
      Pieces taken ⟨.num number, start, stop⟩
        (⟨.num (String.singleton digit), start, start + 1⟩ :: ps)

/-- The pieces of some tokens, in their order. -/
inductive Cut (taken : Token → Prop) : List Token → List Token → Prop where
  | nil : Cut taken [] []
  | cons {t : Token} {ts front ps : List Token} (first : t.Pieces taken front)
      (others : Cut taken ts ps) : Cut taken (t :: ts) (front ++ ps)

section

variable {taken taken' : Token → Prop} {t : Token} {ts us ps qs ms rest : List Token}

theorem Token.Pieces.mono (h : t.Pieces taken ps) (hmono : ∀ d, taken d → taken' d) :
    t.Pieces taken' ps := by
  induction h with
  | whole => exact .whole
  | digit hdigit hnumber hmore htaken _ ih =>
    exact .digit hdigit hnumber hmore (hmono _ htaken) ih

theorem Cut.mono (h : Cut taken ts ps) (hmono : ∀ d, taken d → taken' d) : Cut taken' ts ps := by
  induction h with
  | nil => exact .nil
  | cons first _ ih => exact .cons (first.mono hmono) ih

theorem Cut.refl (ts : List Token) : Cut taken ts ts := by
  induction ts with
  | nil => exact .nil
  | cons t ts ih => exact .cons .whole ih

theorem Cut.append (h : Cut taken ts ps) (h' : Cut taken us qs) :
    Cut taken (ts ++ us) (ps ++ qs) := by
  induction h with
  | nil => exact h'
  | cons first _ ih =>
    rw [List.append_assoc]
    exact .cons first ih

theorem Cut.split (h : Cut taken (ts ++ us) ps) :
    ∃ front back, ps = front ++ back ∧ Cut taken ts front ∧ Cut taken us back := by
  induction ts generalizing ps with
  | nil => exact ⟨[], ps, rfl, .nil, h⟩
  | cons t ts ih =>
    cases h with
    | @cons _ _ first' _ first others =>
      obtain ⟨front, back, rfl, hfront, hback⟩ := ih others
      exact ⟨first' ++ front, back, (List.append_assoc _ _ _).symm, .cons first hfront, hback⟩

theorem Token.Pieces.trans (h : t.Pieces taken ps) (h' : Cut taken ps qs) :
    t.Pieces taken qs := by
  induction h generalizing qs with
  | whole =>
    cases h' with
    | cons first others =>
      cases others
      rw [List.append_nil]
      exact first
  | digit hdigit hnumber hmore htaken _ ih =>
    cases h' with
    | cons first others =>
      cases first with
      | whole => exact .digit hdigit hnumber hmore htaken (ih others)
      | digit _ hsingle hmore' =>
        -- Nothing is cut off a single digit.
        rw [String.toList_singleton] at hsingle
        exact absurd (List.tail_eq_of_cons_eq hsingle).symm hmore'

theorem Cut.trans (h : Cut taken ts ps) (h' : Cut taken ps qs) : Cut taken ts qs := by
  induction h generalizing qs with
  | nil => exact h'
  | cons first _ ih =>
    obtain ⟨front, back, rfl, hfront, hback⟩ := h'.split
    exact .cons (first.trans hfront) (ih hback)

theorem Token.Pieces.eq_of_not_num (h : t.Pieces taken ps) {u : Token} (hu : u ∈ ps)
    (hkind : ∀ literal, u.kind ≠ .num literal) : u = t := by
  induction h with
  | whole => exact List.mem_singleton.1 hu
  | digit _ _ _ _ _ ih =>
    rcases List.mem_cons.1 hu with rfl | hu
    · exact absurd rfl (hkind _)
    · exact absurd (congrArg Token.kind (ih hu)) (hkind _)

/-- Only numbers are cut. -/
theorem Cut.mem_of_not_num (h : Cut taken ts ps) {u : Token} (hu : u ∈ ps)
    (hkind : ∀ literal, u.kind ≠ .num literal) : u ∈ ts := by
  induction h with
  | nil => cases hu
  | cons first _ ih =>
    rcases List.mem_append.1 hu with hu | hu
    · exact List.mem_cons.2 (.inl (first.eq_of_not_num hu hkind))
    · exact List.mem_cons_of_mem _ (ih hu)

/-- From the first tokens on, with digits cut off, up to the rest. -/
def Passes (taken : Token → Prop) (ts ps rest : List Token) : Prop := Cut taken ts (ps ++ rest)

theorem passes_token (t : Token) (rest : List Token) : Passes taken (t :: rest) [t] rest := .refl _

theorem Passes.mono (h : Passes taken ts ps rest) (hmono : ∀ d, taken d → taken' d) :
    Passes taken' ts ps rest := Cut.mono h hmono

theorem Passes.trans (h : Passes taken ts ps ms) (h' : Passes taken ms qs rest) :
    Passes taken ts (ps ++ qs) rest := by
  have hboth : Cut taken ts (ps ++ (qs ++ rest)) := Cut.trans h ((Cut.refl ps).append h')
  rwa [← List.append_assoc] at hboth

theorem Passes.behind (t : Token) (h : Passes taken ts ps rest) :
    Passes taken (t :: ts) (t :: ps) rest := (passes_token t ts).trans h

end

/-! ## Composed expressions -/

/-- The binary operation that a sign stands for. -/
def Token.Kind.operation? : Token.Kind → Option BinaryOp
  | .plus => some .add
  | .minus => some .sub
  | .mul => some .mul
  | .div => some .div
  | .exp => some .exp
  | _ => none

/-- An opening bracket, and the one that closes it. -/
def Token.Kind.bracketPairs : List (Token.Kind × Token.Kind) :=
  [(.lparen, .rparen), (.lbracket, .rbracket), (.lbrace, .rbrace)]

/-- A name before parentheses, or a command for a function, calls something. -/
inductive Token.Kind.Calls (scope : Scope) : Token.Kind → Name → Callee → Prop where
  | name {spelling : String} {span : Span} {called : Bool} {callee : Callee} {arity : Option Nat}
      (huse : useOf scope spelling span called = .call callee arity) :
      Calls scope (.ident spelling) (.ofSpelling spelling) callee
  | command {spelling : String} : Calls scope (.function spelling) (.ofSpelling spelling)
      (commandCallee scope (.ofSpelling spelling)).1

namespace Expr

/-- The tokens of some parts, with a comma between each two. -/
inductive Listing : List (List Token × Expr) → List Token → Prop where
  | nil : Listing [] []
  | one {p : List Token × Expr} : Listing [p] p.1
  | more {c : Token} {p q : List Token × Expr} {parts : List (List Token × Expr)} {ks : List Token}
      (hc : c.kind = .comma) (others : Listing (q :: parts) ks) :
      Listing (p :: q :: parts) (p.1 ++ c :: ks)

/-- The power that an n-th root is: the number 1 over the degree has the place of the command. -/
def rootQuotient (command : Token) (degree : Expr) : Expr :=
  binary degree.span .div (const (Span.ofBytes command.start command.stop) "1" 1) degree

def rootPower (command : Token) (degree radicand : Expr) : Expr :=
  binary (Span.ofBytes command.start radicand.span.stop) .exp radicand
    (group degree.span (rootQuotient command degree))

/-- The expression is made of the tokens. -/
inductive MadeOf (scope : Scope) : List Token → Expr → Prop where
  | const {literal : String} {value : Float} {start stop : Nat}
      (hvalue : Number.Numeral.value? literal.toList = some value) :
      MadeOf scope [⟨.num literal, start, stop⟩] (.const (Span.ofBytes start stop) literal value)
  | unit {text : String} {start stop : Nat} :
      MadeOf scope [⟨.unit text, start, stop⟩] (.unit (Span.ofBytes start stop) text)
  | name {spelling : String} {start stop : Nat} {called : Bool} {e : Expr}
      (huse : useOf scope spelling (Span.ofBytes start stop) called = .operand e) :
      MadeOf scope [⟨.ident spelling, start, stop⟩] e
  | call {t o c : Token} {name : Name} {callee : Callee} {parts : List (List Token × Expr)}
      {ks : List Token} (hcalls : t.kind.Calls scope name callee) (ho : o.kind = .lparen)
      (hc : c.kind = .rparen) (hparts : ∀ p ∈ parts, MadeOf scope p.1 p.2)
      (hlist : Listing parts ks) :
      MadeOf scope (t :: o :: (ks ++ [c]))
        (.call (Span.ofBytes t.start c.stop) name callee (parts.map Prod.snd))
  | command {t : Token} {spelling : String} {ps : List Token} {arg : Expr}
      (ht : t.kind = .function spelling) (harg : MadeOf scope ps arg) :
      MadeOf scope (t :: ps) (.call (Span.ofBytes t.start arg.span.stop) (.ofSpelling spelling)
        (commandCallee scope (.ofSpelling spelling)).1 [arg])
  | fraction {t : Token} {ps qs : List Token} {numerator denominator : Expr} (ht : t.kind = .frac)
      (hnumerator : MadeOf scope ps numerator) (hdenominator : MadeOf scope qs denominator) :
      MadeOf scope (t :: (ps ++ qs))
        (.binary (Span.ofBytes t.start denominator.span.stop) .div numerator denominator)
  | sqrt {t : Token} {ps : List Token} {radicand : Expr} (ht : t.kind = .sqrt)
      (hradicand : MadeOf scope ps radicand) :
      MadeOf scope (t :: ps) (.call (Span.ofBytes t.start radicand.span.stop) (.ofSpelling "sqrt")
        (.builtin .sqrt) [radicand])
  | root {t o c : Token} {ps qs : List Token} {degree radicand : Expr} (ht : t.kind = .sqrt)
      (ho : o.kind = .lbracket) (hc : c.kind = .rbracket) (hdegree : MadeOf scope ps degree)
      (hradicand : MadeOf scope qs radicand) :
      MadeOf scope (t :: o :: (ps ++ c :: qs)) (rootPower t degree radicand)
  | group {o c : Token} {ps : List Token} {inner : Expr}
      (hpair : (o.kind, c.kind) ∈ Token.Kind.bracketPairs) (hgroup : o.kind ≠ .lbracket)
      (hinner : MadeOf scope ps inner) :
      MadeOf scope (o :: (ps ++ [c])) (.group (Span.ofBytes o.start c.stop) inner)
  | array {o c : Token} {parts : List (List Token × Expr)} {ks : List Token}
      (ho : o.kind = .lbracket) (hc : c.kind = .rbracket)
      (hparts : ∀ p ∈ parts, MadeOf scope p.1 p.2) (hlist : Listing parts ks) :
      MadeOf scope (o :: (ks ++ [c])) (.array (Span.ofBytes o.start c.stop) (parts.map Prod.snd))
  | index {o c : Token} {ps qs : List Token} {base position : Expr} (ho : o.kind = .lbracket)
      (hc : c.kind = .rbracket) (hbase : MadeOf scope ps base)
      (hposition : MadeOf scope qs position) :
      MadeOf scope (ps ++ o :: (qs ++ [c]))
        (.index (Span.ofBytes base.span.start c.stop) base position)
  | signed {t : Token} {sign : Sign} {ps : List Token} {operand : Expr}
      (ht : sign? t.kind = some sign) (hoperand : MadeOf scope ps operand) :
      MadeOf scope (t :: ps) (.signed (Span.ofBytes t.start operand.span.stop) sign operand)
  | operation {t : Token} {op : BinaryOp} {ps qs : List Token} {left right : Expr}
      (ht : t.kind.operation? = some op) (hleft : MadeOf scope ps left)
      (hright : MadeOf scope qs right) : MadeOf scope (ps ++ t :: qs) (join op left right)
  | product {ps qs : List Token} {left right : Expr} (hleft : MadeOf scope ps left)
      (hright : MadeOf scope qs right) : MadeOf scope (ps ++ qs) (join .mul left right)

/-- The digit is a part of a fraction that is written as a command. -/
inductive PartOf (ps : List Token) (e : Expr) (d : Token) : Prop where
  | intro {f : Token} {stop : Nat} {numerator denominator : Expr} {literal : String} {value : Float}
      (hmem : f ∈ ps) (hfrac : f.kind = .frac)
      (hnode : e.Node (.binary ⟨pin f.start, stop⟩ .div numerator denominator))
      (hdigit : d.kind = .num literal)
      (hpart : const (Span.ofBytes d.start d.stop) literal value ∈ [numerator, denominator])

theorem PartOf.within {ps qs : List Token} {e e' : Expr} {d : Token} (h : PartOf ps e d)
    (hsubset : ps ⊆ qs) (hnode : e'.Node e) : PartOf qs e' d := by
  obtain ⟨hmem, hfrac, hfraction, hdigit, hpart⟩ := h
  exact ⟨hsubset hmem, hfrac, hnode.trans hfraction, hdigit, hpart⟩

/-- The expression is read from the tokens up to the rest. -/
def Takes (scope : Scope) (ts : List Token) (e : Expr) (rest : List Token) : Prop :=
  ∃ ps, MadeOf scope ps e ∧ Passes (PartOf ps e) ts ps rest

/-- The same for expressions with commas between them. -/
def TakesList (scope : Scope) (ts : List Token) (es : List Expr) (rest : List Token) : Prop :=
  ∃ parts ks, es = parts.map Prod.snd ∧ (∀ p ∈ parts, MadeOf scope p.1 p.2) ∧
    Listing parts ks ∧ parts ≠ [] ∧
    Passes (fun d => ∃ p ∈ parts, PartOf p.1 p.2 d) ts ks rest

/-- An argument of a fraction may be the first digit of a number. -/
inductive TakesPart (scope : Scope) : List Token → Expr → List Token → Prop where
  | whole {ts rest : List Token} {e : Expr} (h : Takes scope ts e rest) : TakesPart scope ts e rest
  | digit {number others : String} {digit : Char} {start stop : Nat} {value : Float}
      {more : List Token} (hsplit : splitDigit? number = some (digit, others))
      (hvalue : Number.Numeral.value? [digit] = some value) :
      TakesPart scope (⟨.num number, start, stop⟩ :: more)
        (.const (Span.ofBytes start (start + 1)) (String.singleton digit) value)
        (⟨.num others, start + 1, stop⟩ :: more)

section

variable {scope : Scope} {t o c : Token} {ts ps qs more rest rest' : List Token}
  {e e' left right : Expr}

theorem node_child (h : e ∈ e'.children) : e'.Node e := .single h

/-- A part of a fraction in something that is read is one in what is put together of it. -/
theorem passes_within {ms : List Token} (h : Passes (PartOf ps e) ts ms rest) (hsubset : ps ⊆ qs)
    (hnode : e'.Node e) : Passes (PartOf qs e') ts ms rest :=
  h.mono fun _ hd => hd.within hsubset hnode

theorem node_left (op : BinaryOp) (left right : Expr) : (join op left right).Node left :=
  node_child List.mem_cons_self

theorem node_right (op : BinaryOp) (left right : Expr) : (join op left right).Node right :=
  node_child (List.mem_cons_of_mem _ List.mem_cons_self)

theorem takes_token (h : MadeOf scope [t] e) : Takes scope (t :: rest) e rest :=
  ⟨[t], h, passes_token t rest⟩

theorem Takes.operation {op : BinaryOp} (ht : t.kind.operation? = some op)
    (hleft : Takes scope ts left (t :: more)) (hright : Takes scope more right rest) :
    Takes scope ts (join op left right) rest := by
  obtain ⟨ps, hps, hleft⟩ := hleft
  obtain ⟨qs, hqs, hright⟩ := hright
  have hfront := passes_within hleft (List.subset_append_left ps (t :: qs))
    (node_left op left right)
  have hback := passes_within hright
    (List.subset_append_of_subset_right ps (List.subset_cons_self t qs))
    (node_right op left right)
  exact ⟨_, .operation ht hps hqs, hfront.trans (hback.behind t)⟩

theorem Takes.product (hleft : Takes scope ts left more) (hright : Takes scope more right rest) :
    Takes scope ts (join .mul left right) rest := by
  obtain ⟨ps, hps, hleft⟩ := hleft
  obtain ⟨qs, hqs, hright⟩ := hright
  have hfront := passes_within hleft (List.subset_append_left ps qs) (node_left .mul left right)
  have hback := passes_within hright (List.subset_append_right ps qs) (node_right .mul left right)
  exact ⟨_, .product hps hqs, hfront.trans hback⟩

/-- A token before the tokens of the only child. -/
theorem Takes.prefixed (h : Takes scope more e rest)
    (hmade : ∀ ps, MadeOf scope ps e → MadeOf scope (t :: ps) e') (hchild : e ∈ e'.children) :
    Takes scope (t :: more) e' rest := by
  obtain ⟨ps, hps, hpasses⟩ := h
  exact ⟨_, hmade ps hps,
    .behind t (passes_within hpasses (List.subset_cons_self t ps) (node_child hchild))⟩

theorem Takes.group (hpair : (o.kind, c.kind) ∈ Token.Kind.bracketPairs)
    (hgroup : o.kind ≠ .lbracket) (h : Takes scope more e (c :: rest)) :
    Takes scope (o :: more) (.group (Span.ofBytes o.start c.stop) e) rest := by
  obtain ⟨ps, hps, hpasses⟩ := h
  have hnode : (Expr.group (Span.ofBytes o.start c.stop) e).Node e := node_child List.mem_cons_self
  have hinner := passes_within hpasses
    (List.subset_cons_of_subset o (List.subset_append_left ps [c])) hnode
  exact ⟨_, .group hpair hgroup hps, (hinner.trans (passes_token c rest)).behind o⟩

theorem Takes.index (ho : o.kind = .lbracket) (hc : c.kind = .rbracket)
    (hbase : Takes scope ts left (o :: more)) (hposition : Takes scope more right (c :: rest)) :
    Takes scope ts (.index (Span.ofBytes left.span.start c.stop) left right) rest := by
  obtain ⟨ps, hps, hbase⟩ := hbase
  obtain ⟨qs, hqs, hposition⟩ := hposition
  have hleft : left ∈ (Expr.index (Span.ofBytes left.span.start c.stop) left right).children :=
    List.mem_cons_self
  have hright : right ∈ (Expr.index (Span.ofBytes left.span.start c.stop) left right).children :=
    List.mem_cons_of_mem _ List.mem_cons_self
  have hfront := passes_within hbase (List.subset_append_left ps (o :: (qs ++ [c])))
    (node_child hleft)
  have hback := passes_within hposition
    (List.subset_append_of_subset_right ps
      (List.subset_cons_of_subset o (List.subset_append_left qs [c]))) (node_child hright)
  exact ⟨_, .index ho hc hps hqs,
    hfront.trans ((hback.trans (passes_token c rest)).behind o)⟩

theorem node_quotient (command : Token) (degree radicand : Expr) :
    (rootPower command degree radicand).Node (rootQuotient command degree) := by
  have hgroup : (rootPower command degree radicand).Node
      (.group degree.span (rootQuotient command degree)) :=
    node_child (List.mem_cons_of_mem _ List.mem_cons_self)
  exact hgroup.tail List.mem_cons_self

theorem node_degree (command : Token) (degree radicand : Expr) :
    (rootPower command degree radicand).Node degree :=
  (node_quotient command degree radicand).tail (List.mem_cons_of_mem _ List.mem_cons_self)

theorem node_radicand (command : Token) (degree radicand : Expr) :
    (rootPower command degree radicand).Node radicand :=
  node_child List.mem_cons_self

theorem Takes.root (ht : t.kind = .sqrt) (ho : o.kind = .lbracket) (hc : c.kind = .rbracket)
    (hdegree : Takes scope more left (c :: rest)) (hradicand : Takes scope rest right rest') :
    Takes scope (t :: o :: more) (rootPower t left right) rest' := by
  obtain ⟨ps, hps, hdegree⟩ := hdegree
  obtain ⟨qs, hqs, hradicand⟩ := hradicand
  have hinside : ps ++ c :: qs ⊆ t :: o :: (ps ++ c :: qs) :=
    List.subset_cons_of_subset t (List.subset_cons_self o _)
  have hfront := passes_within hdegree
    (List.Subset.trans (List.subset_append_left ps (c :: qs)) hinside) (node_degree t left right)
  have hback := passes_within hradicand
    (List.Subset.trans (List.subset_append_of_subset_right ps (List.subset_cons_self c qs)) hinside)
    (node_radicand t left right)
  exact ⟨_, .root ht ho hc hps hqs, ((hfront.trans (hback.behind c)).behind o).behind t⟩

/-! ## Lists -/

theorem Takes.list (h : Takes scope ts e rest) : TakesList scope ts [e] rest := by
  obtain ⟨ps, hps, hpasses⟩ := h
  refine ⟨[(ps, e)], ps, rfl, List.forall_mem_singleton.2 hps, .one, by simp, ?_⟩
  exact hpasses.mono fun d hd => ⟨_, List.mem_singleton_self _, hd⟩

theorem Takes.cons {es : List Expr} (hc : c.kind = .comma) (hfirst : Takes scope ts e (c :: more))
    (hothers : TakesList scope more es rest) : TakesList scope ts (e :: es) rest := by
  obtain ⟨ps, hps, hfirst⟩ := hfirst
  obtain ⟨parts, ks, rfl, hparts, hlist, hne, hothers⟩ := hothers
  obtain ⟨part, parts, rfl⟩ := List.exists_cons_of_ne_nil hne
  refine ⟨(ps, e) :: part :: parts, ps ++ c :: ks, rfl, List.forall_mem_cons.2 ⟨hps, hparts⟩,
    .more hc hlist, by simp, ?_⟩
  have hfront := hfirst.mono fun d hd =>
    (⟨(ps, e), List.mem_cons_self, hd⟩ : ∃ p ∈ (ps, e) :: part :: parts, PartOf p.1 p.2 d)
  have hback := hothers.mono fun d ⟨p, hp, hd⟩ =>
    (⟨p, List.mem_cons_of_mem _ hp, hd⟩ : ∃ p ∈ (ps, e) :: part :: parts, PartOf p.1 p.2 d)
  exact hfront.trans (hback.behind c)

theorem Listing.subset {parts : List (List Token × Expr)} {ks : List Token}
    (h : Listing parts ks) : ∀ p ∈ parts, p.1 ⊆ ks := by
  induction h with
  | nil => exact nofun
  | one => exact List.forall_mem_singleton.2 (List.Subset.refl _)
  | more hc others ih =>
    refine List.forall_mem_cons.2 ⟨List.subset_append_left _ _, fun p hp => ?_⟩
    exact List.subset_append_of_subset_right _ (List.subset_cons_of_subset _ (ih p hp))

theorem passes_list {parts : List (List Token × Expr)} {ks : List Token}
    (hlist : Listing parts ks)
    (h : Passes (fun d => ∃ p ∈ parts, PartOf p.1 p.2 d) ts ks rest) (hsubset : ks ⊆ qs)
    (hchildren : e.children = parts.map Prod.snd) : Passes (PartOf qs e) ts ks rest := by
  refine h.mono fun d ⟨p, hp, hd⟩ => hd.within ?_ ?_
  · exact List.Subset.trans (hlist.subset p hp) hsubset
  · exact node_child (hchildren ▸ List.mem_map_of_mem hp)

theorem TakesList.array {es : List Expr} (ho : o.kind = .lbracket) (hc : c.kind = .rbracket)
    (h : TakesList scope more es (c :: rest)) :
    Takes scope (o :: more) (.array (Span.ofBytes o.start c.stop) es) rest := by
  obtain ⟨parts, ks, rfl, hparts, hlist, -, hpasses⟩ := h
  refine ⟨_, .array ho hc hparts hlist,
    .behind o ((passes_list hlist hpasses ?_ rfl).trans (passes_token c rest))⟩
  exact List.subset_cons_of_subset o (List.subset_append_left ks [c])

theorem TakesList.call {name : Name} {callee : Callee} {es : List Expr}
    (hcalls : t.kind.Calls scope name callee) (ho : o.kind = .lparen) (hc : c.kind = .rparen)
    (h : TakesList scope more es (c :: rest)) :
    Takes scope (t :: o :: more) (.call (Span.ofBytes t.start c.stop) name callee es) rest := by
  obtain ⟨parts, ks, rfl, hparts, hlist, -, hpasses⟩ := h
  refine ⟨_, .call hcalls ho hc hparts hlist,
    .behind t (.behind o ((passes_list hlist hpasses ?_ rfl).trans (passes_token c rest)))⟩
  exact List.subset_cons_of_subset t
    (List.subset_cons_of_subset o (List.subset_append_left ks [c]))

theorem takes_emptyCall {name : Name} {callee : Callee} (hcalls : t.kind.Calls scope name callee)
    (ho : o.kind = .lparen) (hc : c.kind = .rparen) :
    Takes scope (t :: o :: c :: rest) (.call (Span.ofBytes t.start c.stop) name callee [])
      rest := by
  have hnone : ∀ p ∈ ([] : List (List Token × Expr)), MadeOf scope p.1 p.2 := nofun
  exact ⟨[t, o, c], .call hcalls ho hc hnone .nil, ((passes_token c rest).behind o).behind t⟩

/-! ## Fractions -/

theorem splitDigit?_digits {number others : String} {digit : Char}
    (h : splitDigit? number = some (digit, others)) : digit.isDigit ∧ others.toList ≠ [] := by
  unfold splitDigit? at h
  split at h
  · split at h
    · rename_i hdigits
      cases h
      exact ⟨(Bool.and_eq_true _ _ ▸ hdigits).1, by simp⟩
    · cases h
  · cases h

/-- A digit is a numeral. -/
theorem value?_digit {digit : Char} (h : digit.isDigit) :
    Number.Numeral.value? [digit] = some (Float.ofNat (Text.digitValue digit)) := by
  have hall : ∀ n ∈ List.range' 48 10, Number.Numeral.value? [Char.ofNat n] =
      some (Float.ofNat (Text.digitValue (Char.ofNat n))) := by decide +kernel
  have hdigit := hall digit.toNat (Text.mem_range'_of_isDigit h)
  rwa [Char.ofNat_toNat] at hdigit

theorem TakesPart.passes (h : TakesPart scope ts e rest) :
    ∃ ps, MadeOf scope ps e ∧ ∀ taken : Token → Prop, (∀ d, PartOf ps e d → taken d) →
      (∀ d literal value, d.kind = .num literal →
        const (Span.ofBytes d.start d.stop) literal value = e → taken d) →
      Passes taken ts ps rest := by
  cases h with
  | whole h =>
    obtain ⟨ps, hps, hpasses⟩ := h
    exact ⟨ps, hps, fun taken htaken _ => hpasses.mono htaken⟩
  | @digit number others digit start stop value more hsplit hvalue =>
    refine ⟨[⟨.num (String.singleton digit), start, start + 1⟩], .const ?_, ?_⟩
    · rw [String.toList_singleton]
      exact hvalue
    · intro taken _ hdigit
      have hpieces : Token.Pieces taken ⟨.num number, start, stop⟩
          [⟨.num (String.singleton digit), start, start + 1⟩, ⟨.num others, start + 1, stop⟩] :=
        .digit (splitDigit?_digits hsplit).1 (splitDigit?_eq_some hsplit)
          (splitDigit?_digits hsplit).2 (hdigit _ _ _ rfl rfl) .whole
      have hcut : Cut taken (⟨.num number, start, stop⟩ :: more) _ := .cons hpieces (.refl more)
      exact hcut

theorem TakesPart.fraction (ht : t.kind = .frac) (hnumerator : TakesPart scope ts left more)
    (hdenominator : TakesPart scope more right rest) :
    Takes scope (t :: ts) (.binary (Span.ofBytes t.start right.span.stop) .div left right)
      rest := by
  obtain ⟨ps, hps, hnumerator⟩ := hnumerator.passes
  obtain ⟨qs, hqs, hdenominator⟩ := hdenominator.passes
  have hmade := MadeOf.fraction ht hps hqs
  have hmem : t ∈ t :: (ps ++ qs) := List.mem_cons_self
  have hleft : left ∈ [left, right] := List.mem_cons_self
  have hright : right ∈ [left, right] := List.mem_cons_of_mem _ List.mem_cons_self
  refine ⟨_, hmade, ((hnumerator _ (fun d hd => ?_) fun d literal value hkind hd => ?_).trans
    (hdenominator _ (fun d hd => ?_) fun d literal value hkind hd => ?_)).behind t⟩
  · exact hd.within (List.subset_cons_of_subset t (List.subset_append_left ps qs))
      (node_child hleft)
  · subst hd
    exact .intro hmem ht .refl hkind hleft
  · exact hd.within (List.subset_cons_of_subset t (List.subset_append_right ps qs))
      (node_child hright)
  · subst hd
    exact .intro hmem ht .refl hkind hright

end

/-! ## The parser -/

/-- A reading that succeeds gives something with the property, for the tokens that it leaves. -/
abbrev Obtains {n : Nat} {α : Type} (Q : α → List Token → Prop)
    (r : Except SourceError (Reading n α)) : Prop :=
  Meets (fun _ => True) (fun r => Q r.value r.rest) r

theorem Obtains.bind {m n : Nat} {α β : Type} {R : α → List Token → Prop}
    {Q : β → List Token → Prop} {r : Except SourceError (Reading m α)}
    {f : Reading m α → Except SourceError (Reading n β)} (hr : Obtains R r)
    (hf : ∀ a rest shorter, R a rest → Obtains Q (f ⟨a, rest, shorter⟩)) : Obtains Q (r >>= f) :=
  Meets.bind hr fun ⟨a, rest, shorter⟩ ha => hf a rest shorter ha

theorem close_obtains (closer : Token.Kind) (opener : Token) (ts : List Token) :
    Obtains (fun stop rest => ∃ c, ts = c :: rest ∧ c.kind = closer ∧ stop = c.stop)
      (close closer opener ts) := by
  unfold close
  split
  · exact .error trivial
  · rename_i c rest
    split
    · rename_i hkind
      exact .ok ⟨c, rfl, hkind, rfl⟩
    · exact .error trivial

/-- What is read is closed by a bracket behind it. -/
theorem Obtains.bind_close {m n : Nat} {α β : Type} {R : α → List Token → Prop}
    {Q : β → List Token → Prop} {closer : Token.Kind} {opener : Token}
    {r : Except SourceError (Reading m α)} {f : Reading m α → Except SourceError (Reading n β)}
    {k : ∀ (_ : α) (rest : List Token), rest.length < m → Reading rest.length Nat →
      Except SourceError (Reading n β)}
    (hr : Obtains R r)
    (hf : ∀ a rest shorter,
      f ⟨a, rest, shorter⟩ = close closer opener rest >>= k a rest shorter)
    (hk : ∀ a c rest shorter shorter', R a (c :: rest) → c.kind = closer →
      Obtains Q (k a (c :: rest) shorter ⟨c.stop, rest, shorter'⟩)) : Obtains Q (r >>= f) := by
  apply hr.bind
  intro a rest shorter ha
  rw [hf]
  apply (close_obtains closer opener rest).bind
  rintro _ rest' shorter' ⟨c, rfl, hc, rfl⟩
  exact hk a c rest' shorter shorter' ha hc

theorem callOf_obtains {name : Name} {callee : Callee} {arity : Option Nat} {args : List Expr}
    {span : Span} :
    Meets (fun _ => True)
      (fun e => acceptsCount callee arity args.length ∧ e = .call span name callee args)
      (callOf name callee arity args span) := by
  unfold callOf
  split
  · rename_i haccepts
    exact .ok ⟨haccepts, rfl⟩
  · exact .error trivial

/-- A call is what its arguments make it. -/
theorem called_obtains {scope : Scope} {last start : Nat} {name : Name} {callee : Callee}
    {arity : Option Nat} {ts : List Token} {R : List Expr × Nat → List Token → Prop}
    {Q : Expr → List Token → Prop} (hargs : Obtains R (arguments scope last ts))
    (hcall : ∀ args stop rest, R (args, stop) rest → acceptsCount callee arity args.length →
      Q (.call (Span.ofBytes start stop) name callee args) rest) :
    Obtains Q (do
      let ⟨(args, stop), rest, h⟩ ← arguments scope last ts
      let e ← callOf name callee arity args (Span.ofBytes start stop)
      .ok (⟨e, rest, Nat.lt_succ_of_lt h⟩ : Reading (ts.length + 1) Expr)) := by
  apply hargs.bind
  rintro ⟨args, stop⟩ rest h hR
  apply callOf_obtains.bind
  rintro _ ⟨haccepts, rfl⟩
  exact .ok (hcall args stop rest hR haccepts)

/-- What is called is written before parentheses. -/
theorem called_of_useOf {scope : Scope} {spelling : String} {span : Span} {called : Bool}
    {callee : Callee} {arity : Option Nat}
    (h : useOf scope spelling span called = .call callee arity) : called = true := by
  cases called with
  | true => rfl
  | false =>
    simp only [useOf, Bool.false_eq_true, if_false] at h
    repeat' split at h
    all_goals cases h

theorem operation?_of_sumOp? {k : Token.Kind} {op : BinaryOp} (h : sumOp? k = some op) :
    k.operation? = some op := by
  cases k <;> cases h <;> rfl

theorem operation?_of_productOp? {k : Token.Kind} {op : BinaryOp} (h : productOp? k = some op) :
    k.operation? = some op := by
  cases k <;> cases h <;> rfl

/-- Arguments in parentheses behind what is called. -/
def TakesArguments (scope : Scope) (ts : List Token) (args : List Expr × Nat)
    (rest : List Token) : Prop :=
  ∀ t name callee, t.kind.Calls scope name callee →
    Takes scope (t :: ts) (.call (Span.ofBytes t.start args.2) name callee args.1) rest

section

variable {scope : Scope} {last : Nat}

mutual

theorem sum_takes (ts : List Token) : Obtains (Takes scope ts) (sum scope last ts) := by
  rw [sum]
  apply (product_takes ts).bind
  intro left rest shorter hleft
  exact sumFrom_takes rest shorter hleft
termination_by 10 * ts.length + 6

theorem sumFrom_takes {front : List Token} {n : Nat} {left : Expr} :
    ∀ ts shorter, Takes scope front left ts →
      Obtains (Takes scope front) (sumFrom scope last n left ts shorter)
  | [], _, hleft => by
    rw [sumFrom]
    exact .ok hleft
  | t :: more, shorter, hleft => by
    rw [sumFrom]
    split
    · exact .ok hleft
    · rename_i op hop
      apply (product_takes more).bind
      intro right rest h hright
      exact sumFrom_takes rest _ (hleft.operation (operation?_of_sumOp? hop) hright)
termination_by ts => 10 * ts.length + 9

theorem product_takes (ts : List Token) : Obtains (Takes scope ts) (product scope last ts) := by
  rw [product]
  apply (juxtaposed_takes ts).bind
  intro left rest shorter hleft
  exact productFrom_takes rest shorter hleft
termination_by 10 * ts.length + 5

theorem productFrom_takes {front : List Token} {n : Nat} {left : Expr} :
    ∀ ts shorter, Takes scope front left ts →
      Obtains (Takes scope front) (productFrom scope last n left ts shorter)
  | [], _, hleft => by
    rw [productFrom]
    exact .ok hleft
  | t :: more, shorter, hleft => by
    rw [productFrom]
    split
    · exact .ok hleft
    · rename_i op hop
      apply (juxtaposed_takes more).bind
      intro right rest h hright
      exact productFrom_takes rest _ (hleft.operation (operation?_of_productOp? hop) hright)
termination_by ts => 10 * ts.length + 9

theorem juxtaposed_takes (ts : List Token) :
    Obtains (Takes scope ts) (juxtaposed scope last ts) := by
  rw [juxtaposed]
  apply (signedTerm_takes ts).bind
  intro left rest shorter hleft
  exact juxtaposedFrom_takes rest shorter hleft
termination_by 10 * ts.length + 4

theorem juxtaposedFrom_takes {front : List Token} {n : Nat} {left : Expr} :
    ∀ ts shorter, Takes scope front left ts →
      Obtains (Takes scope front) (juxtaposedFrom scope last n left ts shorter)
  | [], _, hleft => by
    rw [juxtaposedFrom]
    exact .ok hleft
  | t :: more, shorter, hleft => by
    rw [juxtaposedFrom]
    split
    · apply (power_takes (t :: more)).bind
      intro right rest h hright
      have hlength : rest.length ≤ more.length := Nat.le_of_lt_succ h
      exact juxtaposedFrom_takes rest _ (hleft.product hright)
    · exact .ok hleft
termination_by ts => 10 * ts.length + 9

theorem signedTerm_takes : ∀ ts, Obtains (Takes scope ts) (signedTerm scope last ts)
  | [] => by
    rw [signedTerm]
    exact power_takes []
  | t :: more => by
    rw [signedTerm]
    split
    · exact power_takes (t :: more)
    · rename_i sign hsign
      apply (signedTerm_takes more).bind
      intro operand rest h hoperand
      exact .ok (hoperand.prefixed (fun ps hps => .signed hsign hps) (by simp [children]))
termination_by ts => 10 * ts.length + 3

theorem power_takes (ts : List Token) : Obtains (Takes scope ts) (power scope last ts) := by
  rw [power]
  apply (subscripted_takes ts).bind
  intro base rest shorter hbase
  cases rest with
  | nil => exact .ok hbase
  | cons t more =>
    have hlt : more.length < ts.length := Nat.lt_of_succ_lt shorter
    dsimp only
    split
    · rename_i hexp
      apply (signedTerm_takes more).bind
      intro exponent rest h hexponent
      exact .ok (hbase.operation (by rw [hexp]; rfl) hexponent)
    · exact .ok hbase
termination_by 10 * ts.length + 2

theorem subscripted_takes (ts : List Token) :
    Obtains (Takes scope ts) (subscripted scope last ts) := by
  rw [subscripted]
  apply (operand_takes ts).bind
  intro base rest shorter hbase
  exact subscriptedFrom_takes rest shorter hbase
termination_by 10 * ts.length + 1

theorem subscriptedFrom_takes {front : List Token} {n : Nat} {base : Expr} :
    ∀ ts shorter, Takes scope front base ts →
      Obtains (Takes scope front) (subscriptedFrom scope last n base ts shorter)
  | [], _, hbase => by
    rw [subscriptedFrom]
    exact .ok hbase
  | t :: more, shorter, hbase => by
    rw [subscriptedFrom]
    split
    · rename_i hopens
      refine (sum_takes more).bind_close (fun _ _ _ => rfl) ?_
      intro position c rest h h' hposition hc
      exact subscriptedFrom_takes rest _ (hbase.index hopens.1 hc hposition)
    · exact .ok hbase
termination_by ts => 10 * ts.length + 9

theorem operand_takes : ∀ ts, Obtains (Takes scope ts) (operand scope last ts)
  | [] => by
    rw [operand]
    exact .error trivial
  | ⟨kind, start, stop⟩ :: more => by
    rw [operand.eq_def]
    dsimp only
    split
    · split
      · rename_i value hvalue
        exact .ok (takes_token (.const hvalue))
      · exact .error trivial
    · exact .ok (takes_token .unit)
    · rename_i spelling
      split
      · rename_i e huse
        exact .ok (takes_token (.name huse))
      · rename_i callee arity huse
        exact called_obtains (arguments_takes more (called_of_useOf huse))
          fun args stop rest hargs _ => hargs _ _ _ (.name huse)
    · rename_i spelling
      split
      · rename_i hopen
        exact called_obtains (arguments_takes more hopen)
          fun args stop rest hargs _ => hargs _ _ _ .command
      · split
        · exact .error trivial
        · apply (bareArgument_takes more).bind
          intro arg rest h harg
          apply callOf_obtains.bind
          rintro _ ⟨-, rfl⟩
          exact .ok (harg.prefixed (fun ps hps => .command rfl hps) (by simp [children]))
    · apply (fractionPart_takes more).bind
      intro numerator rest h hnumerator
      apply (fractionPart_takes rest).bind
      intro denominator rest h' hdenominator
      exact .ok (hnumerator.fraction rfl hdenominator)
    · apply (root_takes rfl more).bind
      intro e rest h he
      exact .ok he
    · refine (sum_takes more).bind_close (fun _ _ _ => rfl) ?_
      intro inner c rest h h' hinner hc
      exact .ok (hinner.group (by simp [hc, Token.Kind.bracketPairs]) nofun)
    · refine (sum_takes more).bind_close (fun _ _ _ => rfl) ?_
      intro inner c rest h h' hinner hc
      exact .ok (hinner.group (by simp [hc, Token.Kind.bracketPairs]) nofun)
    · cases more with
      | nil => exact .error trivial
      | cons u more =>
        dsimp only
        split
        · exact .error trivial
        · refine (listed_takes (u :: more)).bind_close (fun _ _ _ => rfl) ?_
          intro elements c rest h h' helements hc
          exact .ok (helements.array rfl hc)
    all_goals exact .error trivial
termination_by ts => 10 * ts.length

theorem root_takes {command : Token} (hcommand : command.kind = .sqrt) :
    ∀ ts, Obtains (Takes scope (command :: ts)) (root scope last command ts)
  | [] => by
    rw [root]
    exact .error trivial
  | t :: more => by
    rw [root]
    split
    · rename_i hopens
      refine (sum_takes more).bind_close (fun _ _ _ => rfl) ?_
      intro degree c rest h h' hdegree hc
      apply (operand_takes rest).bind
      intro radicand rest' h'' hradicand
      exact .ok (hdegree.root hcommand hopens hc hradicand)
    · apply (operand_takes (t :: more)).bind
      intro radicand rest h hradicand
      exact .ok (hradicand.prefixed (fun ps hps => .sqrt hcommand hps) (by simp [children]))
termination_by ts => 10 * ts.length + 1

theorem bareArgument_takes (ts : List Token) :
    Obtains (Takes scope ts) (bareArgument scope last ts) := by
  rw [bareArgument]
  split
  · exact operand_takes ts
  · exact signedTerm_takes ts
termination_by 10 * ts.length + 4

theorem fractionPart_takes (ts : List Token) :
    Obtains (TakesPart scope ts) (fractionPart scope last ts) := by
  rw [fractionPart.eq_def]
  split
  · rename_i literal start stop more
    split
    · rename_i digit others hsplit
      exact .ok (.digit hsplit (value?_digit (splitDigit?_digits hsplit).1))
    · apply (operand_takes _).bind
      intro e rest h he
      exact .ok (.whole he)
  · apply (operand_takes ts).bind
    intro e rest h he
    exact .ok (.whole he)
termination_by 10 * ts.length + 1

theorem listed_takes (ts : List Token) : Obtains (TakesList scope ts) (listed scope last ts) := by
  rw [listed]
  apply (sum_takes ts).bind
  intro first rest shorter hfirst
  cases rest with
  | nil => exact .ok hfirst.list
  | cons t more =>
    have hlt : more.length < ts.length := Nat.lt_of_succ_lt shorter
    dsimp only
    split
    · rename_i hcomma
      apply (listed_takes more).bind
      intro others rest h hothers
      exact .ok (hfirst.cons hcomma hothers)
    · exact .ok hfirst.list
termination_by 10 * ts.length + 7

theorem arguments_takes : ∀ ts, isOpen ts →
    Obtains (TakesArguments scope ts) (arguments scope last ts)
  | [], _ => by
    rw [arguments]
    exact .error trivial
  | o :: more, hopen => by
    have ho : o.kind = .lparen := by simpa [isOpen] using hopen
    rw [arguments]
    split
    · apply (close_obtains .rparen o more).bind
      rintro _ rest h ⟨c, rfl, hc, rfl⟩
      refine .ok fun t name callee hcalls => ?_
      exact takes_emptyCall hcalls ho hc
    · refine (listed_takes more).bind_close (fun _ _ _ => rfl) ?_
      intro args c rest h h' hargs hc
      refine .ok fun t name callee hcalls => ?_
      exact hargs.call hcalls ho hc
termination_by ts => 10 * ts.length

end

end

/-! ## Whole texts -/

/-- A tree of all tokens is the sum that they are read as. -/
theorem sum_of_ofTokens {scope : Scope} {ts : List Token} {e : Expr}
    (h : ofTokens scope ts = .ok (some e)) :
    ∃ last shorter, sum scope last ts = .ok ⟨e, [], shorter⟩ := by
  unfold ofTokens at h
  split at h
  · cases h
  · obtain ⟨⟨e', rest, shorter⟩, hsum, h⟩ := bind_eq_ok.1 h
    cases rest with
    | nil =>
      cases h
      exact ⟨_, shorter, hsum⟩
    | cons t rest => cases h

theorem ofTokens_takes {scope : Scope} {ts : List Token} {e : Expr}
    (h : ofTokens scope ts = .ok (some e)) : Takes scope ts e [] := by
  obtain ⟨last, shorter, hsum⟩ := sum_of_ofTokens h
  exact (sum_takes ts).result hsum

theorem exists_of_isSome {r : Except SourceError (Option Expr)}
    (h : r.toOption.join.isSome = true) : ∃ e, r = .ok (some e) := by
  cases r with
  | error fault => cases h
  | ok e? =>
    obtain ⟨e, rfl⟩ := Option.isSome_iff_exists.1 h
    exact ⟨e, rfl⟩

/-- A text that is parsed is made of its tokens. -/
theorem parse_madeOf {scope : Scope} {text : String} {e : Expr}
    (h : parse scope text = .ok (some e)) :
    ∃ ts ps, tokens ⟨scope.mode, scope.isUnitWord⟩ text = .ok ts ∧ MadeOf scope ps e ∧
      Cut (PartOf ps e) ts ps := by
  unfold parse at h
  obtain ⟨ts, hts, h⟩ := bind_eq_ok.1 h
  obtain ⟨ps, hps, hpasses⟩ := ofTokens_takes h
  rw [Passes, List.append_nil] at hpasses
  exact ⟨ts, ps, hts, hps, hpasses⟩

end Expr

end Worksheet
