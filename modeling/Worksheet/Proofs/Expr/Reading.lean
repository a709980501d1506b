import Worksheet.Expr.Parse
import Worksheet.Proofs.Expr.Nodes
import Worksheet.Proofs.Token.Faults
/-!
# What the parser reads

Every node of a tree lies between the tokens that the tree was read from, and every name in it means
what the scope says. The parser's own errors are those of a text that does not follow the grammar,
at a place in the text or right behind it.
-/

namespace Worksheet

/-- A name that stands for a value refers to what the scope says. -/
inductive Scope.Binds (scope : Scope) : Binding → Prop where
  | parameter {name : Name} {i : Nat} (h : scope.parameter? name = some i) :
      Binds scope (.parameter i)
  | value {name : Name} {id : SymbolId} (h : scope.resolve name = some (.value id)) :
      Binds scope (.symbol id)
  | function {name : Name} {id : SymbolId} {arity : Nat}
      (h : scope.resolve name = some (.function id arity)) : Binds scope (.symbol id)
  | unresolved : Binds scope .unresolved

inductive Scope.Calls (scope : Scope) : Callee → Prop where
  | user {name : Name} {id : SymbolId} {arity : Nat}
      (h : scope.resolve name = some (.function id arity)) : Calls scope (.user id)
  | builtin (function : Builtin) : Calls scope (.builtin function)
  | unresolved : Calls scope .unresolved

namespace Expr

variable {scope : Scope}

/-- The name at the root refers to what the scope says, if there is one. -/
def Means (scope : Scope) : Expr → Prop
  | var _ _ binding => scope.Binds binding
  | call _ _ callee _ => scope.Calls callee
  | _ => True

/-- All nodes lie between two positions, and all names mean what the scope says. -/
structure Stands (scope : Scope) (lo hi : Nat) (e : Expr) : Prop where
  ordered : lo ≤ hi
  nodes : ∀ n, e.Node n → n.span.Within lo hi ∧ n.Means scope

section

variable {lo lo' mid mid' hi : Nat} {e : Expr}

theorem Stands.span (h : e.Stands scope lo hi) : e.span.Within lo hi := (h.nodes e .refl).1

theorem Stands.mono (h : e.Stands scope mid mid') (hlo : lo ≤ mid) (hhi : mid' ≤ hi) :
    e.Stands scope lo hi where
  ordered := Nat.le_trans hlo (Nat.le_trans h.ordered hhi)
  nodes n hn := ⟨(h.nodes n hn).1.mono hlo hhi, (h.nodes n hn).2⟩

theorem stands_of_children (hordered : lo ≤ hi) (hspan : e.span.Within lo hi)
    (hmeans : e.Means scope) (hchildren : ∀ c ∈ e.children, c.Stands scope lo hi) :
    e.Stands scope lo hi := by
  refine ⟨hordered, fun n hn => ?_⟩
  rcases Relation.ReflTransGen.cases_head hn with rfl | ⟨c, hc, hn⟩
  · exact ⟨hspan, hmeans⟩
  · exact (hchildren c hc).nodes n hn

theorem stands_leaf (hordered : lo ≤ hi) (hspan : e.span.Within lo hi) (hmeans : e.Means scope)
    (hchildren : e.children = []) : e.Stands scope lo hi :=
  stands_of_children hordered hspan hmeans (by simp [hchildren])

theorem Stands.join {op : BinaryOp} {left right : Expr} (hleft : left.Stands scope lo mid)
    (hright : right.Stands scope mid' hi) (h : mid ≤ mid') :
    (Expr.join op left right).Stands scope lo hi := by
  have hleft' := hleft.mono (Nat.le_refl lo) (Nat.le_trans h hright.ordered)
  have hright' := hright.mono (Nat.le_trans hleft.ordered h) (Nat.le_refl hi)
  refine stands_of_children hleft'.ordered (hleft'.span.union hright'.span) trivial ?_
  exact List.forall_mem_cons.2 ⟨hleft', List.forall_mem_singleton.2 hright'⟩

theorem Stands.grouped {start stop opened : Nat} (h : e.Stands scope opened mid)
    (hstart : lo ≤ start) (hopened : start ≤ opened) (hmid : mid ≤ stop) :
    (group (Span.ofBytes start stop) e).Stands scope lo stop := by
  have hinner := h.mono (Nat.le_trans hstart hopened) hmid
  have hspan : (Span.ofBytes start stop).Within lo stop :=
    Span.within_ofBytes hstart (Nat.le_trans hopened (Nat.le_trans h.ordered hmid))
      (Nat.le_refl stop)
  exact stands_of_children hinner.ordered hspan trivial (List.forall_mem_singleton.2 hinner)

/-- An n-th root is read as a power that begins at the command, with the number 1 there. -/
theorem stands_nthRoot {command : Token} {degree radicand : Expr} (hstart : lo ≤ command.start)
    (hstop : command.start ≤ command.stop) (hdegree : degree.Stands scope command.stop mid)
    (hradicand : radicand.Stands scope mid hi) :
    (binary (Span.ofBytes command.start radicand.span.stop) .exp radicand
      (group degree.span (binary degree.span .div
        (const (Span.ofBytes command.start command.stop) "1" 1) degree))).Stands scope lo hi := by
  have hordered : lo ≤ command.stop := Nat.le_trans hstart hstop
  have hdegree' := hdegree.mono hordered hradicand.ordered
  have hradicand' := hradicand.mono (Nat.le_trans hordered hdegree.ordered) (Nat.le_refl hi)
  have hone : (const (Span.ofBytes command.start command.stop) "1" 1).Stands scope lo hi :=
    stands_leaf hradicand'.ordered (Span.within_ofBytes hstart hstop
      (Nat.le_trans hdegree.ordered hradicand.ordered)) trivial rfl
  have hquotient : (binary degree.span .div _ degree).Stands scope lo hi :=
    stands_of_children hradicand'.ordered hdegree'.span trivial
      (List.forall_mem_cons.2 ⟨hone, List.forall_mem_singleton.2 hdegree'⟩)
  have hexponent : (group degree.span _).Stands scope lo hi :=
    stands_of_children hradicand'.ordered hdegree'.span trivial
      (List.forall_mem_singleton.2 hquotient)
  exact stands_of_children hradicand'.ordered
    (hradicand.span.beginAt hstart (Nat.le_trans hstop hdegree.ordered)) trivial
    (List.forall_mem_cons.2 ⟨hradicand', List.forall_mem_singleton.2 hexponent⟩)

end

/-- An error that the text is at fault for, at a place in it or right behind it. -/
def Misplaced (hi : Nat) (e : SourceError) : Prop :=
  e.code.External ∧ e.span.Within 0 (hi + 1)

/-- A reading gives something with the property `Q`, which depends on where the reading has come to,
or an error that the text is at fault for. -/
abbrev Gives {n : Nat} {α : Type} (hi : Nat) (Q : Nat → α → Prop)
    (r : Except SourceError (Reading n α)) : Prop :=
  Meets (Misplaced hi) (fun r => ∃ mid, Q mid r.value ∧ Spread mid hi r.rest) r

section

variable {last lo hi : Nat}

theorem Gives.bind {m n : Nat} {α β : Type} {R : Nat → α → Prop} {Q : Nat → β → Prop}
    {r : Except SourceError (Reading m α)} {f : Reading m α → Except SourceError (Reading n β)}
    (hr : Gives hi R r)
    (hf : ∀ a rest shorter mid, R mid a → Spread mid hi rest → Gives hi Q (f ⟨a, rest, shorter⟩)) :
    Gives hi Q (r >>= f) :=
  Meets.bind hr fun ⟨a, rest, shorter⟩ ⟨mid, ha, hrest⟩ => hf a rest shorter mid ha hrest

theorem gives_ok {n : Nat} {α : Type} {Q : Nat → α → Prop} {a : α} {rest : List Token}
    {shorter : rest.length < n} {mid : Nat} (ha : Q mid a) (hrest : Spread mid hi rest) :
    Gives hi Q (.ok ⟨a, rest, shorter⟩ : Except SourceError (Reading n α)) :=
  .ok ⟨mid, ha, hrest⟩

theorem misplaced_at {code : ErrorCode} {a b : Nat} (hcode : code.External) (h : a ≤ b)
    (hhi : b ≤ hi) : Misplaced hi ⟨code, Span.ofBytes a b⟩ :=
  ⟨hcode, Span.within_ofBytes (Nat.zero_le a) h (Nat.le_succ_of_le hhi)⟩

theorem misplaced_end (hlast : last ≤ hi) : Misplaced hi (endFault last) :=
  ⟨(by decide : ErrorCode.External .unrecognizedEof),
    Span.within_ofBytes (Nat.zero_le _) (Nat.le_succ _) (Nat.succ_le_succ hlast)⟩

theorem close_gives (closer : Token.Kind) {opener : Token} (hopener : opener.start ≤ opener.stop)
    (hhi : opener.stop ≤ hi) {ts : List Token} (hts : Spread lo hi ts) :
    Gives hi (fun mid stop => lo ≤ mid ∧ stop = mid) (close closer opener ts) := by
  unfold close
  split
  · exact .error (misplaced_at (by decide) hopener hhi)
  · rename_i t rest
    obtain ⟨hstart, hstop, -, hrest⟩ := hts
    split
    · exact gives_ok ⟨Nat.le_trans hstart hstop, rfl⟩ hrest
    · exact .error (misplaced_at (by split <;> decide) hstop hrest.le)

theorem splitDigit?_eq_some {number others : String} {digit : Char}
    (h : splitDigit? number = some (digit, others)) : number.toList = digit :: others.toList := by
  unfold splitDigit? at h
  split at h
  · rename_i c d cs hnumber
    split at h
    · cases h
      rw [hnumber, String.toList_ofList]
    · cases h
  · cases h

/-- What a name is used for is at its place, and means what the scope says. -/
def Use.Means (scope : Scope) (span : Span) : Use → Prop
  | .operand e => e.span = span ∧ e.children = [] ∧ e.Means scope
  | .call callee _ => scope.Calls callee

theorem useOf_means (scope : Scope) (spelling : String) (span : Span) (called : Bool) :
    (useOf scope spelling span called).Means scope span := by
  unfold useOf
  dsimp only
  split
  · split
    · exact .unresolved
    · exact ⟨rfl, rfl, .unresolved⟩
  · split
    · rename_i hparameter
      exact ⟨rfl, rfl, .parameter hparameter⟩
    · split
      · rename_i hvalue
        exact ⟨rfl, rfl, .value hvalue⟩
      · rename_i hfunction
        split
        · exact .user hfunction
        · split
          · split
            · exact ⟨rfl, rfl, .builtin _⟩
            · exact ⟨rfl, rfl, trivial⟩
          · exact ⟨rfl, rfl, .function hfunction⟩
      · split
        · split
          · exact .builtin _
          · exact .unresolved
        · split
          · exact ⟨rfl, rfl, .builtin _⟩
          · split
            · exact ⟨rfl, rfl, trivial⟩
            · exact ⟨rfl, rfl, .unresolved⟩

theorem commandCallee_calls (scope : Scope) (name : Name) :
    scope.Calls (commandCallee scope name).1 := by
  unfold commandCallee
  split
  · exact .builtin _
  · rename_i hfunction
    exact .user hfunction
  · exact .unresolved

theorem callOf_gives {name : Name} {callee : Callee} {arity : Option Nat} {args : List Expr}
    {span : Span} {mid : Nat} (hordered : lo ≤ mid) (hmid : mid ≤ hi) (hspan : span.Within lo mid)
    (hcallee : scope.Calls callee) (hargs : ∀ e ∈ args, e.Stands scope lo mid) :
    Meets (Misplaced hi) (Stands scope lo mid) (callOf name callee arity args span) := by
  unfold callOf
  split
  · exact .ok (stands_of_children hordered hspan hcallee hargs)
  · exact .error ⟨(by decide : ErrorCode.External .badArity),
      hspan.mono (Nat.zero_le _) (Nat.le_succ_of_le hmid)⟩

/-- A call with its arguments in parentheses ends where they do. -/
theorem called_gives {name : Name} {callee : Callee} {arity : Option Nat} {t : Token}
    {ts : List Token} (hstart : lo ≤ t.start) (hstop : t.start ≤ t.stop)
    (hcallee : scope.Calls callee)
    (hargs : Gives hi (fun mid a => t.stop ≤ mid ∧ a.2 = mid ∧ ∀ e ∈ a.1, e.Stands scope t.stop mid)
      (arguments scope last ts)) :
    Gives hi (Stands scope lo) (do
      let ⟨(args, stop), rest, h⟩ ← arguments scope last ts
      let e ← callOf name callee arity args (Span.ofBytes t.start stop)
      .ok (⟨e, rest, Nat.lt_succ_of_lt h⟩ : Reading (ts.length + 1) Expr)) := by
  apply hargs.bind
  rintro ⟨args, stop⟩ rest h _ ⟨hmid, rfl, hargs⟩ hrest
  have hordered : lo ≤ t.stop := Nat.le_trans hstart hstop
  have hspan : (Span.ofBytes t.start stop).Within lo stop :=
    Span.within_ofBytes hstart (Nat.le_trans hstop hmid) (Nat.le_refl stop)
  apply (callOf_gives (Nat.le_trans hordered hmid) hrest.le hspan hcallee
    fun e he => (hargs e he).mono hordered (Nat.le_refl stop)).bind
  exact fun e he => gives_ok he hrest

end

/-! ## The parser -/

section

variable {last hi : Nat}

mutual

theorem sum_gives (hlast : last ≤ hi) {lo : Nat} (ts : List Token) (hts : Spread lo hi ts) :
    Gives hi (Stands scope lo) (sum scope last ts) := by
  rw [sum]
  apply (product_gives hlast ts hts).bind
  intro left rest shorter mid hleft hrest
  exact sumFrom_gives hlast hleft rest shorter hrest
termination_by 10 * ts.length + 6

theorem sumFrom_gives (hlast : last ≤ hi) {lo n mid : Nat} {left : Expr}
    (hleft : left.Stands scope lo mid) :
    ∀ ts shorter, Spread mid hi ts →
      Gives hi (Stands scope lo) (sumFrom scope last n left ts shorter)
  | [], _, hts => by
    rw [sumFrom]
    exact gives_ok hleft hts
  | t :: more, shorter, hts => by
    rw [sumFrom]
    split
    · exact gives_ok hleft hts
    · obtain ⟨hstart, hstop, -, hmore⟩ := hts
      apply (product_gives hlast more hmore).bind
      intro right rest h mid' hright hrest
      exact sumFrom_gives hlast (hleft.join hright (Nat.le_trans hstart hstop)) rest _ hrest
termination_by ts => 10 * ts.length + 9

theorem product_gives (hlast : last ≤ hi) {lo : Nat} (ts : List Token) (hts : Spread lo hi ts) :
    Gives hi (Stands scope lo) (product scope last ts) := by
  rw [product]
  apply (juxtaposed_gives hlast ts hts).bind
  intro left rest shorter mid hleft hrest
  exact productFrom_gives hlast hleft rest shorter hrest
termination_by 10 * ts.length + 5

theorem productFrom_gives (hlast : last ≤ hi) {lo n mid : Nat} {left : Expr}
    (hleft : left.Stands scope lo mid) :
    ∀ ts shorter, Spread mid hi ts →
      Gives hi (Stands scope lo) (productFrom scope last n left ts shorter)
  | [], _, hts => by
    rw [productFrom]
    exact gives_ok hleft hts
  | t :: more, shorter, hts => by
    rw [productFrom]
    split
    · exact gives_ok hleft hts
    · obtain ⟨hstart, hstop, -, hmore⟩ := hts
      apply (juxtaposed_gives hlast more hmore).bind
      intro right rest h mid' hright hrest
      exact productFrom_gives hlast (hleft.join hright (Nat.le_trans hstart hstop)) rest _ hrest
termination_by ts => 10 * ts.length + 9

theorem juxtaposed_gives (hlast : last ≤ hi) {lo : Nat} (ts : List Token) (hts : Spread lo hi ts) :
    Gives hi (Stands scope lo) (juxtaposed scope last ts) := by
  rw [juxtaposed]
  apply (signedTerm_gives hlast ts hts).bind
  intro left rest shorter mid hleft hrest
  exact juxtaposedFrom_gives hlast hleft rest shorter hrest
termination_by 10 * ts.length + 4

theorem juxtaposedFrom_gives (hlast : last ≤ hi) {lo n mid : Nat} {left : Expr}
    (hleft : left.Stands scope lo mid) :
    ∀ ts shorter, Spread mid hi ts →
      Gives hi (Stands scope lo) (juxtaposedFrom scope last n left ts shorter)
  | [], _, hts => by
    rw [juxtaposedFrom]
    exact gives_ok hleft hts
  | t :: more, shorter, hts => by
    rw [juxtaposedFrom]
    split
    · apply (power_gives hlast (t :: more) hts).bind
      intro right rest h mid' hright hrest
      have hlength : rest.length ≤ more.length := Nat.le_of_lt_succ h
      exact juxtaposedFrom_gives hlast (hleft.join hright (Nat.le_refl mid)) rest _ hrest
    · exact gives_ok hleft hts
termination_by ts => 10 * ts.length + 9

theorem signedTerm_gives (hlast : last ≤ hi) {lo : Nat} :
    ∀ ts, Spread lo hi ts → Gives hi (Stands scope lo) (signedTerm scope last ts)
  | [], hts => by
    rw [signedTerm]
    exact power_gives hlast [] hts
  | t :: more, hts => by
    rw [signedTerm]
    split
    · exact power_gives hlast (t :: more) hts
    · obtain ⟨hstart, hstop, -, hmore⟩ := hts
      apply (signedTerm_gives hlast more hmore).bind
      intro operand rest h mid hoperand hrest
      have hoperand' := hoperand.mono (Nat.le_trans hstart hstop) (Nat.le_refl mid)
      refine gives_ok (stands_of_children hoperand'.ordered
        (hoperand.span.beginAt hstart hstop) trivial ?_) hrest
      exact List.forall_mem_singleton.2 hoperand'
termination_by ts => 10 * ts.length + 3

theorem power_gives (hlast : last ≤ hi) {lo : Nat} (ts : List Token) (hts : Spread lo hi ts) :
    Gives hi (Stands scope lo) (power scope last ts) := by
  rw [power]
  apply (subscripted_gives hlast ts hts).bind
  intro base rest shorter mid hbase hrest
  cases rest with
  | nil => exact gives_ok hbase hrest
  | cons t more =>
    have hlt : more.length < ts.length := Nat.lt_of_succ_lt shorter
    dsimp only
    split
    · obtain ⟨hstart, hstop, -, hmore⟩ := hrest
      apply (signedTerm_gives hlast more hmore).bind
      intro exponent rest h mid' hexponent hrest
      exact gives_ok (hbase.join hexponent (Nat.le_trans hstart hstop)) hrest
    · exact gives_ok hbase hrest
termination_by 10 * ts.length + 2

theorem subscripted_gives (hlast : last ≤ hi) {lo : Nat} (ts : List Token) (hts : Spread lo hi ts) :
    Gives hi (Stands scope lo) (subscripted scope last ts) := by
  rw [subscripted]
  apply (operand_gives hlast ts hts).bind
  intro base rest shorter mid hbase hrest
  exact subscriptedFrom_gives hlast hbase rest shorter hrest
termination_by 10 * ts.length + 1

theorem subscriptedFrom_gives (hlast : last ≤ hi) {lo n mid : Nat} {base : Expr}
    (hbase : base.Stands scope lo mid) :
    ∀ ts shorter, Spread mid hi ts →
      Gives hi (Stands scope lo) (subscriptedFrom scope last n base ts shorter)
  | [], _, hts => by
    rw [subscriptedFrom]
    exact gives_ok hbase hts
  | t :: more, shorter, hts => by
    rw [subscriptedFrom]
    split
    · obtain ⟨hstart, hstop, -, hmore⟩ := hts
      apply (sum_gives hlast more hmore).bind
      intro position rest h mid' hposition hrest
      apply (close_gives .rbracket hstop hmore.le hrest).bind
      rintro stop rest h' _ ⟨hmid', rfl⟩ hrest
      have hmid : mid ≤ stop :=
        Nat.le_trans (Nat.le_trans hstart hstop) (Nat.le_trans hposition.ordered hmid')
      have hbase' := hbase.mono (Nat.le_refl lo) hmid
      have hposition' : position.Stands scope lo stop :=
        hposition.mono (Nat.le_trans hbase.ordered (Nat.le_trans hstart hstop)) hmid'
      have hspan : (Span.ofBytes base.span.start stop).Within lo stop :=
        hbase.span.endAt hmid (Nat.le_refl stop)
      have hindex : (index _ base position).Stands scope lo stop :=
        stands_of_children hbase'.ordered hspan trivial
          (List.forall_mem_cons.2 ⟨hbase', List.forall_mem_singleton.2 hposition'⟩)
      exact subscriptedFrom_gives hlast hindex rest _ hrest
    · exact gives_ok hbase hts
termination_by ts => 10 * ts.length + 9

theorem operand_gives (hlast : last ≤ hi) {lo : Nat} :
    ∀ ts, Spread lo hi ts → Gives hi (Stands scope lo) (operand scope last ts)
  | [], _ => by
    rw [operand]
    exact .error (misplaced_end hlast)
  | t :: more, hts => by
    obtain ⟨hstart, hstop, -, hmore⟩ := hts
    have hordered : lo ≤ t.stop := Nat.le_trans hstart hstop
    have hspan : (Span.ofBytes t.start t.stop).Within lo t.stop :=
      Span.within_ofBytes hstart hstop (Nat.le_refl _)
    have hmisplaced : ∀ {code : ErrorCode}, code.External →
        Misplaced hi ⟨code, Span.ofBytes t.start t.stop⟩ :=
      fun hcode => misplaced_at hcode hstop hmore.le
    -- What follows the token stands from the token on.
    have hafter : ∀ {mid : Nat} {e : Expr}, e.Stands scope t.stop mid → e.Stands scope lo mid :=
      fun h => h.mono hordered (Nat.le_refl _)
    rw [operand.eq_def]
    dsimp only
    split
    · split
      · exact gives_ok (stands_leaf hordered hspan trivial rfl) hmore
      · exact .error (hmisplaced (by decide))
    · exact gives_ok (stands_leaf hordered hspan trivial rfl) hmore
    · rename_i spelling _
      have huse := useOf_means scope spelling (Span.ofBytes t.start t.stop) (isOpen more)
      split
      · rename_i e he
        rw [he] at huse
        obtain ⟨heq, hchildren, hmeans⟩ := huse
        exact gives_ok (stands_leaf hordered (heq ▸ hspan) hmeans hchildren) hmore
      · rename_i callee arity hcall
        rw [hcall] at huse
        exact called_gives hstart hstop huse (arguments_gives hlast more hmore)
    · rename_i spelling _
      have hcallee := commandCallee_calls scope (Name.ofSpelling spelling)
      split
      · exact called_gives hstart hstop hcallee (arguments_gives hlast more hmore)
      · split
        · exact .error (hmisplaced (by decide))
        · apply (bareArgument_gives hlast more hmore).bind
          intro arg rest h mid harg hrest
          apply (callOf_gives (Nat.le_trans hordered harg.ordered) hrest.le
            (harg.span.beginAt hstart hstop) hcallee
            (List.forall_mem_singleton.2 (hafter harg))).bind
          exact fun e he => gives_ok he hrest
    · apply (fractionPart_gives hlast more hmore).bind
      intro numerator rest h mid hnumerator hrest
      apply (fractionPart_gives hlast rest hrest).bind
      intro denominator rest h' mid' hdenominator hrest
      have hstop' : t.stop ≤ mid := hnumerator.ordered
      have hnumerator' := hafter (hnumerator.mono (Nat.le_refl _) hdenominator.ordered)
      have hdenominator' := hafter (hdenominator.mono hstop' (Nat.le_refl _))
      refine gives_ok (stands_of_children hnumerator'.ordered
        (hdenominator.span.beginAt hstart (Nat.le_trans hstop hstop')) trivial ?_) hrest
      exact List.forall_mem_cons.2 ⟨hnumerator', List.forall_mem_singleton.2 hdenominator'⟩
    · apply (root_gives hlast hstart hstop more hmore).bind
      intro e rest h mid he hrest
      exact gives_ok he hrest
    · apply (sum_gives hlast more hmore).bind
      intro inner rest h mid hinner hrest
      apply (close_gives .rparen hstop hmore.le hrest).bind
      rintro stop rest h' _ ⟨hmid, rfl⟩ hrest
      exact gives_ok (hinner.grouped hstart hstop hmid) hrest
    · apply (sum_gives hlast more hmore).bind
      intro inner rest h mid hinner hrest
      apply (close_gives .rbrace hstop hmore.le hrest).bind
      rintro stop rest h' _ ⟨hmid, rfl⟩ hrest
      exact gives_ok (hinner.grouped hstart hstop hmid) hrest
    · cases more with
      | nil => exact .error (misplaced_end hlast)
      | cons u more =>
        dsimp only
        split
        · obtain ⟨hstart', hstop', -, hmore'⟩ := hmore
          exact .error (misplaced_at (by decide)
            (Nat.le_trans hstop (Nat.le_trans hstart' hstop')) hmore'.le)
        · apply (listed_gives hlast (u :: more) hmore).bind
          intro elements rest h mid ⟨hmid, helements⟩ hrest
          apply (close_gives .rbracket hstop hmore.le hrest).bind
          rintro stop rest h' _ ⟨hmid', rfl⟩ hrest
          have hstop' : t.stop ≤ stop := Nat.le_trans hmid hmid'
          have hspan' : (Span.ofBytes t.start stop).Within lo stop :=
            Span.within_ofBytes hstart (Nat.le_trans hstop hstop') (Nat.le_refl stop)
          exact gives_ok (stands_of_children (Nat.le_trans hordered hstop') hspan' trivial
            fun e he => hafter ((helements e he).mono (Nat.le_refl _) hmid')) hrest
    all_goals exact .error (hmisplaced (by decide))
termination_by ts => 10 * ts.length

theorem root_gives (hlast : last ≤ hi) {lo : Nat} {command : Token} (hstart : lo ≤ command.start)
    (hstop : command.start ≤ command.stop) :
    ∀ ts, Spread command.stop hi ts → Gives hi (Stands scope lo) (root scope last command ts)
  | [], _ => by
    rw [root]
    exact .error (misplaced_end hlast)
  | t :: more, hts => by
    have hordered : lo ≤ command.stop := Nat.le_trans hstart hstop
    rw [root]
    split
    · obtain ⟨hstart', hstop', -, hmore⟩ := hts
      apply (sum_gives hlast more hmore).bind
      intro degree rest h mid hdegree hrest
      apply (close_gives .rbracket hstop' hmore.le hrest).bind
      rintro _ rest h' mid' ⟨hmid', -⟩ hrest
      apply (operand_gives hlast rest hrest).bind
      intro radicand rest h'' mid'' hradicand hrest
      exact gives_ok (stands_nthRoot hstart hstop
        (hdegree.mono (Nat.le_trans hstart' hstop') hmid') hradicand) hrest
    · apply (operand_gives hlast (t :: more) hts).bind
      intro radicand rest h mid hradicand hrest
      have hradicand' := hradicand.mono hordered (Nat.le_refl _)
      exact gives_ok (stands_of_children hradicand'.ordered
        (hradicand.span.beginAt hstart hstop) (.builtin _)
        (List.forall_mem_singleton.2 hradicand')) hrest
termination_by ts => 10 * ts.length + 1

theorem bareArgument_gives (hlast : last ≤ hi) {lo : Nat} (ts : List Token)
    (hts : Spread lo hi ts) : Gives hi (Stands scope lo) (bareArgument scope last ts) := by
  rw [bareArgument]
  split
  · exact operand_gives hlast ts hts
  · exact signedTerm_gives hlast ts hts
termination_by 10 * ts.length + 4

theorem fractionPart_gives (hlast : last ≤ hi) {lo : Nat} (ts : List Token)
    (hts : Spread lo hi ts) : Gives hi (Stands scope lo) (fractionPart scope last ts) := by
  rw [fractionPart.eq_def]
  split
  · rename_i literal start stop more
    split
    · rename_i digit others hsplit
      obtain ⟨hstart, -, hroom, hmore⟩ := hts
      have hothers : start + 1 + Text.byteSize others.toList ≤ stop := by
        have hliteral := hroom literal rfl
        have hdigit := digit.utf8Size_pos
        rw [splitDigit?_eq_some hsplit, Text.byteSize_cons] at hliteral
        dsimp only at hliteral
        omega
      have hdigit : (Span.ofBytes start (start + 1)).Within lo (start + 1) :=
        Span.within_ofBytes hstart (Nat.le_succ _) (Nat.le_refl _)
      refine gives_ok (stands_leaf (Nat.le_succ_of_le hstart) hdigit trivial rfl)
        ⟨Nat.le_refl _, Nat.le_trans (Nat.le_add_right _ _) hothers, ?_, hmore⟩
      rintro _ ⟨⟩
      exact hothers
    · apply (operand_gives hlast _ hts).bind
      intro e rest h mid he hrest
      exact gives_ok he hrest
  · apply (operand_gives hlast ts hts).bind
    intro e rest h mid he hrest
    exact gives_ok he hrest
termination_by 10 * ts.length + 1

theorem listed_gives (hlast : last ≤ hi) {lo : Nat} (ts : List Token) (hts : Spread lo hi ts) :
    Gives hi (fun mid es => lo ≤ mid ∧ ∀ e ∈ es, e.Stands scope lo mid)
      (listed scope last ts) := by
  rw [listed]
  apply (sum_gives hlast ts hts).bind
  intro first rest shorter mid hfirst hrest
  have honly : lo ≤ mid ∧ ∀ e ∈ [first], e.Stands scope lo mid :=
    ⟨hfirst.ordered, List.forall_mem_singleton.2 hfirst⟩
  cases rest with
  | nil => exact gives_ok honly hrest
  | cons t more =>
    have hlt : more.length < ts.length := Nat.lt_of_succ_lt shorter
    dsimp only
    split
    · obtain ⟨hstart, hstop, -, hmore⟩ := hrest
      apply (listed_gives hlast more hmore).bind
      intro others rest h mid' ⟨hmid', hothers⟩ hrest
      have hbefore : mid ≤ t.stop := Nat.le_trans hstart hstop
      have hfirst' := hfirst.mono (Nat.le_refl lo) (Nat.le_trans hbefore hmid')
      refine gives_ok ⟨hfirst'.ordered, List.forall_mem_cons.2 ⟨hfirst', fun e he => ?_⟩⟩ hrest
      exact (hothers e he).mono (Nat.le_trans hfirst.ordered hbefore) (Nat.le_refl _)
    · exact gives_ok honly hrest
termination_by 10 * ts.length + 7

theorem arguments_gives (hlast : last ≤ hi) {lo : Nat} :
    ∀ ts, Spread lo hi ts →
      Gives hi (fun mid a => lo ≤ mid ∧ a.2 = mid ∧ ∀ e ∈ a.1, e.Stands scope lo mid)
        (arguments scope last ts)
  | [], _ => by
    rw [arguments]
    exact .error (misplaced_end hlast)
  | t :: more, hts => by
    obtain ⟨hstart, hstop, -, hmore⟩ := hts
    have hordered : lo ≤ t.stop := Nat.le_trans hstart hstop
    rw [arguments]
    split
    · apply (close_gives .rparen hstop hmore.le hmore).bind
      rintro stop rest h _ ⟨hmid, rfl⟩ hrest
      exact gives_ok ⟨Nat.le_trans hordered hmid, rfl, nofun⟩ hrest
    · apply (listed_gives hlast more hmore).bind
      intro args rest h mid ⟨hmid, hargs⟩ hrest
      apply (close_gives .rparen hstop hmore.le hrest).bind
      rintro stop rest h' _ ⟨hmid', rfl⟩ hrest
      exact gives_ok ⟨Nat.le_trans hordered (Nat.le_trans hmid hmid'), rfl,
        fun e he => (hargs e he).mono hordered hmid'⟩ hrest
termination_by ts => 10 * ts.length

end

end

theorem ofTokens_gives {hi : Nat} {ts : List Token} (hts : Spread 0 hi ts) :
    Meets (Misplaced hi) (fun e? => ∀ e ∈ e?, e.Stands scope 0 hi) (ofTokens scope ts) := by
  unfold ofTokens
  split
  · exact .ok nofun
  · apply Meets.bind (sum_gives hts.last_le ts hts)
    rintro ⟨e, rest, h⟩ ⟨mid, he, hrest⟩
    cases rest with
    | nil =>
      refine .ok ?_
      rintro _ ⟨⟩
      exact he.mono (Nat.le_refl 0) hrest
    | cons t more =>
      obtain ⟨-, hstop, -, hmore⟩ := hrest
      exact .error (misplaced_at (by split <;> decide) hstop hmore.le)

/-- Reading a text gives a tree whose nodes lie in it, or tells what is wrong with the text. -/
theorem parse_gives (scope : Scope) (text : String) :
    Meets (Misplaced (Text.byteSize text.toList))
      (fun e? => ∀ e ∈ e?, e.Stands scope 0 (Text.byteSize text.toList)) (parse scope text) := by
  apply ((tokens_meets _ text).imp (fun e he => ?_) fun _ h => h).bind
  · exact fun ts hts => ofTokens_gives hts
  · refine ⟨?_, he.2.mono (Nat.le_refl 0) (Nat.le_succ _)⟩
    rw [ErrorCode.External, he.1]
    decide

end Expr

end Worksheet
