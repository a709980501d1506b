import Mathlib.Data.List.Chain
import Worksheet.Proofs.Expr.Composition
import Worksheet.Proofs.Expr.Tight
/-!
# The shape of what is read

The parser keeps names, calls and subscripts in order, whatever it reads. In tokens like those of a
printed expression there are no fractions, no bare arguments and no factors beside each other, so
every tree that is read from them is tight.
-/

namespace Worksheet

/-! ## Flat tokens -/

namespace Token.Kind

/-- Stands in what is printed. -/
def isPrinted : Kind → Bool
  | unit _ | function _ | frac | sqrt | lbrace | rbrace => false
  | _ => true

/-- The second token may stand behind the first one without beginning a factor beside it. -/
def Beside : Kind → Kind → Prop
  | num _, k => k.startsOperand = false
  | ident _, k => k.startsOperand → k = lparen ∨ k = lbracket
  | rparen, k | rbracket, k => k.startsOperand → k = lbracket
  | _, _ => True

/-- Tokens like those of a printed expression. -/
structure Flat (ks : List Kind) : Prop where
  printed : ∀ k ∈ ks, k.isPrinted
  beside : ks.IsChain Beside

section

variable {k : Kind} {ks : List Kind}

theorem Flat.cons (hk : k.isPrinted) (hbeside : ∀ k' ∈ ks.head?, Beside k k') (h : Flat ks) :
    Flat (k :: ks) :=
  ⟨List.forall_mem_cons.2 ⟨hk, h.printed⟩, h.beside.cons hbeside⟩

theorem Flat.tail (h : Flat (k :: ks)) : Flat ks :=
  ⟨(List.forall_mem_cons.1 h.printed).2, h.beside.tail⟩

theorem Flat.isPrinted (h : Flat (k :: ks)) : k.isPrinted := h.printed k List.mem_cons_self

end

end Token.Kind

namespace Expr

open Token.Kind

/-- If the token begins an operand, it begins a subscript of the expression. -/
def Follows (e : Expr) (k : Token.Kind) : Prop := k.startsOperand → k = .lbracket ∧ e.isIndexable

section

variable {k : Token.Kind} {e : Expr}

theorem follows_of_not (h : k.startsOperand = false) : e.Follows k := fun hk => by
  rw [h] at hk
  cases hk

theorem Follows.not (h : e.Follows k) (he : e.isIndexable = false) : k.startsOperand = false := by
  by_contra hk
  have hindexable := (h (by simpa using hk)).2
  rw [he] at hindexable
  cases hindexable

mutual

theorem flat_kinds : ∀ e : Expr, e.Everywhere Sound →
    ∀ {ks}, Flat ks → (∀ k ∈ ks.head?, e.Follows k) → Flat (e.kinds ++ ks)
  | const .., _, ks, hflat, hfollows => .cons rfl (fun k hk => (hfollows k hk).not rfl) hflat
  | var .., _, ks, hflat, hfollows => .cons rfl (fun k hk hs => .inr (hfollows k hk hs).1) hflat
  | unit .., hsound, _, _, _ => hsound.self.elim
  | call _ name _ args, hsound, ks, hflat, hfollows => by
    have hclosed : Flat (.rparen :: ks) := .cons rfl (fun k hk hs => (hfollows k hk hs).1) hflat
    have hargs := flat_kindsList args hsound.children hclosed rfl
    have hopened : Flat (.lparen :: (kindsList args ++ .rparen :: ks)) :=
      .cons rfl (fun _ _ => trivial) hargs
    have hcall : Flat (.ident name.text :: .lparen :: (kindsList args ++ .rparen :: ks)) :=
      .cons rfl (by rintro _ ⟨⟩ -; exact .inl rfl) hopened
    simpa [kinds] using hcall
  | array _ elements, hsound, ks, hflat, hfollows => by
    have hclosed : Flat (.rbracket :: ks) := .cons rfl (fun k hk hs => (hfollows k hk hs).1) hflat
    have helements := flat_kindsList elements hsound.children hclosed rfl
    have harray : Flat (.lbracket :: (kindsList elements ++ .rbracket :: ks)) :=
      .cons rfl (fun _ _ => trivial) helements
    simpa [kinds] using harray
  | index _ base position, hsound, ks, hflat, hfollows => by
    have hclosed : Flat (.rbracket :: ks) := .cons rfl (fun k hk hs => (hfollows k hk hs).1) hflat
    have hposition := flat_kinds position (hsound.pair rfl).2 hclosed
      (by rintro _ ⟨⟩; exact follows_of_not rfl)
    have hopened : Flat (.lbracket :: (position.kinds ++ .rbracket :: ks)) :=
      .cons rfl (fun _ _ => trivial) hposition
    have hindex := flat_kinds base (hsound.pair rfl).1 hopened
      (by rintro _ ⟨⟩ -; exact ⟨rfl, hsound.self⟩)
    simpa [kinds] using hindex
  | signed _ sign operand, hsound, ks, hflat, hfollows => by
    have hoperand := flat_kinds operand (hsound.only rfl) hflat
      fun k hk => follows_of_not ((hfollows k hk).not rfl)
    exact .cons (by cases sign <;> rfl) (fun _ _ => by cases sign <;> trivial) hoperand
  | binary _ op left right, hsound, ks, hflat, hfollows => by
    have hright := flat_kinds right (hsound.pair rfl).2 hflat
      fun k hk => follows_of_not ((hfollows k hk).not rfl)
    have hop : Flat (op.kind :: (right.kinds ++ ks)) :=
      .cons (by cases op <;> rfl) (fun _ _ => by cases op <;> trivial) hright
    have hleft := flat_kinds left (hsound.pair rfl).1 hop
      (by rintro _ ⟨⟩; exact follows_of_not (by cases op <;> rfl))
    simpa [kinds] using hleft
  | group _ inner, hsound, ks, hflat, hfollows => by
    have hclosed : Flat (.rparen :: ks) := .cons rfl (fun k hk hs => (hfollows k hk hs).1) hflat
    have hinner := flat_kinds inner (hsound.only rfl) hclosed
      (by rintro _ ⟨⟩; exact follows_of_not rfl)
    have hgroup : Flat (.lparen :: (inner.kinds ++ .rparen :: ks)) :=
      .cons rfl (fun _ _ => trivial) hinner
    simpa [kinds] using hgroup

theorem flat_kindsList : ∀ es : List Expr, (∀ e ∈ es, e.Everywhere Sound) →
    ∀ {k ks}, Flat (k :: ks) → k.startsOperand = false → Flat (kindsList es ++ k :: ks)
  | [], _, _, _, hflat, _ => hflat
  | [e], hsound, k, ks, hflat, hk =>
    flat_kinds e (hsound e List.mem_cons_self) hflat (by rintro _ ⟨⟩; exact follows_of_not hk)
  | e :: e' :: es, hsound, k, ks, hflat, hk => by
    have hothers := flat_kindsList (e' :: es)
      (fun c hc => hsound c (List.mem_cons_of_mem e hc)) hflat hk
    have hcomma : Flat (.comma :: (kindsList (e' :: es) ++ k :: ks)) :=
      .cons rfl (fun _ _ => trivial) hothers
    have hfirst := flat_kinds e (hsound e List.mem_cons_self) hcomma
      (by rintro _ ⟨⟩; exact follows_of_not rfl)
    simpa [kindsList] using hfirst

end

end

end Expr

/-! ## What the parser keeps -/

/-- It is no unit, and a name can be read again. -/
def Token.Kind.Writable : Token.Kind → Prop
  | ident v => Scan.IsName (Name.ofSpelling v).text
  | unit _ => False
  | _ => True

/-- Tokens without units, whose names can be read again. They are flat if `flat` holds. -/
structure Writable (flat : Prop) (ts : List Token) : Prop where
  names : ∀ t ∈ ts, t.kind.Writable
  flat : flat → Token.Kind.Flat (ts.map Token.kind)

section

open Token.Kind

variable {flat : Prop} {t c : Token} {ts rest : List Token}

theorem Writable.tail (h : Writable flat (t :: ts)) : Writable flat ts :=
  ⟨(List.forall_mem_cons.1 h.names).2, fun hflat => (h.flat hflat).tail⟩

theorem Writable.head (h : Writable flat (t :: ts)) : t.kind.Writable :=
  h.names t List.mem_cons_self

theorem Writable.beside (h : Writable flat (t :: ts)) (hflat : flat) :
    ∀ u ∈ ts.head?, Beside t.kind u.kind := by
  cases ts with
  | nil => exact nofun
  | cons u ts =>
    rintro _ ⟨⟩
    exact (h.flat hflat).beside.rel_head? rfl

/-- Some tokens stand only in what is not printed. -/
theorem Writable.not_flat (h : Writable flat (t :: ts)) (ht : t.kind.isPrinted = false) :
    ¬flat := fun hflat => by
  have hprinted := (h.flat hflat).isPrinted
  rw [ht] at hprinted
  cases hprinted

/-- What is behind something in brackets. -/
theorem Writable.closed (h : Writable flat (c :: rest))
    (hc : c.kind = .rparen ∨ c.kind = .rbracket) (hflat : flat) :
    ∀ t ∈ rest.head?, t.kind.startsOperand → t.kind = .lbracket := by
  intro t ht
  have hbeside := h.beside hflat t ht
  rcases hc with hc | hc <;> rwa [hc] at hbeside

end

namespace Expr

open Token.Kind

/-- A node as the parser makes it, from such tokens. -/
def Formed (flat : Prop) (e : Expr) : Prop :=
  e.Sound ∧ (flat → e.Fits)

section

variable {flat : Prop} {rest : List Token} {e left right : Expr} {m n : Nat}

/-- An expression is read, and the tokens that are left are as the tokens were. -/
structure Kept (flat : Prop) (e : Expr) (rest : List Token) : Prop where
  nodes : e.Everywhere (Formed flat)
  writable : Writable flat rest

/-- In flat tokens it is tight enough, and nothing is beside it. -/
structure Shaped (flat : Prop) (n : Nat) (e : Expr) (rest : List Token) : Prop
    extends Kept flat e rest where
  tight : flat → n ≤ e.tightness
  ends : flat → ∀ t ∈ rest.head?, t.kind.startsOperand = false

/-- In flat tokens there may be nothing but a subscript behind an operand. -/
structure ShapedOperand (flat : Prop) (e : Expr) (rest : List Token) : Prop
    extends Kept flat e rest where
  tight : flat → e.tightness = 4
  follows : flat → ∀ t ∈ rest.head?, e.Follows t.kind

structure KeptList (flat : Prop) (es : List Expr) (rest : List Token) : Prop where
  nodes : ∀ e ∈ es, e.Everywhere (Formed flat)
  nonempty : es ≠ []
  writable : Writable flat rest

structure KeptArguments (flat : Prop) (args : List Expr) (rest : List Token) : Prop where
  nodes : ∀ e ∈ args, e.Everywhere (Formed flat)
  writable : Writable flat rest
  closed : flat → ∀ t ∈ rest.head?, t.kind.startsOperand → t.kind = .lbracket

theorem Shaped.mono (h : Shaped flat n e rest) (hm : m ≤ n) : Shaped flat m e rest :=
  { h with tight := fun hflat => Nat.le_trans hm (h.tight hflat) }

theorem Kept.operand (h : Kept flat e rest) (hno : ¬flat) : ShapedOperand flat e rest :=
  { h with tight := fun hflat => absurd hflat hno, follows := fun hflat => absurd hflat hno }

/-- Something that may have a subscript, and ends with a bracket. -/
theorem shapedOperand_closed (hnodes : e.Everywhere (Formed flat)) (he : e.isIndexable)
    (hwritable : Writable flat rest)
    (hclosed : flat → ∀ t ∈ rest.head?, t.kind.startsOperand → t.kind = .lbracket) :
    ShapedOperand flat e rest where
  nodes := hnodes
  writable := hwritable
  tight _ := tightness_of_isIndexable he
  follows hflat t ht hstarts := ⟨hclosed hflat t ht hstarts, he⟩

theorem ShapedOperand.shaped (h : ShapedOperand flat e rest)
    (hends : ∀ t ∈ rest.head?, ¬(t.kind = .lbracket ∧ e.isIndexable)) :
    Shaped flat 4 e rest where
  toKept := h.toKept
  tight hflat := Nat.le_of_eq (h.tight hflat).symm
  ends hflat t ht := by
    by_contra hstarts
    exact hends t ht (h.follows hflat t ht (by simpa using hstarts))

theorem Shaped.join {op : BinaryOp} (hleft : left.Everywhere (Formed flat))
    (hright : Shaped flat m right rest)
    (hfits : flat → op.leftBound ≤ left.tightness ∧ op.rightBound ≤ right.tightness)
    (hn : n ≤ op.tightness) : Shaped flat n (join op left right) rest where
  nodes := everywhere_of_children ⟨trivial, hfits⟩
    (List.forall_mem_cons.2 ⟨hleft, List.forall_mem_singleton.2 hright.nodes⟩)
  writable := hright.writable
  tight _ := hn
  ends := hright.ends

/-! ### Names -/

variable {v : String} {span : Span} {args : List Expr}

theorem commandCallee_empty (name : Name) :
    commandCallee (.empty .equation) name = (calleeOf name, none) := by
  have hresolve : (Scope.empty .equation).resolve name = none := rfl
  rw [calleeOf, commandCallee, hresolve]
  cases Builtin.ofName? name.text <;> rfl

theorem everywhere_call (haccepts : acceptsCount (calleeOf (.ofSpelling v)) none args.length)
    (hargs : ∀ e ∈ args, e.Everywhere (Formed flat)) :
    (call span (.ofSpelling v) (calleeOf (.ofSpelling v)) args).Everywhere (Formed flat) :=
  everywhere_of_children ⟨⟨rfl, Name.ofSpelling_text v, haccepts⟩, fun _ => trivial⟩ hargs

/-- A builtin that is a value of its own is called without arguments. -/
theorem everywhere_constant {f : Builtin}
    (hf : (Builtin.ofName? (Name.ofSpelling v).text).filter Builtin.isConstant = some f) :
    (call span (.ofSpelling v) (.builtin f) []).Everywhere (Formed flat) := by
  obtain ⟨hbuiltin, hconstant⟩ := Option.filter_eq_some_iff.1 hf
  have hcallee : calleeOf (.ofSpelling v) = .builtin f := by
    rw [calleeOf, commandCallee, hbuiltin]
  have haccepts : ∀ f : Builtin, f.isConstant → acceptsCount (.builtin f) none 0 := by
    rintro ⟨⟩ <;> decide
  rw [← hcallee]
  refine everywhere_call ?_ (List.forall_mem_nil _)
  rw [hcallee]
  exact haccepts f hconstant

theorem called_shapes {last start : Nat} {ts : List Token}
    (hargs : Obtains (fun args rest => KeptArguments flat args.1 rest)
      (arguments (.empty .equation) last ts)) :
    Obtains (ShapedOperand flat) (do
      let ⟨(args, stop), rest, h⟩ ← arguments (.empty .equation) last ts
      let e ← callOf (.ofSpelling v) (calleeOf (.ofSpelling v)) none args (Span.ofBytes start stop)
      .ok (⟨e, rest, Nat.lt_succ_of_lt h⟩ : Reading (ts.length + 1) Expr)) :=
  called_obtains hargs fun _ _ _ hkept haccepts =>
    shapedOperand_closed (everywhere_call haccepts hkept.nodes) rfl hkept.writable hkept.closed

/-- A name that is not called may have a subscript. -/
theorem shapedOperand_name {start stop : Nat} {ts : List Token}
    (hts : Writable flat (⟨.ident v, start, stop⟩ :: ts)) (hopen : ¬isOpen ts)
    (he : e.isIndexable) (hnodes : e.Everywhere (Formed flat)) : ShapedOperand flat e ts := by
  refine shapedOperand_closed hnodes he hts.tail fun hflat t ht hstarts => ?_
  rcases hts.beside hflat t ht hstarts with hparen | hbracket
  · exact absurd (by simp [isOpen, Option.mem_def.1 ht, hparen]) hopen
  · exact hbracket

/-- The power that an n-th root is read as, with the number 1 that it brings. -/
theorem everywhere_rootPower {command : Token} {degree radicand : Expr} (hno : ¬flat)
    (hdegree : degree.Everywhere (Formed flat))
    (hradicand : radicand.Everywhere (Formed flat)) :
    (rootPower command degree radicand).Everywhere (Formed flat) := by
  have hformed : ∀ {e : Expr}, e.Sound → Formed flat e :=
    fun hsound => ⟨hsound, fun hflat => absurd hflat hno⟩
  have hone : Number.Numeral.value? "1".toList = some 1 := value?_digit (by decide : '1'.isDigit)
  have hconst := everywhere_leaf
    (hformed (e := const (Span.ofBytes command.start command.stop) "1" 1) hone) rfl
  have hquotient : (rootQuotient command degree).Everywhere (Formed flat) :=
    everywhere_of_children (hformed trivial)
      (List.forall_mem_cons.2 ⟨hconst, List.forall_mem_singleton.2 hdegree⟩)
  have hgroup : (group degree.span (rootQuotient command degree)).Everywhere (Formed flat) :=
    everywhere_of_children (hformed trivial)
      (List.forall_mem_singleton.2 hquotient)
  exact everywhere_of_children (hformed trivial)
    (List.forall_mem_cons.2 ⟨hradicand, List.forall_mem_singleton.2 hgroup⟩)

end

/-! ## The parser -/

section

variable {flat : Prop} {last : Nat}

mutual

theorem sum_shapes (ts : List Token) (hts : Writable flat ts) :
    Obtains (Shaped flat 0) (sum (.empty .equation) last ts) := by
  rw [sum]
  apply (product_shapes ts hts).bind
  intro left rest shorter hleft
  exact sumFrom_shapes rest shorter (hleft.mono (Nat.zero_le 1))
termination_by 10 * ts.length + 6

theorem sumFrom_shapes {n : Nat} {left : Expr} :
    ∀ ts shorter, Shaped flat 0 left ts →
      Obtains (Shaped flat 0) (sumFrom (.empty .equation) last n left ts shorter)
  | [], _, hleft => by
    rw [sumFrom]
    exact .ok hleft
  | t :: more, shorter, hleft => by
    rw [sumFrom]
    split
    · exact .ok hleft
    · rename_i op hop
      apply (product_shapes more hleft.writable.tail).bind
      intro right rest h hright
      have hbounds : op.leftBound = 0 ∧ op.rightBound = 1 := by
        cases ht : t.kind <;> rw [ht] at hop <;> cases hop <;> exact ⟨rfl, rfl⟩
      refine sumFrom_shapes rest _ (hright.join hleft.nodes (fun hflat => ?_) (Nat.zero_le _))
      rw [hbounds.1, hbounds.2]
      exact ⟨Nat.zero_le _, hright.tight hflat⟩
termination_by ts => 10 * ts.length + 9

theorem product_shapes (ts : List Token) (hts : Writable flat ts) :
    Obtains (Shaped flat 1) (product (.empty .equation) last ts) := by
  rw [product]
  apply (juxtaposed_shapes ts hts).bind
  intro left rest shorter hleft
  exact productFrom_shapes rest shorter (hleft.mono (Nat.le_succ 1))
termination_by 10 * ts.length + 5

theorem productFrom_shapes {n : Nat} {left : Expr} :
    ∀ ts shorter, Shaped flat 1 left ts →
      Obtains (Shaped flat 1) (productFrom (.empty .equation) last n left ts shorter)
  | [], _, hleft => by
    rw [productFrom]
    exact .ok hleft
  | t :: more, shorter, hleft => by
    rw [productFrom]
    split
    · exact .ok hleft
    · rename_i op hop
      apply (juxtaposed_shapes more hleft.writable.tail).bind
      intro right rest h hright
      have hbounds : op.leftBound = 1 ∧ op.rightBound = 2 ∧ op.tightness = 1 := by
        cases ht : t.kind <;> rw [ht] at hop <;> cases hop <;> exact ⟨rfl, rfl, rfl⟩
      obtain ⟨hlower, hupper, htightness⟩ := hbounds
      refine productFrom_shapes rest _
        (hright.join hleft.nodes (fun hflat => ?_) (Nat.le_of_eq htightness.symm))
      rw [hlower, hupper]
      exact ⟨hleft.tight hflat, hright.tight hflat⟩
termination_by ts => 10 * ts.length + 9

theorem juxtaposed_shapes (ts : List Token) (hts : Writable flat ts) :
    Obtains (Shaped flat 2) (juxtaposed (.empty .equation) last ts) := by
  rw [juxtaposed]
  apply (signedTerm_shapes ts hts).bind
  intro left rest shorter hleft
  exact juxtaposedFrom_shapes rest shorter hleft
termination_by 10 * ts.length + 4

theorem juxtaposedFrom_shapes {n : Nat} {left : Expr} :
    ∀ ts shorter, Shaped flat 2 left ts →
      Obtains (Shaped flat 2) (juxtaposedFrom (.empty .equation) last n left ts shorter)
  | [], _, hleft => by
    rw [juxtaposedFrom]
    exact .ok hleft
  | t :: more, shorter, hleft => by
    rw [juxtaposedFrom]
    split
    · rename_i hstarts
      -- Nothing is beside an expression in flat tokens.
      have hno : ¬flat := fun hflat => by
        have hends := hleft.ends hflat t rfl
        rw [hstarts] at hends
        cases hends
      apply (power_shapes (t :: more) hleft.writable).bind
      intro right rest h hright
      have hlength : rest.length ≤ more.length := Nat.le_of_lt_succ h
      refine juxtaposedFrom_shapes rest _ ?_
      exact { hright.join (n := 0) hleft.nodes (fun hflat => absurd hflat hno) (Nat.zero_le _) with
        tight := fun hflat => absurd hflat hno }
    · exact .ok hleft
termination_by ts => 10 * ts.length + 9

theorem signedTerm_shapes : ∀ ts, Writable flat ts →
    Obtains (Shaped flat 2) (signedTerm (.empty .equation) last ts)
  | [], hts => by
    rw [signedTerm]
    exact (power_shapes [] hts).imp (fun _ => id) fun _ h => h.mono (Nat.le_succ 2)
  | t :: more, hts => by
    rw [signedTerm]
    split
    · exact (power_shapes (t :: more) hts).imp (fun _ => id) fun _ h => h.mono (Nat.le_succ 2)
    · apply (signedTerm_shapes more hts.tail).bind
      intro operand rest h hoperand
      refine .ok { hoperand with nodes := ?_, tight := fun _ => Nat.le_refl 2 }
      exact everywhere_of_children ⟨trivial, hoperand.tight⟩
        (List.forall_mem_singleton.2 hoperand.nodes)
termination_by ts => 10 * ts.length + 3

theorem power_shapes (ts : List Token) (hts : Writable flat ts) :
    Obtains (Shaped flat 3) (power (.empty .equation) last ts) := by
  rw [power]
  apply (subscripted_shapes ts hts).bind
  intro base rest shorter hbase
  cases rest with
  | nil => exact .ok (hbase.mono (Nat.le_succ 3))
  | cons t more =>
    have hlt : more.length < ts.length := Nat.lt_of_succ_lt shorter
    dsimp only
    split
    · apply (signedTerm_shapes more hbase.writable.tail).bind
      intro exponent rest h hexponent
      exact .ok (hexponent.join hbase.nodes
        (fun hflat => ⟨hbase.tight hflat, hexponent.tight hflat⟩) (Nat.le_refl 3))
    · exact .ok (hbase.mono (Nat.le_succ 3))
termination_by 10 * ts.length + 2

theorem subscripted_shapes (ts : List Token) (hts : Writable flat ts) :
    Obtains (Shaped flat 4) (subscripted (.empty .equation) last ts) := by
  rw [subscripted]
  apply (operand_shapes ts hts).bind
  intro base rest shorter hbase
  exact subscriptedFrom_shapes rest shorter hbase
termination_by 10 * ts.length + 1

theorem subscriptedFrom_shapes {n : Nat} {base : Expr} :
    ∀ ts shorter, ShapedOperand flat base ts →
      Obtains (Shaped flat 4) (subscriptedFrom (.empty .equation) last n base ts shorter)
  | [], _, hbase => by
    rw [subscriptedFrom]
    exact .ok (hbase.shaped nofun)
  | t :: more, shorter, hbase => by
    rw [subscriptedFrom]
    split
    · rename_i hopens
      refine (sum_shapes more hbase.writable.tail).bind_close (fun _ _ _ => rfl) ?_
      intro position c rest h h' hposition hc
      refine subscriptedFrom_shapes rest _ (shapedOperand_closed ?_ rfl hposition.writable.tail
        (hposition.writable.closed (.inr hc)))
      exact everywhere_of_children ⟨hopens.2, fun _ => trivial⟩
        (List.forall_mem_cons.2 ⟨hbase.nodes, List.forall_mem_singleton.2 hposition.nodes⟩)
    · rename_i hends
      refine .ok (hbase.shaped ?_)
      rintro _ ⟨⟩
      exact hends
termination_by ts => 10 * ts.length + 9

theorem operand_shapes : ∀ ts, Writable flat ts →
    Obtains (ShapedOperand flat) (operand (.empty .equation) last ts)
  | [], _ => by
    rw [operand]
    exact .error trivial
  | ⟨kind, start, stop⟩ :: more, hts => by
    rw [operand.eq_def]
    dsimp only
    split
    · split
      · rename_i literal _ value hvalue
        refine .ok ⟨⟨everywhere_leaf ⟨hvalue, fun _ => trivial⟩ rfl, hts.tail⟩,
          fun _ => rfl, fun hflat t ht => follows_of_not (hts.beside hflat t ht)⟩
      · exact .error trivial
    · exact hts.head.elim
    · rename_i v
      rw [useOf_empty]
      by_cases hopen : isOpen more
      · rw [if_pos hopen]
        exact called_shapes (arguments_shapes more hts.tail)
      · rw [if_neg hopen]
        cases hconstant : (Builtin.ofName? (Name.ofSpelling v).text).filter Builtin.isConstant with
        | some f => exact .ok (shapedOperand_name hts hopen rfl (everywhere_constant hconstant))
        | none =>
          have hsound : (var (Span.ofBytes start stop) (.ofSpelling v) .unresolved).Sound :=
            ⟨rfl, hts.head, Name.ofSpelling_text v, hconstant⟩
          exact .ok (shapedOperand_name hts hopen rfl
            (everywhere_leaf ⟨hsound, fun _ => trivial⟩ rfl))
    · rename_i v
      have hno := hts.not_flat rfl
      rw [commandCallee_empty]
      dsimp only
      split
      · exact called_shapes (arguments_shapes more hts.tail)
      · split
        · exact .error trivial
        · apply (bareArgument_shapes more hts.tail).bind
          intro arg rest h harg
          apply callOf_obtains.bind
          rintro _ ⟨haccepts, rfl⟩
          refine .ok (Kept.operand ⟨?_, harg.writable⟩ hno)
          exact everywhere_call haccepts (List.forall_mem_singleton.2 harg.nodes)
    · have hno := hts.not_flat rfl
      apply (fractionPart_shapes hno more hts.tail).bind
      intro numerator rest h hnumerator
      apply (fractionPart_shapes hno rest hnumerator.writable).bind
      intro denominator rest h' hdenominator
      refine .ok (Kept.operand ⟨?_, hdenominator.writable⟩ hno)
      exact everywhere_of_children
        ⟨trivial, fun hflat => absurd hflat hno⟩
        (List.forall_mem_cons.2
          ⟨hnumerator.nodes, List.forall_mem_singleton.2 hdenominator.nodes⟩)
    · have hno := hts.not_flat rfl
      apply (root_shapes hno more hts.tail).bind
      intro e rest h he
      exact .ok (he.operand hno)
    · refine (sum_shapes more hts.tail).bind_close (fun _ _ _ => rfl) ?_
      intro inner c rest h h' hinner hc
      refine .ok (shapedOperand_closed ?_ rfl hinner.writable.tail
        (hinner.writable.closed (.inl hc)))
      exact everywhere_of_children ⟨trivial, fun _ => trivial⟩
        (List.forall_mem_singleton.2 hinner.nodes)
    · have hno := hts.not_flat rfl
      refine (sum_shapes more hts.tail).bind_close (fun _ _ _ => rfl) ?_
      intro inner c rest h h' hinner hc
      refine .ok (Kept.operand ⟨?_, hinner.writable.tail⟩ hno)
      exact everywhere_of_children ⟨trivial, fun _ => trivial⟩
        (List.forall_mem_singleton.2 hinner.nodes)
    · cases more with
      | nil => exact .error trivial
      | cons u more =>
        dsimp only
        split
        · exact .error trivial
        · refine (listed_shapes (u :: more) hts.tail).bind_close (fun _ _ _ => rfl) ?_
          intro elements c rest h h' helements hc
          refine .ok (shapedOperand_closed ?_ rfl helements.writable.tail
            (helements.writable.closed (.inr hc)))
          exact everywhere_of_children
            ⟨helements.nonempty, fun _ => trivial⟩ helements.nodes
    all_goals exact .error trivial
termination_by ts => 10 * ts.length

theorem root_shapes {command : Token} (hno : ¬flat) :
    ∀ ts, Writable flat ts →
      Obtains (Kept flat) (root (.empty .equation) last command ts)
  | [], _ => by
    rw [root]
    exact .error trivial
  | t :: more, hts => by
    rw [root]
    split
    · refine (sum_shapes more hts.tail).bind_close (fun _ _ _ => rfl) ?_
      intro degree c rest h h' hdegree hc
      apply (operand_shapes rest hdegree.writable.tail).bind
      intro radicand rest' h'' hradicand
      exact .ok ⟨everywhere_rootPower hno hdegree.nodes hradicand.nodes, hradicand.writable⟩
    · apply (operand_shapes (t :: more) hts).bind
      intro radicand rest h hradicand
      have hcallee : calleeOf (.ofSpelling "sqrt") = .builtin .sqrt := by decide
      refine .ok ⟨?_, hradicand.writable⟩
      rw [← hcallee]
      refine everywhere_call ?_ (List.forall_mem_singleton.2 hradicand.nodes)
      rw [hcallee]
      rfl
termination_by ts => 10 * ts.length + 1

theorem bareArgument_shapes (ts : List Token) (hts : Writable flat ts) :
    Obtains (Kept flat) (bareArgument (.empty .equation) last ts) := by
  rw [bareArgument]
  split
  · exact (operand_shapes ts hts).imp (fun _ => id) fun _ h => h.toKept
  · exact (signedTerm_shapes ts hts).imp (fun _ => id) fun _ h => h.toKept
termination_by 10 * ts.length + 4

theorem fractionPart_shapes (hno : ¬flat) (ts : List Token) (hts : Writable flat ts) :
    Obtains (Kept flat) (fractionPart (.empty .equation) last ts) := by
  rw [fractionPart.eq_def]
  split
  · rename_i literal start stop more
    split
    · rename_i digit others hsplit
      have hvalue : Number.Numeral.value? (String.singleton digit).toList =
          some (Float.ofNat (Text.digitValue digit)) := by
        rw [String.toList_singleton]
        exact value?_digit (splitDigit?_digits hsplit).1
      refine .ok ⟨everywhere_leaf ⟨hvalue, fun _ => trivial⟩ rfl, ?_⟩
      exact ⟨List.forall_mem_cons.2 ⟨trivial, hts.tail.names⟩, fun hflat => absurd hflat hno⟩
    · apply (operand_shapes _ hts).bind
      intro e rest h he
      exact .ok he.toKept
  · apply (operand_shapes ts hts).bind
    intro e rest h he
    exact .ok he.toKept
termination_by 10 * ts.length + 1

theorem listed_shapes (ts : List Token) (hts : Writable flat ts) :
    Obtains (KeptList flat) (listed (.empty .equation) last ts) := by
  rw [listed]
  apply (sum_shapes ts hts).bind
  intro first rest shorter hfirst
  have hone : KeptList flat [first] rest :=
    ⟨List.forall_mem_singleton.2 hfirst.nodes, List.cons_ne_nil _ _, hfirst.writable⟩
  cases rest with
  | nil => exact .ok hone
  | cons t more =>
    have hlt : more.length < ts.length := Nat.lt_of_succ_lt shorter
    dsimp only
    split
    · apply (listed_shapes more hfirst.writable.tail).bind
      intro others rest h hothers
      exact .ok ⟨List.forall_mem_cons.2 ⟨hfirst.nodes, hothers.nodes⟩, List.cons_ne_nil _ _,
        hothers.writable⟩
    · exact .ok hone
termination_by 10 * ts.length + 7

theorem arguments_shapes : ∀ ts, Writable flat ts →
    Obtains (fun args rest => KeptArguments flat args.1 rest)
      (arguments (.empty .equation) last ts)
  | [], _ => by
    rw [arguments]
    exact .error trivial
  | o :: more, hts => by
    rw [arguments]
    split
    · apply (close_obtains .rparen o more).bind
      rintro _ rest h ⟨c, rfl, hc, rfl⟩
      exact .ok ⟨nofun, hts.tail.tail, hts.tail.closed (.inl hc)⟩
    · refine (listed_shapes more hts.tail).bind_close (fun _ _ _ => rfl) ?_
      intro args c rest h h' hargs hc
      exact .ok ⟨hargs.nodes, hargs.writable.tail, hargs.writable.closed (.inl hc)⟩
termination_by ts => 10 * ts.length

end

end

end Expr

end Worksheet
