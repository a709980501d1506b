import Worksheet.Proofs.Evaluation.Numbers
import Worksheet.Proofs.Rendering.Closed
import Worksheet.Proofs.Rendering.Units
import Worksheet.Proofs.Token.Commands
/-!
# Rendered values read back

A rendered value is cut into tokens that are read as numbers with signs and powers of ten, alone or
in an array, times the units behind them. The power of ten is multiplied with the units first, which
makes no difference to the units.
-/

namespace Worksheet.Rendering

open Worksheet.Expr Scan Evaluation Text Token.Kind Number Numeral

variable {env : Environment} {scope : Scope} {last : Nat} {cs : List Char}
  {k : Token.Kind} {ks closing : List Token.Kind} {p : UnitProduct} {array : Bool} {size : Nat}

/-- Gives a scalar, or an array of some length, in some units. -/
abbrev GivesIn (env : Environment) (array : Bool) (size : Nat) (p : UnitProduct) : Expr → Prop :=
  Gives env (Value.Fits array size (Quantity.In p))

/-- Gives a number without a dimension. -/
abbrev GivesPure (env : Environment) : Expr → Prop :=
  Gives env (Value.Fits false 1 Quantity.Pure)

theorem givesIn_of_pure {e : Expr} (h : GivesPure env e) : GivesIn env false 1 .one e :=
  h.imp fun _ hv => hv.imp fun _ hq => hq.1

/-! ## Tokens -/

/-- A text is cut into these tokens wherever no numeral goes on behind it. -/
def Cuts (cs : List Char) (ks : List Token.Kind) : Prop :=
  ∀ {rules : ScanRules} {depth : Nat} {rest : List Char} {ks' : List Token.Kind},
    Stops goesOn rest → Scans rules depth rest ks' → Scans rules depth (cs ++ rest) (ks ++ ks')

theorem operand_isPlain (h : IsPlain cs) :
    Understands (operand scope last) opens [.num (String.ofList cs)] (GivesPure env) := by
  obtain ⟨x, hx⟩ := h.value?
  rw [← String.toList_ofList (l := cs)] at hx
  exact operand_num hx fun span => gives_const span _ x

/-- A numeral with its sign is a number. -/
theorem tokens_of_isSigned (h : IsSigned cs) : ∃ k ks, k ≠ .rbracket ∧ Cuts cs (k :: ks) ∧
    ∀ scope last env, Understands (signedTerm scope last) raises (k :: ks) (GivesPure env) := by
  obtain ⟨negative, digits, rfl, hdigits⟩ := h
  have hterm : ∀ scope last env,
      Understands (signedTerm scope last) raises [.num (String.ofList digits)] (GivesPure env) :=
    fun scope last env =>
      signedTerm_of_power rfl (power_of_operand (operand_isPlain hdigits))
  cases negative with
  | false =>
    refine ⟨.num (String.ofList digits), [], nofun, fun hrest hothers => ?_, hterm⟩
    exact Scans.number hdigits hrest hothers
  | true =>
    refine ⟨.minus, [.num (String.ofList digits)], nofun, fun hrest hothers => ?_,
      fun scope last env => ?_⟩
    · exact .sign rfl (.number hdigits hrest hothers)
    · exact signedTerm_sign rfl (hterm scope last env) fun span e he => gives_negative he span

theorem isSigned_toString (n : Int) : IsSigned (toString n).toList := by
  cases n with
  | ofNat n => exact isSigned_of_isPlain (isPlain_toString n)
  | negSucc n =>
    rw [toList_toString_negSucc]
    exact ⟨true, _, rfl, isPlain_toString (n + 1)⟩

/-! ## What stands behind numbers -/

/-- Tokens behind numbers that give them units. -/
def Closes (env : Environment) (closing : List Token.Kind) (p : UnitProduct) : Prop :=
  ∀ {scope : Scope} {last : Nat} {array : Bool} {size : Nat} {ks : List Token.Kind}, 0 < size →
    Understands (signedTerm scope last) raises ks (GivesIn env array size .one) →
    Understands (juxtaposed scope last) multiplies (ks ++ closing) (GivesIn env array size p)

theorem closes_nil : Closes env [] .one := by
  intro scope last array size ks _ hks
  rw [List.append_nil]
  exact juxtaposed_of_signedTerm hks

/-- Units are beside the numbers that they belong to. -/
theorem closes_unit {text : String} {q : Quantity} (hparse : env.table.parse text = .ok p)
    (hquantity : env.table.quantity? 1 p = some q) (hq : q.In p) :
    Closes env [.unit text] p := by
  intro scope last array size ks hpos hks
  have hunit : Understands (power scope last) raises [.unit text] (GivesIn env false 1 p) :=
    power_of_operand (operand_unit fun span => gives_unit hparse hquantity hq span)
  exact juxtaposed_pair hks rfl rfl hunit fun left right hleft hright =>
    gives_times hpos hleft hright

/-- A text that is read with whatever gives it units. -/
def ReadsAs (rules : ScanRules) (cs : List Char) (array : Bool) (size : Nat) : Prop :=
  ∃ k ks, k ≠ .rbracket ∧
    (∀ {rest : List Char} {ks' : List Token.Kind}, Stops goesOn rest → Scans rules 0 rest ks' →
      Scans rules 0 (cs ++ rest) (k :: ks ++ ks')) ∧
    ∀ {scope : Scope} {last : Nat} {env : Environment} {closing : List Token.Kind}
      {p : UnitProduct}, Closes env closing p →
      Understands (sum scope last) adds (k :: ks ++ closing) (GivesIn env array size p)

/-! ## Numbers -/

theorem exists_power_of_ten (e : Int) : ∃ ks,
    Cuts (" \\times 10^\x7b".toList ++ (toString e).toList ++ ['\x7d']) (.mul :: .num "10" :: ks) ∧
    ∀ scope last env, Understands (signedTerm scope last) raises (.num "10" :: ks)
      (GivesIn env false 1 .one) := by
  obtain ⟨k, ks, -, hcuts, hexponent⟩ := tokens_of_isSigned (isSigned_toString e)
  have hten : IsPlain "10".toList := .whole (by decide) (by decide)
  refine ⟨.exp :: .lbrace :: (k :: ks ++ [.rbrace]), fun {rules depth rest ks'} _ hothers => ?_,
    fun scope last env => ?_⟩
  · have hclosed : Scans rules depth ((toString e).toList ++ '\x7d' :: rest)
        (k :: ks ++ .rbrace :: ks') :=
      hcuts (stops_goesOn (by decide) rest) (.sign rfl hothers)
    have hraised : Scans rules depth ('^' :: '\x7b' :: ((toString e).toList ++ '\x7d' :: rest))
        (.exp :: .lbrace :: (k :: ks ++ .rbrace :: ks')) := .sign rfl (.sign rfl hclosed)
    have hpower := (Scans.number hten (stops_goesOn (by decide) _) hraised).times
    simpa using hpower
  · have hgroup : Understands (operand scope last) opens (.lbrace :: (k :: ks ++ [.rbrace]))
        (GivesPure env) :=
      operand_group (.inr ⟨rfl, rfl⟩) (sum_of_signedTerm (hexponent scope last env))
        fun span e he => gives_group he span
    have hbase : Understands (subscripted scope last) opens [.num "10"] (GivesPure env) :=
      subscripted_of_operand (operand_isPlain hten)
    have hpower := power_exp hbase (signedTerm_of_power rfl (power_of_operand hgroup))
      fun base exponent hbase hexponent => gives_power (givesIn_of_pure hbase) hexponent
    exact signedTerm_of_power rfl hpower

/-- A rendered number is read as a number. -/
theorem tokens_of_isFigure (h : IsFigure cs) : ∃ k ks, k ≠ .rbracket ∧ Cuts cs (k :: ks) ∧
    ∀ {scope : Scope} {last : Nat} {env : Environment} {closing : List Token.Kind}
      {p : UnitProduct}, Closes env closing p →
      Understands (sum scope last) adds (k :: ks ++ closing) (GivesIn env false 1 p) := by
  cases h with
  | plain h =>
    obtain ⟨k, ks, hk, hcuts, hterm⟩ := tokens_of_isSigned h
    refine ⟨k, ks, hk, hcuts, fun {scope last env closing p} hclosing => ?_⟩
    exact sum_of_product (product_of_juxtaposed
      (hclosing Nat.one_pos ((hterm scope last env).imp fun _ => givesIn_of_pure)))
  | @scientific cs h e =>
    obtain ⟨k, ks, hk, hcuts, hterm⟩ := tokens_of_isSigned h
    obtain ⟨ks', hcuts', hpower⟩ := exists_power_of_ten e
    refine ⟨k, ks ++ .mul :: .num "10" :: ks', hk, fun {rules depth rest others} hrest hothers => ?_,
      fun {scope last env closing p} hclosing => ?_⟩
    · have hbehind := hcuts' hrest hothers
      have hstops : Stops goesOn
          (" \\times 10^\x7b".toList ++ (toString e).toList ++ ['\x7d'] ++ rest) :=
        stops_goesOn (by decide) _
      have hwhole := hcuts hstops hbehind
      simpa using hwhole
    · have hfactor := hclosing Nat.one_pos (hpower scope last env)
      have htail := Tail.cons (show productOp? .mul = some .mul from rfl) hfactor
        (fun left right (hleft : GivesPure env left) hright =>
          gives_times Nat.one_pos (givesIn_of_pure hleft) hright) .nil
      have hproduct := product_of_tail (juxtaposed_of_signedTerm (hterm scope last env)) htail
      have hsum := sum_of_product hproduct
      simpa using hsum

theorem readsAs_figure (rules : ScanRules) (h : IsFigure cs) : ReadsAs rules cs false 1 := by
  obtain ⟨k, ks, hk, hcuts, hsum⟩ := tokens_of_isFigure h
  exact ⟨k, ks, hk, hcuts, hsum⟩

/-! ## Arrays -/

/-- Numbers with separators between them. -/
theorem listed_of_figures (rules : ScanRules) (depth : Nat) (separator : String)
    (hseparator : ∀ {rest ks}, Scans rules depth rest ks →
      Scans rules depth (separator.toList ++ rest) (.comma :: ks))
    (hstops : ∀ rest, Stops goesOn (separator.toList ++ rest)) {texts : List String}
    (hne : texts ≠ []) (h : ∀ text ∈ texts, IsFigure text.toList) : ∃ k ks, k ≠ .rbracket ∧
    (∀ {rest ks'}, Stops goesOn rest → Scans rules depth rest ks' →
      Scans rules depth ((separator.intercalate texts).toList ++ rest) (k :: ks ++ ks')) ∧
    ∀ scope last env, Listed scope last (k :: ks)
      (List.replicate texts.length (GivesIn env false 1 .one)) := by
  induction texts with
  | nil => exact absurd rfl hne
  | cons text texts ih =>
    obtain ⟨htext, htexts⟩ := List.forall_mem_cons.1 h
    obtain ⟨k, ks, hk, hcuts, hsum⟩ := tokens_of_isFigure htext
    have hnumber : ∀ scope last env, Understands (sum scope last) adds (k :: ks)
        (GivesIn env false 1 .one) := by
      intro scope last env
      have hbare : Understands (sum scope last) adds (k :: ks ++ []) (GivesIn env false 1 .one) :=
        hsum closes_nil
      rwa [List.append_nil] at hbare
    cases texts with
    | nil =>
      refine ⟨k, ks, hk, fun hrest hothers => ?_, fun scope last env =>
        .single (hnumber scope last env)⟩
      simpa using hcuts hrest hothers
    | cons next texts =>
      obtain ⟨k', ks', -, hcuts', hlisted⟩ := ih (List.cons_ne_nil _ _) htexts
      refine ⟨k, ks ++ .comma :: k' :: ks', hk, fun {rest others} hrest hothers => ?_,
        fun scope last env => .cons (hnumber scope last env) (hlisted scope last env)⟩
      have hwhole := hcuts (hstops _) (hseparator (hcuts' hrest hothers))
      rw [String.intercalate_cons_cons]
      simpa using hwhole

theorem elementwise_replicate {Q : Expr → Prop} {n : Nat} {es : List Expr}
    (h : Elementwise (List.replicate n Q) es) : es.length = n ∧ ∀ e ∈ es, Q e := by
  induction n generalizing es with
  | zero =>
    cases h
    simp
  | succ n ih =>
    cases h with
    | cons he hes =>
      obtain ⟨hlength, hall⟩ := ih hes
      exact ⟨congrArg (· + 1) hlength, List.forall_mem_cons.2 ⟨he, hall⟩⟩

/-- Numbers in brackets are read as an array of them. -/
theorem understands_array {n : Nat} (hpos : 0 < n) (hk : k ≠ .rbracket)
    (hlisted : Listed scope last (k :: ks) (List.replicate n (GivesIn env false 1 .one)))
    (hclosing : Closes env closing p) :
    Understands (sum scope last) adds (.lbracket :: (k :: ks ++ [.rbracket]) ++ closing)
      (GivesIn env true n p) := by
  have harray : Understands (operand scope last) opens (.lbracket :: (k :: ks ++ [.rbracket]))
      (GivesIn env true n .one) := by
    refine operand_array hk hlisted fun span es hes => ?_
    obtain ⟨hlength, hall⟩ := elementwise_replicate hes
    have hne : es ≠ [] := List.length_pos_iff.1 (hlength ▸ hpos)
    rw [← hlength]
    exact gives_array hne hall span
  exact sum_of_product (product_of_juxtaposed
    (hclosing hpos (signedTerm_of_power rfl (power_of_operand harray))))

/-- The numbers of an array, in a line or in a column. -/
def elementsText (column : Bool) (texts : List String) : String :=
  if column then
    "\\begin\x7bbmatrix\x7d" ++ " \\\\ ".intercalate texts ++ "\\end\x7bbmatrix\x7d"
  else "[" ++ ", ".intercalate texts ++ "]"

theorem readsAs_elements (rules : ScanRules) (column : Bool) {texts : List String}
    (hne : texts ≠ []) (h : ∀ text ∈ texts, IsFigure text.toList) :
    ReadsAs rules (elementsText column texts).toList true texts.length := by
  have hpos := List.length_pos_iff.2 hne
  cases column with
  | false =>
    obtain ⟨k, ks, hk, hcuts, hlisted⟩ := listed_of_figures rules 0 ", "
      (fun hothers => .comma hothers) (fun _ => stops_goesOn (by decide) _)
      hne h
    refine ⟨.lbracket, k :: ks ++ [.rbracket], nofun, fun {rest ks'} _ hothers => ?_,
      fun hclosing => understands_array hpos hk (hlisted _ _ _) hclosing⟩
    have hclosed : Scans rules 0 (']' :: rest) (.rbracket :: ks') := .sign rfl hothers
    have hopened := Scans.sign (show sign? '[' = some .lbracket from rfl)
      (hcuts (stops_goesOn (by decide) rest) hclosed)
    simpa [elementsText] using hopened
  | true =>
    obtain ⟨k, ks, hk, hcuts, hlisted⟩ := listed_of_figures rules 1 " \\\\ "
      (fun hothers => .row hothers) (fun _ => stops_goesOn (by decide) _)
      hne h
    refine ⟨.lbracket, k :: ks ++ [.rbracket], nofun, fun {rest ks'} _ hothers => ?_,
      fun hclosing => understands_array hpos hk (hlisted _ _ _) hclosing⟩
    have hclosed : Scans rules 1 ("\\end\x7bbmatrix\x7d".toList ++ rest) (.rbracket :: ks') :=
      hothers.endMatrix
    have hstops : Stops goesOn ("\\end\x7bbmatrix\x7d".toList ++ rest) :=
      stops_goesOn (by decide) _
    have hopened := (hcuts hstops hclosed).beginMatrix
    simpa [elementsText] using hopened

/-! ## Values -/

section

variable {r : Rendering} {body : String} {v : Value}

/-- Units behind numbers are read with them. -/
theorem parse_withUnits (hbody : ReadsAs ⟨scope.mode, scope.isUnitWord⟩ body.toList array size)
    (henv : env.table = r.table) (hreads : p.Over r.ReadsBack)
    (hclosed : p.Over fun s => Closed false (symbolText (r.table.displaySymbol s)).toList)
    (hexponents : ∀ f ∈ p.factors, IsExponent f.2) {q : Quantity}
    (hquantity : r.table.quantity? 1 p = some q) (hq : q.In p) :
    ∃ e, GivesIn env array size p e ∧ Expr.parse scope (r.withUnits body p) = .ok (some e) := by
  obtain ⟨k, ks, -, hscans, hsum⟩ := hbody
  unfold withUnits
  split
  · rename_i hone
    obtain rfl := UnitProduct.eq_one_of_isOne hone
    have hbare : Scans ⟨scope.mode, scope.isUnitWord⟩ 0 (body.toList ++ []) (k :: ks ++ []) :=
      hscans stops_nil .done
    rw [List.append_nil] at hbare
    exact parse_of_scans hbare fun last => hsum closes_nil
  · have hparse := (parse_units hreads hexponents).2
    rw [← henv] at hparse hquantity
    have hunits : Scans ⟨scope.mode, scope.isUnitWord⟩ 0
        ("\\mathrm\x7b".toList ++ ((r.units p).toList ++ ['\x7d'])) _ :=
      .wrapper ((closed_units hclosed).untilClosed []) .done
    have hwhole := hscans (stops_goesOn (by decide) _) hunits.escapedSpace
    refine parse_of_scans ?_ fun last => hsum (closes_unit hparse hquantity hq)
    simpa using hwhole

end

end Worksheet.Rendering
