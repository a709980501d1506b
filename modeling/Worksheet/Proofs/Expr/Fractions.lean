import Worksheet.Proofs.Expr.Composition
import Worksheet.Proofs.Expr.Factor
import Worksheet.Proofs.Token.Fronts
/-!
# Fractions without braces

The two digits behind the command for fractions are scanned as one number, with whatever of the text
behind them goes on with it. The parser takes this number apart digit by digit, so digits behind the
two come out as a number of their own. A point or an exponent does not: it stays with the second
digit.
-/

namespace Worksheet

open Text Number

namespace Expr

open Scan Token.Kind

variable {scope : Scope} {last : Nat} {e e' left right : Expr} {a b : Char} {more : List Char}

/-! ## The fraction at the front of a tree -/

def isBinary : Expr → Bool
  | binary .. => true
  | _ => false

/-- Puts both sides of the operation that a tree begins with into groups. -/
def braceFront : Expr → Expr
  | binary span op left right =>
    if left.isBinary then binary span op left.braceFront right
    else binary span op (group default left) (group default right)
  | e => e

/-- The numeral of a number, in a group or not. -/
def literal? : Expr → Option String
  | const _ literal _ => some literal
  | group _ inner => inner.literal?
  | _ => none

/-- The numeral on the right of the operation that a tree begins with. -/
def frontLiteral? : Expr → Option String
  | binary _ _ left right => if left.isBinary then left.frontLiteral? else right.literal?
  | _ => none

theorem isBinary_bare (e : Expr) : e.bare.isBinary = e.isBinary := by cases e <;> rfl

theorem isIndexable_of_isBinary (h : e.isBinary) : e.isIndexable = false := by
  cases e <;> first | rfl | cases h

theorem isBinary_braceFront (h : e.isBinary) : e.braceFront.isBinary := by
  fun_cases braceFront e <;> first | rfl | exact h

theorem literal?_bare : ∀ e : Expr, e.bare.literal? = e.literal?
  | group _ inner => literal?_bare inner
  | const .. | var .. | unit .. | call .. | array .. | index .. | signed .. | binary .. => rfl

theorem frontLiteral?_bare : ∀ e : Expr, e.bare.frontLiteral? = e.frontLiteral?
  | binary _ _ left right => by
    rw [bare, frontLiteral?, frontLiteral?, isBinary_bare, frontLiteral?_bare left, literal?_bare]
  | const .. | var .. | unit .. | call .. | array .. | index .. | signed .. | group .. => rfl

theorem frontLiteral?_braceFront : ∀ e : Expr, e.braceFront.frontLiteral? = e.frontLiteral?
  | binary _ _ left right => by
    rw [braceFront]
    split
    · rename_i hleft
      rw [frontLiteral?, frontLiteral?, if_pos (isBinary_braceFront hleft), if_pos hleft,
        frontLiteral?_braceFront left]
    · rename_i hleft
      rw [frontLiteral?, frontLiteral?, if_neg hleft]
      rfl
  | const .. | var .. | unit .. | call .. | array .. | index .. | signed .. | group .. => rfl

theorem frontLiteral?_eq_of_sameTree (h : SameTree e.braceFront e') :
    e.frontLiteral? = e'.frontLiteral? := by
  rw [← frontLiteral?_braceFront, ← frontLiteral?_bare, h, frontLiteral?_bare]

theorem bare_braceFront : ∀ e : Expr, e.braceFront.bare = e.bare.braceFront
  | binary _ _ left right => by
    rw [braceFront, bare, braceFront, isBinary_bare]
    split
    · rw [bare, bare_braceFront left]
    · rfl
  | const .. | var .. | unit .. | call .. | array .. | index .. | signed .. | group .. => rfl

/-- The same tree, except that one fraction at the front has its parts in braces. -/
def Braces (e e' : Expr) : Prop := e.isBinary ∧ SameTree e.braceFront e'

theorem joins_braces : Joins Braces := by
  rintro op left left' right right' ⟨hbinary, hleft⟩ hright
  refine ⟨rfl, ?_⟩
  change (if left.isBinary then _ else _ : Expr).bare = _
  rw [if_pos hbinary, bare_join, bare, hleft, hright]

theorem Braces.isIndexable (h : Braces e e') : e.isIndexable = false ∧ e'.isIndexable = false := by
  obtain ⟨hbinary, hsame⟩ := h
  refine ⟨isIndexable_of_isBinary hbinary, ?_⟩
  rw [← isIndexable_bare, ← hsame, isIndexable_bare]
  exact isIndexable_of_isBinary (isBinary_braceFront hbinary)

/-- The tree begins with an operation that has this numeral on the right. -/
def BeginsWith (literal : String) (e : Expr) : Prop :=
  e.isBinary ∧ e.frontLiteral? = some literal

theorem beginsWith_bare {literal : String} : BeginsWith literal e.bare ↔ BeginsWith literal e := by
  rw [BeginsWith, BeginsWith, isBinary_bare, frontLiteral?_bare]

theorem BeginsWith.join {literal : String} (h : BeginsWith literal left) (op : BinaryOp)
    (right : Expr) : BeginsWith literal (join op left right) := by
  refine ⟨rfl, ?_⟩
  rw [Expr.join, frontLiteral?, if_pos h.1, h.2]

/-! ## The parts of a fraction -/

/-- The number of a digit, without its place. -/
def digit (c : Char) : Expr := const default (String.ofList [c]) (Float.ofNat (digitValue c))

/-- The tokens begin with a part of a fraction. -/
def ReadsPart (scope : Scope) (last : Nat) (ts : List Token) (tree : Expr) (rest : List Token) :
    Prop :=
  ∃ e, e.bare = tree ∧ Reads (fractionPart scope last ts) e rest

theorem ReadsPart.fraction {t : Token} {ts rest rest' : List Token} {left right : Expr}
    (ht : t.kind = .frac) (hleft : ReadsPart scope last ts left rest)
    (hright : ReadsPart scope last rest right rest') :
    ∃ e, e.bare = binary default .div left right ∧
      Reads (operand scope last (t :: ts)) e rest' := by
  obtain ⟨kind, start, stop⟩ := t
  cases ht
  obtain ⟨numerator, rfl, shorter, hnumerator⟩ := hleft
  obtain ⟨denominator, rfl, shorter', hdenominator⟩ := hright
  refine ⟨binary (Span.ofBytes start denominator.span.stop) .div numerator denominator, rfl,
    by simp; omega, ?_⟩
  rw [operand.eq_def]
  simp [hnumerator, hdenominator]

theorem ReadsPart.fraction_error {t : Token} {ts rest : List Token} {left : Expr}
    {fault : SourceError} (ht : t.kind = .frac) (hleft : ReadsPart scope last ts left rest)
    (hright : fractionPart scope last rest = .error fault) :
    operand scope last (t :: ts) = .error fault := by
  obtain ⟨kind, start, stop⟩ := t
  cases ht
  obtain ⟨numerator, -, shorter, hnumerator⟩ := hleft
  rw [operand.eq_def]
  simp [hnumerator, hright]

theorem splitDigit?_ofList (ha : a.isDigit) (hb : b.isDigit) (more : List Char) :
    splitDigit? (String.ofList (a :: b :: more)) = some (a, String.ofList (b :: more)) := by
  rw [splitDigit?, String.toList_ofList]
  simp [ha, hb]

theorem splitDigit?_ofList_eq_none (hmore : ∀ d ∈ more.head?, d.isDigit = false) :
    splitDigit? (String.ofList (b :: more)) = none := by
  rw [splitDigit?, String.toList_ofList]
  cases more with
  | nil => rfl
  | cons d ds => simp [hmore d rfl]

/-- The first of two digits is a part, and the rest of the number stays. -/
theorem readsPart_digit (ha : a.isDigit) (hb : b.isDigit) {t : Token}
    (ht : t.kind = .num (String.ofList (a :: b :: more))) (ts : List Token) :
    ∃ u, u.kind = .num (String.ofList (b :: more)) ∧
      ReadsPart scope last (t :: ts) (digit a) (u :: ts) := by
  obtain ⟨kind, start, stop⟩ := t
  cases ht
  refine ⟨⟨.num (String.ofList (b :: more)), start + 1, stop⟩, rfl,
    const (Span.ofBytes start (start + 1)) (String.singleton a) (Float.ofNat (digitValue a)), rfl,
    by simp, ?_⟩
  rw [fractionPart.eq_def]
  dsimp only
  rw [splitDigit?_ofList ha hb]

/-- A part that is not cut off a longer number is an operand. -/
theorem fractionPart_eq {t : Token}
    (ht : ∀ literal, t.kind = .num literal → splitDigit? literal = none) (ts : List Token) :
    fractionPart scope last (t :: ts) = (operand scope last (t :: ts) >>= fun r =>
      .ok ⟨r.value, r.rest, Nat.lt_succ_of_lt r.shorter⟩) := by
  obtain ⟨kind, start, stop⟩ := t
  rw [fractionPart.eq_def]
  cases kind with
  | num literal =>
    dsimp only
    rw [ht literal rfl]
  | _ => rfl

theorem readsPart_of_operand {ks : List Token.Kind} {k : Token.Kind} {tree : Expr}
    (hk : ∀ literal, k = .num literal → splitDigit? literal = none)
    (h : Understands (operand scope last) (fun _ => false) (k :: ks) (·.bare = tree))
    {ts : List Token} (hts : ts.map Token.kind = k :: ks) (rest : List Token) :
    ReadsPart scope last (ts ++ rest) tree rest := by
  obtain ⟨e, he, hread⟩ := h ts rest hts fun _ _ => rfl
  obtain ⟨t, ts, rfl, rfl, -⟩ := List.map_eq_cons_iff.1 hts
  rw [List.cons_append] at hread ⊢
  obtain ⟨shorter, hread⟩ := hread
  refine ⟨e, he, Nat.lt_succ_of_lt shorter, ?_⟩
  rw [fractionPart_eq hk, hread]
  rfl

theorem operand_digit {goesOn : Token.Kind → Bool} (hb : b.isDigit) :
    Understands (operand scope last) goesOn [.num (String.ofList [b])] (·.bare = digit b) := by
  have hvalue : Numeral.value? (String.ofList [b]).toList = some (Float.ofNat (digitValue b)) := by
    rw [String.toList_ofList]
    exact value?_digit hb
  exact operand_num hvalue fun _ => rfl

/-- The kinds of the tokens of a digit in braces. -/
def braceKinds (c : Char) : List Token.Kind := [.lbrace, .num (String.ofList [c]), .rbrace]

theorem readsPart_braces (hb : b.isDigit) {ts : List Token} (hts : ts.map Token.kind = braceKinds b)
    (rest : List Token) :
    ReadsPart scope last (ts ++ rest) (group default (digit b)) rest := by
  have hinner : Understands (sum scope last) adds [.num (String.ofList [b])] (·.bare = digit b) :=
    sum_of_signedTerm (signedTerm_of_power rfl (power_of_operand (operand_digit hb)))
  have hgroup : Understands (operand scope last) (fun _ => false)
      (.lbrace :: ([.num (String.ofList [b])] ++ [.rbrace]))
      (·.bare = group default (digit b)) := by
    refine operand_group (.inr ⟨rfl, rfl⟩) hinner fun span inner hdigit => ?_
    rw [bare, hdigit]
  exact readsPart_of_operand (by rintro _ ⟨⟩) hgroup hts rest

/-! ## The tokens that a fraction begins with -/

/-- Tokens of some kinds begin with an operand, which leaves tokens of other kinds before the
rest. -/
def Begins (scope : Scope) (ks : List Token.Kind) (tree : Expr) (ks' : List Token.Kind) : Prop :=
  ∀ last (front rest : List Token), front.map Token.kind = ks →
    ∃ e left, e.bare = tree ∧ left.map Token.kind = ks' ∧
      Reads (operand scope last (front ++ rest)) e (left ++ rest)

theorem Begins.append {ks ks' : List Token.Kind} {tree : Expr} (h : Begins scope ks tree ks')
    (ls : List Token.Kind) : Begins scope (ks ++ ls) tree (ks' ++ ls) := by
  intro last front rest hfront
  obtain ⟨front, middle, rfl, hks, hls⟩ := List.map_eq_append_iff.1 hfront
  obtain ⟨e, left, he, hleft, hreads⟩ := h last front (middle ++ rest) hks
  refine ⟨e, left ++ middle, he, by rw [List.map_append, hleft, hls], ?_⟩
  rwa [List.append_assoc, List.append_assoc]

theorem begins_braced (ha : a.isDigit) (hb : b.isDigit) :
    Begins scope (.frac :: (braceKinds a ++ braceKinds b))
      (binary default .div (group default (digit a)) (group default (digit b))) [] := by
  intro last front rest hfront
  obtain ⟨t, front, rfl, ht, hfront⟩ := List.map_eq_cons_iff.1 hfront
  obtain ⟨us, vs, rfl, hus, hvs⟩ := List.map_eq_append_iff.1 hfront
  have hleft : ReadsPart scope last (us ++ (vs ++ rest)) (group default (digit a)) (vs ++ rest) :=
    readsPart_braces ha hus (vs ++ rest)
  obtain ⟨e, he, hread⟩ := hleft.fraction ht (readsPart_braces hb hvs rest)
  refine ⟨e, [], he, rfl, ?_⟩
  rw [List.cons_append, List.append_assoc]
  exact hread

/-- The kinds of the tokens of a numeral, which there is none of in an empty text. -/
def numeralKinds : List Char → List Token.Kind
  | [] => []
  | cs => [.num (String.ofList cs)]

/-- The digits behind the second one stay, and are a number. -/
theorem begins_unbraced (ha : a.isDigit) (hb : b.isDigit) (hmore : ∀ d ∈ more.head?, d.isDigit) :
    Begins scope [.frac, .num (String.ofList (a :: b :: more))]
      (binary default .div (digit a) (digit b)) (numeralKinds more) := by
  intro last front rest hfront
  obtain ⟨t, front, rfl, ht, hfront⟩ := List.map_eq_cons_iff.1 hfront
  obtain ⟨u, rfl, hu⟩ := List.map_eq_singleton_iff.1 hfront
  obtain ⟨v, hv, hleft⟩ : ∃ v, v.kind = .num (String.ofList (b :: more)) ∧
      ReadsPart scope last (u :: rest) (digit a) (v :: rest) := readsPart_digit ha hb hu rest
  cases more with
  | nil =>
    have hright : ReadsPart scope last ([v] ++ rest) (digit b) rest := by
      refine readsPart_of_operand ?_ (operand_digit hb) (by rw [List.map_singleton, hv]) rest
      rintro _ ⟨⟩
      exact splitDigit?_ofList_eq_none nofun
    obtain ⟨e, he, hread⟩ := hleft.fraction ht hright
    exact ⟨e, [], he, rfl, hread⟩
  | cons d ds =>
    obtain ⟨w, hw, hright⟩ := readsPart_digit hb (hmore d rfl) hv rest
    obtain ⟨e, he, hread⟩ := hleft.fraction ht hright
    exact ⟨e, [w], he, by rw [List.map_singleton, hw]; rfl, hread⟩

/-- What does not begin with a digit stays with the second digit, if this is a number at all. -/
theorem operand_unbraced (ha : a.isDigit) (hb : b.isDigit)
    (hmore : ∀ d ∈ more.head?, d.isDigit = false) {front : List Token}
    (hfront : front.map Token.kind = [.frac, .num (String.ofList (a :: b :: more))])
    (rest : List Token) :
    match Numeral.value? (b :: more) with
    | none => ∃ fault, operand scope last (front ++ rest) = .error fault
    | some _ => ∃ e, BeginsWith (String.ofList (b :: more)) e ∧
        Reads (operand scope last (front ++ rest)) e rest := by
  obtain ⟨t, front, rfl, ht, hfront⟩ := List.map_eq_cons_iff.1 hfront
  obtain ⟨u, rfl, hu⟩ := List.map_eq_singleton_iff.1 hfront
  obtain ⟨v, hv, hleft⟩ : ∃ v, v.kind = .num (String.ofList (b :: more)) ∧
      ReadsPart scope last (u :: rest) (digit a) (v :: rest) := readsPart_digit ha hb hu rest
  have hwhole : ∀ literal, v.kind = .num literal → splitDigit? literal = none := by
    intro literal hliteral
    cases hv.symm.trans hliteral
    exact splitDigit?_ofList_eq_none hmore
  cases hvalue : Numeral.value? (b :: more) with
  | none =>
    have hright : fractionPart scope last (v :: rest) =
        .error ⟨.expectedNumber, Span.ofBytes v.start v.stop⟩ := by
      rw [fractionPart_eq hwhole, operand.eq_def]
      simp [hv, hvalue]
    exact ⟨_, hleft.fraction_error ht hright⟩
  | some x =>
    have hnumber : Understands (operand scope last) (fun _ => false) [v.kind]
        (·.bare = const default (String.ofList (b :: more)) x) := by
      rw [hv]
      exact operand_num (by rw [String.toList_ofList, hvalue]) fun _ => rfl
    have hright := readsPart_of_operand hwhole hnumber (List.map_singleton) rest
    obtain ⟨e, he, hread⟩ := hleft.fraction ht hright
    exact ⟨e, beginsWith_bare.1 (he ▸ ⟨rfl, rfl⟩), hread⟩

/-! ## Texts with a fraction at the front -/

/-- Both are read, and as the same up to braces around both parts of the fraction at the front, or
neither is. -/
inductive SameFraction :
    Except SourceError (Option Expr) → Except SourceError (Option Expr) → Prop where
  | read {e e' : Expr} (h : SameTree e.braceFront e') : SameFraction (.ok (some e)) (.ok (some e'))
  | fault (fault fault' : SourceError) : SameFraction (.error fault) (.error fault')

theorem sameFraction_of_errors {r r' : Except SourceError (Option Expr)}
    (h : ∃ fault, r = .error fault) (h' : ∃ fault, r' = .error fault) : SameFraction r r' := by
  obtain ⟨fault, rfl⟩ := h
  obtain ⟨fault', rfl⟩ := h'
  exact .fault fault fault'

theorem SameFraction.sameTree {r r' : Except SourceError (Option Expr)} (h : SameFraction r r')
    (hr : r = .ok (some e)) : ∃ e', r' = .ok (some e') ∧ SameTree e.braceFront e' := by
  cases h with
  | read h =>
    cases hr
    exact ⟨_, rfl, h⟩
  | fault => cases hr

/-- The text is cut into tokens, and these are read. -/
def readText (scope : Scope) (cs : List Char) : Except SourceError (Option Expr) :=
  tokensFrom (rules scope) 0 0 cs >>= ofTokens scope

theorem parse_eq_readText (scope : Scope) (text : String) :
    parse scope text = readText scope text.toList := rfl

variable {front front' rest : List Char} {ks ks' ls : List Token.Kind} {tree : Expr}
  {literal : String}

theorem readText_faulty (h : Faulty (rules scope) rest) :
    ∃ fault, readText scope rest = .error fault := by
  obtain ⟨fault, hfault⟩ := h 0
  exact ⟨fault, by rw [readText, hfault]; rfl⟩

theorem readText_of_leads (h : Leads (rules scope) front rest (.frac :: ks)) :
    ∃ t ts stop, (t :: ts).map Token.kind = .frac :: ks ∧ sign? t.kind = none ∧
      readText scope (front ++ rest) = (tokensFrom (rules scope) stop 0 rest >>= fun others =>
        ofTokens scope (t :: (ts ++ others))) := by
  obtain ⟨ts, stop, hts, htokens⟩ := h 0
  obtain ⟨t, ts, rfl, ht, -⟩ := List.map_eq_cons_iff.1 hts
  refine ⟨t, ts, stop, hts, by rw [ht]; rfl, ?_⟩
  rw [readText, htokens]
  cases tokensFrom (rules scope) stop 0 rest <;> rfl

/-- Both texts begin with the same fraction, once in braces, and go on with the same tokens. -/
theorem sameFraction_of_begins (hleads : Leads (rules scope) front rest (.frac :: ks))
    (hleads' : Leads (rules scope) front' rest (.frac :: ks'))
    (hbegins : Begins scope (.frac :: ks) tree ls) (htree : tree.isBinary)
    (hbegins' : Begins scope (.frac :: ks') tree.braceFront ls) :
    SameFraction (readText scope (front ++ rest)) (readText scope (front' ++ rest)) := by
  obtain ⟨t, ts, stop, hts, ht, hread⟩ := readText_of_leads hleads
  obtain ⟨t', ts', stop', hts', ht', hread'⟩ := readText_of_leads hleads'
  have hothers := sameKinds_tokensFrom (rules scope) stop stop' 0 rest
  rw [hread, hread']
  have hresult : SameResult (fun r r' => ∃ e e', r = some e ∧ r' = some e' ∧ Braces e e')
      (tokensFrom (rules scope) stop 0 rest >>= fun others => ofTokens scope (t :: (ts ++ others)))
      (tokensFrom (rules scope) stop' 0 rest >>= fun others =>
        ofTokens scope (t' :: (ts' ++ others))) := by
    refine hothers.bind fun others others' hkinds => ?_
    refine ofTokens_agrees (fun e e' h => ⟨e, e', rfl, rfl, h⟩) fun last last' => ?_
    obtain ⟨e, left, he, hleft, hoperand⟩ := hbegins last (t :: ts) others hts
    obtain ⟨e', left', he', hleft', hoperand'⟩ := hbegins' last' (t' :: ts') others' hts'
    have hbraces : Braces e e' := by
      refine ⟨by rw [← isBinary_bare, he, htree], ?_⟩
      rw [SameTree, bare_braceFront, he, he']
    have hleft : SameKinds (left ++ others) (left' ++ others') :=
      List.rel_append (sameKinds_of_map (hleft.trans hleft'.symm)) hkinds
    exact sum_agrees_of_operand joins_braces (fun _ _ => Braces.isIndexable) ht ht'
      (agrees_of_reads hoperand hoperand' hbraces hleft)
  generalize (tokensFrom (rules scope) stop 0 rest >>= _) = r at hresult ⊢
  generalize (tokensFrom (rules scope) stop' 0 rest >>= _) = r' at hresult ⊢
  cases hresult with
  | error h => exact .fault _ _
  | ok h =>
    obtain ⟨e, e', rfl, rfl, -, h⟩ := h
    exact .read h

/-- Where the operand at the front cannot be read, nothing can. -/
theorem readText_of_operand_error (hleads : Leads (rules scope) front rest (.frac :: ks))
    (hoperand : ∀ last (ts others : List Token), ts.map Token.kind = .frac :: ks →
      ∃ fault, operand scope last (ts ++ others) = .error fault) :
    ∃ fault, readText scope (front ++ rest) = .error fault := by
  obtain ⟨t, ts, stop, hts, ht, hread⟩ := readText_of_leads hleads
  rw [hread]
  cases tokensFrom (rules scope) stop 0 rest with
  | error fault => exact ⟨fault, rfl⟩
  | ok others =>
    obtain ⟨fault, hfault⟩ := hoperand
      (((t :: (ts ++ others)).getLast?.map Token.stop).getD 0) (t :: ts) others hts
    have hsum := sum_of_operand_error ht hfault
    refine ⟨fault, ?_⟩
    rw [ok_bind, ofTokens, if_neg (by simp)]
    dsimp only
    change (sum scope _ (t :: ts.append others) >>= _) = _
    rw [hsum]
    rfl

/-- The numeral on the right of the fraction at the front is that of the operand. -/
theorem beginsWith_of_readText (hleads : Leads (rules scope) front rest (.frac :: ks))
    (hoperand : ∀ last (ts others : List Token), ts.map Token.kind = .frac :: ks →
      (∃ fault, operand scope last (ts ++ others) = .error fault) ∨
        ∃ e left, BeginsWith literal e ∧ Reads (operand scope last (ts ++ others)) e left)
    (hread : readText scope (front ++ rest) = .ok (some e)) : BeginsWith literal e := by
  obtain ⟨t, ts, stop, hts, ht, htext⟩ := readText_of_leads hleads
  rw [htext] at hread
  obtain ⟨others, -, hread⟩ := bind_eq_ok.1 hread
  rw [ofTokens, if_neg (by simp)] at hread
  obtain ⟨⟨e', left, shorter⟩, hsum, hread⟩ := bind_eq_ok.1 hread
  cases left with
  | cons u left => cases hread
  | nil =>
    cases hread
    generalize (((t :: (ts ++ others)).getLast?.map Token.stop).getD 0) = last at hsum
    have hfirst : Agrees raises [] (fun e e' => BeginsWith literal e ∧ BeginsWith literal e')
        (operand scope last (t :: (ts ++ others))) (operand scope last (t :: (ts ++ others))) := by
      obtain ⟨fault, hfault⟩ | ⟨e, left, he, hreads⟩ := hoperand last (t :: ts) others hts
      · change operand scope last (t :: (ts ++ others)) = .error fault at hfault
        rw [hfault]
        exact agrees_error rfl
      · exact agrees_of_reads hreads hreads ⟨he, he⟩ (sameKinds_of_map rfl)
    have hjoins : Joins fun e e' => BeginsWith literal e ∧ BeginsWith literal e' :=
      fun op _ _ _ _ h _ => ⟨h.1.join op _, h.2.join op _⟩
    have hall := sum_agrees_of_operand hjoins (fun e e' h =>
      ⟨isIndexable_of_isBinary h.1.1, isIndexable_of_isBinary h.2.1⟩) ht ht hfirst
    obtain ⟨-, -, ⟨hbegins, -⟩, -⟩ := hall.result e [] shorter hsum fun _ => ends_nil
    exact hbegins

/-! ## The two spellings -/

section

variable (scope) {r : List Char}

theorem leads_unbraced (ha : a.isDigit)
    (hsplit : Numeral.split? (a :: b :: (more ++ rest)) = some (a :: b :: more, rest))
    (hexcess : excess rest = []) :
    Leads (rules scope) (fracCommand ++ a :: b :: more) rest
      [.frac, .num (String.ofList (a :: b :: more))] := by
  have hnumber : Leads (rules scope) (a :: b :: more) rest
      [.num (String.ofList (a :: b :: more))] := leads_number ha hsplit hexcess
  have hcommand : Leads (rules scope) fracCommand (a :: b :: more ++ rest) [.frac] :=
    leads_frac (stops_cons.2 (isAlpha_of_isDigit ha))
  exact hcommand.append hnumber

theorem faulty_unbraced (ha : a.isDigit)
    (hsplit : Numeral.split? (a :: b :: r) = some (a :: b :: more, rest))
    (hexcess : excess rest ≠ []) : Faulty (rules scope) (fracCommand ++ a :: b :: r) := by
  have hcommand : Leads (rules scope) fracCommand (a :: b :: r) [.frac] :=
    leads_frac (stops_cons.2 (isAlpha_of_isDigit ha))
  exact hcommand.faulty (faulty_number ha hsplit hexcess)

theorem leads_braced (ha : a.isDigit) (hb : b.isDigit) (rest : List Char) :
    Leads (rules scope) (fracCommand ++ (['\x7b', a, '\x7d'] ++ ['\x7b', b, '\x7d'])) rest
      (.frac :: (braceKinds a ++ braceKinds b)) := by
  have hcommand : Leads (rules scope) fracCommand
      (['\x7b', a, '\x7d'] ++ ['\x7b', b, '\x7d'] ++ rest) [.frac] :=
    leads_frac (stops_cons.2 (by decide))
  exact hcommand.append ((leads_braces ha).append (leads_braces hb))

/-- Digits behind the second one are a number of their own, too. -/
theorem leads_numeral (hb : b.isDigit) (hmore : ∀ d ∈ more.head?, d.isDigit)
    (hsplit : Numeral.split? (b :: (more ++ rest)) = some (b :: more, rest))
    (hexcess : excess rest = []) : Leads (rules scope) more rest (numeralKinds more) := by
  cases more with
  | nil =>
    intro start
    refine ⟨[], start, rfl, ?_⟩
    cases h : tokensFrom (rules scope) start 0 rest <;> simp [h]
  | cons d ds =>
    have hd : d.isDigit := hmore d rfl
    have hb' : isDecimalDigit b := isDecimalDigit_of_isDigit hb
    exact leads_number hd ((Numeral.split?_cons_iff hb' (isDecimalDigit_of_isDigit hd)).1 hsplit)
      hexcess

/-- The number behind the command ends in digits: these are read behind both spellings. -/
theorem sameFraction_of_digits (ha : a.isDigit) (hb : b.isDigit)
    (hmore : ∀ d ∈ more.head?, d.isDigit)
    (hsplit : Numeral.split? (b :: (more ++ rest)) = some (b :: more, rest))
    (hexcess : excess rest = []) :
    SameFraction (readText scope (fracCommand ++ a :: b :: (more ++ rest)))
      (readText scope (fracCommand ++ (['\x7b', a, '\x7d'] ++ ['\x7b', b, '\x7d']) ++
        (more ++ rest))) := by
  have hboth : Numeral.split? (a :: b :: (more ++ rest)) = some (a :: b :: more, rest) :=
    (Numeral.split?_cons_iff (isDecimalDigit_of_isDigit ha) (isDecimalDigit_of_isDigit hb)).2 hsplit
  have hbraced := (leads_braced scope ha hb (more ++ rest)).append
    (leads_numeral scope hb hmore hsplit hexcess)
  have hsame := sameFraction_of_begins (leads_unbraced scope ha hboth hexcess) hbraced
    (begins_unbraced ha hb hmore) rfl ((begins_braced ha hb).append (numeralKinds more))
  rwa [List.append_assoc, List.append_assoc _ more rest] at hsame

/-- A digit of another script behind a digit belongs to its number, which has no value then. -/
theorem value?_of_decimalDigit {d : Char} (hb : b.isDigit) (hd : isDecimalDigit d)
    (hother : d.isDigit = false) (ds : List Char) : Numeral.value? (b :: d :: ds) = none := by
  have hmark : Numeral.isExponentMark d = false := by
    rw [Bool.eq_false_iff]
    intro hmark
    rcases (by simpa [Numeral.isExponentMark] using hmark : d = 'e' ∨ d = 'E') with rfl | rfl
    · exact absurd hd (by decide)
    · exact absurd hd (by decide)
  have hpoint : d ≠ '.' := by
    rintro rfl
    exact absurd hd (by decide)
  unfold Numeral.value?
  simp [hb, hother, hpoint, Numeral.exponentValue?, hmark]

/-- A digit of another script cannot be read behind either spelling. -/
theorem sameFraction_of_decimalDigit (ha : a.isDigit) (hb : b.isDigit) {d : Char}
    (hd : isDecimalDigit d) (hother : d.isDigit = false) (cs : List Char) :
    SameFraction (readText scope (fracCommand ++ a :: b :: d :: cs))
      (readText scope (fracCommand ++ (['\x7b', a, '\x7d'] ++ ['\x7b', b, '\x7d']) ++
        d :: cs)) := by
  have ha' : isDecimalDigit a := isDecimalDigit_of_isDigit ha
  have hb' : isDecimalDigit b := isDecimalDigit_of_isDigit hb
  obtain ⟨ds, rest, rfl, hsplit⟩ := Numeral.split?_eq_some hd cs
  have hboth : Numeral.split? (a :: b :: (d :: ds ++ rest)) = some (a :: b :: d :: ds, rest) :=
    (Numeral.split?_cons_iff ha' hb').2 ((Numeral.split?_cons_iff hb' hd).2 hsplit)
  have hunbraced : ∃ fault,
      readText scope (fracCommand ++ a :: b :: (d :: ds ++ rest)) = .error fault := by
    by_cases hexcess : excess rest = []
    · have hleads := leads_unbraced scope ha hboth hexcess
      have hfaults := readText_of_operand_error hleads fun last ts others hts => by
        have hoperand := @operand_unbraced scope last a b (d :: ds) ha hb (by simpa) ts hts others
        rwa [value?_of_decimalDigit hb hd hother ds] at hoperand
      rwa [List.append_assoc] at hfaults
    · exact readText_faulty (faulty_unbraced scope ha hboth hexcess)
  have hwrong : Faulty (rules scope) (d :: (ds ++ rest)) := by
    have next := @nextPiece_of_isDecimalDigit (rules scope) 0 (ds ++ rest) d hd
    rw [if_neg (by simp [hother])] at next
    exact faulty_wrong next
  exact sameFraction_of_errors hunbraced
    (readText_faulty ((leads_braced scope ha hb (d :: (ds ++ rest))).faulty hwrong))

/-- A text that a number before it does not go on with is read as the same behind both spellings. -/
theorem sameFraction_of_excess (ha : a.isDigit) (hb : b.isDigit) (hexcess : excess r = []) :
    SameFraction (readText scope (fracCommand ++ a :: b :: r))
      (readText scope (fracCommand ++ (['\x7b', a, '\x7d'] ++ ['\x7b', b, '\x7d']) ++
        r)) := by
  have hb' : isDecimalDigit b := isDecimalDigit_of_isDigit hb
  by_cases hstops : Stops isDecimalDigit r
  · have hsplit := split?_digit hb' hstops hexcess
    exact @sameFraction_of_digits scope a b [] r ha hb nofun hsplit hexcess
  · obtain ⟨d, cs, rfl, hd⟩ : ∃ d cs, r = d :: cs ∧ isDecimalDigit d := by
      cases r with
      | nil => exact absurd stops_nil hstops
      | cons d cs => exact ⟨d, cs, rfl, by simpa using hstops⟩
    cases hdigit : d.isDigit with
    | false => exact sameFraction_of_decimalDigit scope ha hb hd hdigit cs
    | true =>
      obtain ⟨ds, rest, rfl, hsplit⟩ := Numeral.split?_eq_some hd cs
      have hbehind : Numeral.split? (b :: (d :: ds ++ rest)) = some (b :: d :: ds, rest) :=
        (Numeral.split?_cons_iff hb' hd).2 hsplit
      by_cases hrest : excess rest = []
      · exact @sameFraction_of_digits scope a b (d :: ds) rest ha hb (by simpa) hbehind hrest
      · have hboth := (Numeral.split?_cons_iff (isDecimalDigit_of_isDigit ha) hb').2 hbehind
        have hbehind : Faulty (rules scope) (d :: (ds ++ rest)) :=
          faulty_number hdigit hsplit hrest
        exact sameFraction_of_errors (readText_faulty (faulty_unbraced scope ha hboth hrest))
          (readText_faulty ((leads_braced scope ha hb _).faulty hbehind))

/-- A text that the second digit takes something of is not read as the same behind both spellings:
the denominator has the numeral of more than one digit. -/
theorem not_sameTree_of_excess (ha : a.isDigit) (hb : b.isDigit) (hexcess : excess r ≠ [])
    (hunbraced : readText scope (fracCommand ++ a :: b :: r) = .ok (some e))
    (hbraced : readText scope (fracCommand ++ (['\x7b', a, '\x7d'] ++ ['\x7b', b, '\x7d']) ++ r) =
      .ok (some e')) : ¬SameTree e.braceFront e' := by
  obtain ⟨more, rest, rfl, hsplit⟩ := Numeral.split?_eq_some (isDecimalDigit_of_isDigit hb) r
  have hboth : Numeral.split? (a :: b :: (more ++ rest)) = some (a :: b :: more, rest) :=
    (Numeral.split?_cons_iff (isDecimalDigit_of_isDigit ha) (isDecimalDigit_of_isDigit hb)).2 hsplit
  have hrest : excess rest = [] := by
    by_contra hrest
    obtain ⟨fault, hfault⟩ := readText_faulty (faulty_unbraced scope ha hboth hrest)
    cases hunbraced.symm.trans hfault
  have hmore : ∀ d ∈ more.head?, d.isDigit = false := by
    intro d hd
    obtain ⟨ds, rfl⟩ := List.head?_eq_some_iff.1 hd
    rw [Bool.eq_false_iff]
    exact fun hdigit => hexcess (excess_of_isDigit hdigit _)
  have hfirst : BeginsWith (String.ofList (b :: more)) e := by
    have hleads := leads_unbraced scope ha hboth hrest
    have hread : readText scope (fracCommand ++ a :: b :: more ++ rest) = .ok (some e) := by
      rw [List.append_assoc]
      exact hunbraced
    refine beginsWith_of_readText hleads (fun last ts others hts => ?_) hread
    have hoperand := @operand_unbraced scope last a b more ha hb hmore ts hts others
    cases hvalue : Numeral.value? (b :: more) with
    | none =>
      rw [hvalue] at hoperand
      exact .inl hoperand
    | some x =>
      rw [hvalue] at hoperand
      obtain ⟨e, he, hread⟩ := hoperand
      exact .inr ⟨e, others, he, hread⟩
  have hsecond : BeginsWith (String.ofList [b]) e' := by
    have hleads := leads_braced scope ha hb (more ++ rest)
    refine beginsWith_of_readText hleads (fun last ts others hts => ?_) hbraced
    obtain ⟨e, left, he, -, hread⟩ := begins_braced ha hb last ts others hts
    exact .inr ⟨e, left ++ others, beginsWith_bare.1 (he ▸ ⟨rfl, rfl⟩), hread⟩
  intro hsame
  have hliteral : some (String.ofList (b :: more)) = some (String.ofList [b]) := by
    rw [← hfirst.2, ← hsecond.2, frontLiteral?_eq_of_sameTree hsame]
  obtain rfl : more = [] := by simpa using hliteral
  exact hexcess hrest

end

/-- The command for fractions with two digits and a text behind it. -/
def unbracedFraction (a b : Char) (r : String) : String :=
  "\\frac" ++ String.ofList [a, b] ++ r

/-- The same with each digit in braces. -/
def bracedFraction (a b : Char) (r : String) : String :=
  "\\frac\x7b" ++ String.ofList [a] ++ "\x7d\x7b" ++ String.ofList [b] ++ "\x7d" ++ r

theorem parse_unbracedFraction (scope : Scope) (a b : Char) (r : String) :
    parse scope (unbracedFraction a b r) =
      readText scope (fracCommand ++ a :: b :: r.toList) := by
  have htext : (unbracedFraction a b r).toList = fracCommand ++ a :: b :: r.toList := by
    simp [unbracedFraction, fracCommand]
  rw [parse_eq_readText, htext]

theorem parse_bracedFraction (scope : Scope) (a b : Char) (r : String) :
    parse scope (bracedFraction a b r) = readText scope
      (fracCommand ++ (['\x7b', a, '\x7d'] ++ ['\x7b', b, '\x7d']) ++ r.toList) := by
  have htext : (bracedFraction a b r).toList =
      fracCommand ++ (['\x7b', a, '\x7d'] ++ ['\x7b', b, '\x7d']) ++ r.toList := by
    simp [bracedFraction, fracCommand]
  rw [parse_eq_readText, htext]

/-- Two digits behind the command for fractions are read as the digits in braces, with whatever text
is behind them, exactly when this text does not go on with a number: where it begins with a point or
with the mark of an exponent, either nothing can be read or the two are read differently. -/
theorem parse_fraction_iff (scope : Scope) (ha : a.isDigit) (hb : b.isDigit) (r : String) :
    SameFraction (parse scope (unbracedFraction a b r)) (parse scope (bracedFraction a b r)) ↔
      goesOnNumber r.toList = false ∨
        (∃ fault, parse scope (unbracedFraction a b r) = .error fault) ∧
          ∃ fault, parse scope (bracedFraction a b r) = .error fault := by
  rw [parse_unbracedFraction, parse_bracedFraction, ← excess_eq_nil_iff]
  constructor
  · intro h
    by_cases hexcess : excess r.toList = []
    · exact .inl hexcess
    · have hnot := fun e e' => @not_sameTree_of_excess scope e e' a b r.toList ha hb hexcess
      generalize readText scope (fracCommand ++ a :: b :: r.toList) = first at h hnot ⊢
      generalize readText scope _ = second at h hnot ⊢
      cases h with
      | read h => exact absurd h (hnot _ _ rfl rfl)
      | fault fault fault' => exact .inr ⟨⟨fault, rfl⟩, fault', rfl⟩
  · rintro (hexcess | ⟨hunbraced, hbraced⟩)
    · exact sameFraction_of_excess scope ha hb hexcess
    · exact sameFraction_of_errors hunbraced hbraced

/-- Of three digits, the third is a number beside the fraction. -/
theorem parse_fraction_digits : '1'.isDigit ∧ '2'.isDigit ∧
    SameFraction (parse (.empty .equation) (unbracedFraction '1' '2' "3"))
      (parse (.empty .equation) (bracedFraction '1' '2' "3")) := by
  have ha : '1'.isDigit := by decide
  have hb : '2'.isDigit := by decide
  exact ⟨ha, hb, (parse_fraction_iff (.empty .equation) ha hb "3").2 (.inl (by decide))⟩

/-- A point behind the digits stays with the second one. -/
theorem parse_fraction_point_ne : '1'.isDigit ∧ '2'.isDigit ∧
    ¬SameFraction (parse (.empty .equation) (unbracedFraction '1' '2' ".5"))
      (parse (.empty .equation) (bracedFraction '1' '2' ".5")) := by
  have ha : '1'.isDigit := by decide
  have hb : '2'.isDigit := by decide
  have hpoint : ∀ d ∈ (['.', '5'] : List Char).head?, d.isDigit = false := by
    rintro d ⟨⟩
    decide
  have hoperand : ∀ last, Understands (operand (.empty .equation) last) opens
      [.frac, .num (String.ofList ['1', '2', '.', '5'])] fun _ => True := by
    intro last front rest hfront _
    have hreads := @operand_unbraced (.empty .equation) last '1' '2' ['.', '5'] ha hb hpoint
      front hfront rest
    cases hvalue : Numeral.value? ['2', '.', '5'] with
    | none => exact absurd hvalue (by decide +kernel)
    | some x =>
      rw [hvalue] at hreads
      obtain ⟨e, -, hread⟩ := hreads
      exact ⟨e, trivial, hread⟩
  have hscans : Scans (rules (.empty .equation)) 0 (unbracedFraction '1' '2' ".5").toList
      [.frac, .num (String.ofList ['1', '2', '.', '5'])] :=
    scans_iff.2 ⟨[⟨.frac, 0, 5⟩, ⟨.num "12.5", 5, 9⟩], by decide +kernel, by decide⟩
  obtain ⟨e, -, hparse⟩ := parse_of_scans hscans fun last =>
    sum_of_signedTerm (signedTerm_of_power rfl (power_of_operand (hoperand last)))
  have hexcess : excess ".5".toList ≠ [] := by decide
  refine ⟨ha, hb, fun h => ?_⟩
  obtain ⟨e', hparse', hsame⟩ := h.sameTree hparse
  rw [parse_unbracedFraction] at hparse
  rw [parse_bracedFraction] at hparse'
  exact not_sameTree_of_excess (.empty .equation) ha hb hexcess hparse hparse' hsame

end Expr

end Worksheet
