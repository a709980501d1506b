import Worksheet.Proofs.Expr.Leaves
import Worksheet.Proofs.Expr.Shape
import Worksheet.Proofs.Token.Braceless
/-!
# Reading back what is printed

A tree that was read from a text is printed as a line that is read as the same tree, exactly if no
part of the tree needs parentheses that it does not have, and everything that is called has a name
that is an identifier.
-/

namespace Worksheet

open Scan Text

namespace Expr

/-! ## Nodes of the same tree -/

section

variable {P : Expr → Prop} {e e' c n m : Expr}

theorem children_bare (e : Expr) : e.bare.children = e.children.map bare := by
  cases e <;> simp [bare, children, bares_eq_map]

theorem Node.bare (h : e.Node n) : e.bare.Node n.bare := by
  refine h.lift Expr.bare fun a b hb => ?_
  change b.bare ∈ a.bare.children
  rw [children_bare]
  exact List.mem_map_of_mem hb

theorem exists_node_of_bare (h : e.bare.Node m) : ∃ n, e.Node n ∧ n.bare = m := by
  induction h with
  | refl => exact ⟨e, .refl, rfl⟩
  | tail _ hchild ih =>
    obtain ⟨n, hn, rfl⟩ := ih
    rw [children_bare] at hchild
    obtain ⟨c, hc, rfl⟩ := List.mem_map.1 hchild
    exact ⟨c, hn.tail hc, rfl⟩

theorem everywhere_bare (hP : ∀ n : Expr, P n.bare ↔ P n) :
    e.bare.Everywhere P ↔ e.Everywhere P := by
  constructor
  · intro h n hn
    exact (hP n).1 (h n.bare hn.bare)
  · intro h m hm
    obtain ⟨n, hn, rfl⟩ := exists_node_of_bare hm
    exact (hP n).2 (h n hn)

/-- What does not look at spans holds in both trees or in none. -/
theorem SameTree.everywhere (h : SameTree e e') (hP : ∀ n : Expr, P n.bare ↔ P n) :
    e.Everywhere P ↔ e'.Everywhere P := by
  rw [← everywhere_bare hP, h, everywhere_bare hP]

theorem tightness_bare (e : Expr) : e.bare.tightness = e.tightness := by cases e <;> rfl

theorem fits_bare (e : Expr) : e.bare.Fits ↔ e.Fits := by
  cases e <;> simp [bare, Fits, tightness_bare]

theorem callsName_bare (e : Expr) : e.bare.CallsName ↔ e.CallsName := by cases e <;> rfl

/-! ## Names of calls -/

theorem leaves_subset_of_mem {es : List Expr} (h : e ∈ es) : e.leaves ⊆ leavesList es := by
  induction h with
  | head es => exact List.subset_append_left _ _
  | tail c _ ih => exact List.subset_append_of_subset_right _ ih

theorem leaves_subset_of_child (h : c ∈ e.children) : c.leaves ⊆ e.leaves := by
  cases e with
  | const | var | unit => cases h
  | call => exact List.subset_cons_of_subset _ (leaves_subset_of_mem h)
  | array => exact leaves_subset_of_mem h
  | index | binary =>
    rcases List.mem_pair.1 h with rfl | rfl
    · exact List.subset_append_left _ _
    · exact List.subset_append_right _ _
  | signed | group =>
    obtain rfl := List.mem_singleton.1 h
    exact List.Subset.refl _

theorem leaves_subset (h : e.Node n) : n.leaves ⊆ e.leaves := by
  induction h with
  | refl => exact List.Subset.refl _
  | tail _ hchild ih => exact List.Subset.trans (leaves_subset_of_child hchild) ih

/-- Every leaf is what a token becomes. -/
theorem MadeOf.exists_becomes {scope : Scope} {ps : List Token} (h : MadeOf scope ps e) {l : Leaf}
    (hl : l ∈ e.leaves) : ∃ t ∈ ps, t.Becomes scope l := by
  obtain ⟨ls, hbecomes, hperm⟩ := h.yields
  obtain ⟨i, hi, rfl⟩ := List.getElem_of_mem (hperm.mem_iff.2 hl)
  have hlength := hbecomes.length_eq
  exact ⟨_, List.mem_of_mem_filter (List.getElem_mem (by omega)),
    hbecomes.get (by omega) hi⟩

/-- The name of a call is that of a token, or of the square root. -/
theorem MadeOf.callsName {scope : Scope} {ps : List Token} (h : MadeOf scope ps e)
    (hident : ∀ t ∈ ps, ∀ v, t.kind = .ident v → IsName (Name.ofSpelling v).text)
    (hfunction : ∀ t ∈ ps, ∀ v, t.kind = .function v → IsName (Name.ofSpelling v).text) :
    e.Everywhere CallsName := by
  intro n hn
  cases n with
  | call span name callee args =>
    obtain ⟨t, ht, hbecomes⟩ := h.exists_becomes (leaves_subset hn List.mem_cons_self)
    change IsName name.text
    generalize span.start = start at hbecomes
    cases hbecomes with
    | call => exact hident _ ht _ rfl
    | command => exact hfunction _ ht _ rfl
    | sqrt =>
      unfold IsName
      decide +kernel
  | _ => trivial

end

/-! ## Reading the line -/

/-- The line that is printed is read as the same tree. -/
def ReadsBack (e : Expr) : Prop :=
  ∃ e', parse (.empty .equation) e.print = .ok (some e') ∧ SameTree e e'

/-- None of the tokens of the text is a unit. -/
def WithoutUnits (text : String) : Prop :=
  ∀ ts, tokens ⟨.equation, fun _ => false⟩ text = .ok ts → ∀ t ∈ ts, ∀ unit, t.kind ≠ .unit unit

section

variable {text : String} {e : Expr}

theorem everywhere_formed {flat : Prop} {ts : List Token}
    (hts : tokens (rules (.empty .equation)) text = .ok ts) (hwritable : Writable flat ts)
    (h : parse (.empty .equation) text = .ok (some e)) : e.Everywhere (Formed flat) := by
  rw [parse, hts, ok_bind] at h
  obtain ⟨last, shorter, hsum⟩ := sum_of_ofTokens h
  exact ((sum_shapes ts hwritable).result hsum).nodes

theorem everywhere_sound (hplain : plainSubscripts text.toList) (hunits : WithoutUnits text)
    (h : parse (.empty .equation) text = .ok (some e)) : e.Everywhere Sound := by
  obtain ⟨ts, hts, -⟩ := bind_eq_ok.1 h
  have hscans := scans_iff.2 ⟨ts, hts, rfl⟩
  have hwritable : Writable False ts := by
    refine ⟨fun t ht => ?_, False.elim⟩
    cases hkind : t.kind with
    | ident v => exact hscans.isName_of_plain rfl hplain (hkind ▸ List.mem_map_of_mem ht)
    | unit u => exact hunits ts hts t ht u hkind
    | _ => trivial
  exact fun n hn => (everywhere_formed hts hwritable h n hn).1

theorem scans_kinds (hsound : e.Everywhere Sound) (hcalls : e.Everywhere CallsName) :
    Scans (rules (.empty .equation)) 0 e.print.toList e.kinds := by
  have hscans := scans_print e hsound hcalls (nofun : Delimited []) .done
  rwa [List.append_nil, List.append_nil] at hscans

theorem readsBack_of_tight (hsound : e.Everywhere Sound) (htight : e.Tight)
    (hcalls : e.Everywhere CallsName) : e.ReadsBack := by
  obtain ⟨k, ks, hkinds, -, -⟩ := kinds_begin e hsound htight
  have hscans := scans_kinds hsound hcalls
  have hread := understands_kinds hsound htight
  rw [hkinds] at hscans hread
  obtain ⟨e', hsame, hparse⟩ := parse_of_scans hscans hread
  exact ⟨e', hparse, hsame⟩

/-- The line has no groups, so the names in it are identifiers. -/
theorem callsName_of_readsBack (hsound : e.Everywhere Sound) (h : e.ReadsBack) :
    e.Everywhere CallsName := by
  obtain ⟨e', hparse, hsame⟩ := h
  obtain ⟨ts, ps, hts, hmade, hcut⟩ := parse_madeOf hparse
  have hscans := scans_iff.2 ⟨ts, hts, rfl⟩
  have hclean := clean_print e hsound
  have hmem : ∀ t ∈ ps, (∀ literal, t.kind ≠ .num literal) → t.kind ∈ ts.map Token.kind :=
    fun t ht hnum => List.mem_map_of_mem (hcut.mem_of_not_num ht hnum)
  have hcommands : ∀ v ∈ functionCommands, IsName (Name.ofSpelling v).text := by
    unfold IsName
    decide +kernel
  refine (hsame.everywhere callsName_bare).2 (hmade.callsName ?_ ?_)
  · intro t ht v hkind
    have hident := hmem t ht (by rw [hkind]; nofun)
    exact hscans.isName_of_braceless rfl hclean.brace hclean.prime (hkind ▸ hident)
  · intro t ht v hkind
    have hfunction := hmem t ht (by rw [hkind]; nofun)
    exact hcommands v (hscans.function_of_braceless rfl hclean.brace (hkind ▸ hfunction))

/-- The tokens of the line are flat, so all that is read from them is tight. -/
theorem tight_of_readsBack (hsound : e.Everywhere Sound) (h : e.ReadsBack) : e.Tight := by
  have hscans := scans_kinds hsound (callsName_of_readsBack hsound h)
  obtain ⟨ts, hts, hkinds⟩ := scans_iff.1 hscans
  obtain ⟨e', hparse, hsame⟩ := h
  have hclean := clean_print e hsound
  have hflat : Token.Kind.Flat e.kinds := by
    have hprinted := flat_kinds e hsound (⟨nofun, .nil⟩ : Token.Kind.Flat []) nofun
    rwa [List.append_nil] at hprinted
  have hwritable : Writable True ts := by
    refine ⟨fun t ht => ?_, fun _ => hkinds ▸ hflat⟩
    have hmem : t.kind ∈ e.kinds := hkinds ▸ List.mem_map_of_mem ht
    cases hkind : t.kind with
    | ident v => exact hscans.isName_of_braceless rfl hclean.brace hclean.prime (hkind ▸ hmem)
    | unit u => cases hflat.printed _ (hkind ▸ hmem)
    | _ => trivial
  exact (hsame.everywhere fits_bare).2 fun n hn =>
    (everywhere_formed hts hwritable hparse n hn).2 trivial

/-- What is read from a text is printed as a line that is read as the same tree, exactly if the tree
needs no parentheses that it does not have, and all that is called has a name that is an
identifier. -/
theorem readsBack_iff (hplain : plainSubscripts text.toList) (hunits : WithoutUnits text)
    (h : parse (.empty .equation) text = .ok (some e)) :
    e.ReadsBack ↔ e.Tight ∧ e.Everywhere CallsName := by
  have hsound := everywhere_sound hplain hunits h
  constructor
  · exact fun hreads => ⟨tight_of_readsBack hsound hreads, callsName_of_readsBack hsound hreads⟩
  · exact fun ⟨htight, hcalls⟩ => readsBack_of_tight hsound htight hcalls

theorem withoutUnits_of_kinds {ks : List Token.Kind}
    (h : (tokens ⟨.equation, fun _ => false⟩ text).map (List.map Token.kind) = .ok ks)
    (hks : ∀ unit, .unit unit ∉ ks) : WithoutUnits text := by
  intro ts hts t ht unit hunit
  rw [hts] at h
  cases h
  exact hks unit (hunit ▸ List.mem_map_of_mem ht)

/-- An n-th root, a fraction and a call. -/
theorem readsBack_fraction :
    let text := "2\\sqrt[3]\x7bx\x7d+\\frac\x7ba_\x7b1\x7d\x7d\x7bb\x7d\\sin(y)"
    plainSubscripts text.toList ∧ WithoutUnits text ∧
      ∃ e, parse (.empty .equation) text = .ok (some e) ∧
        e.print = "2 * (x) ^ (1 / 3) + (a_1) / (b) * sin(y)" ∧ e.ReadsBack := by
  intro text
  have hplain : plainSubscripts text.toList := by decide +kernel
  have hkinds : (tokens ⟨.equation, fun _ => false⟩ text).map (List.map Token.kind) =
      .ok [.num "2", .sqrt, .lbracket, .num "3", .rbracket, .lbrace, .ident "x", .rbrace, .plus,
        .frac, .lbrace, .ident "a_\x7b1\x7d", .rbrace, .lbrace, .ident "b", .rbrace,
        .function "sin", .lparen, .ident "y", .rparen] := by decide +kernel
  have hunits : WithoutUnits text := withoutUnits_of_kinds hkinds (by simp)
  obtain ⟨e, he⟩ : ∃ e, parse (.empty .equation) text = .ok (some e) :=
    exists_of_isSome (by decide +kernel)
  have hfits : ∀ e ∈ (parse (.empty .equation) text).toOption.join,
      e.print = "2 * (x) ^ (1 / 3) + (a_1) / (b) * sin(y)" ∧ e.Tight ∧ e.Everywhere CallsName := by
    decide +kernel
  obtain ⟨hprint, hfits⟩ := hfits e (by rw [he]; rfl)
  exact ⟨hplain, hunits, e, he, hprint, (readsBack_iff hplain hunits he).2 hfits⟩

/-- A product in a denominator is read as one more step behind the quotient. -/
theorem not_readsBack_denominator :
    let text := "a / b c"
    plainSubscripts text.toList ∧
      (tokens ⟨.equation, fun _ => false⟩ text).map (List.map Token.kind) =
        .ok [.ident "a", .div, .ident "b", .ident "c"] ∧
      ∃ e, parse (.empty .equation) text = .ok (some e) ∧ e.print = "a / b * c" ∧
        ¬e.ReadsBack := by
  intro text
  have hplain : plainSubscripts text.toList := by decide +kernel
  have hkinds : (tokens ⟨.equation, fun _ => false⟩ text).map (List.map Token.kind) =
      .ok [.ident "a", .div, .ident "b", .ident "c"] := by decide +kernel
  have hunits : WithoutUnits text := withoutUnits_of_kinds hkinds (by simp)
  obtain ⟨e, he⟩ : ∃ e, parse (.empty .equation) text = .ok (some e) :=
    exists_of_isSome (by decide +kernel)
  have hfits : ∀ e ∈ (parse (.empty .equation) text).toOption.join,
      e.print = "a / b * c" ∧ ¬e.Tight := by decide +kernel
  obtain ⟨hprint, hfits⟩ := hfits e (by rw [he]; rfl)
  have hsound := everywhere_sound hplain hunits he
  exact ⟨hplain, hkinds, e, he, hprint, fun h => hfits (tight_of_readsBack hsound h)⟩

end

end Expr

end Worksheet
