import Worksheet.Proofs.Document.Usable
import Worksheet.Proofs.Expr.Leaves
import Worksheet.Proofs.Token.Tiling
/-!
# Parameters

In the body of a function a parameter is always a variable, whatever else its name could mean. A
word may be taken for a unit before names have a meaning, and so no parameter may be such a word.
-/

namespace Worksheet

open Text

/-! ## Words that are units -/

/-- If the piece is a unit and a bare word, then the word is one of those that are read as units. -/
def Piece.UnitWord (isUnitWord : String → Bool) (p : Piece) : Prop :=
  ∀ symbols, p.meaning = .token (.unit symbols) → Scan.IsBareWord p.text →
    isUnitWord (String.ofList p.text)

namespace Scan

variable {isUnitWord : String → Bool}

theorem unitWord_layout {text : List Char} : (Piece.layout text).UnitWord isUnitWord := nofun

theorem unitWord_misread {text : List Char} (fault : Misread) :
    Piece.UnitWord isUnitWord ⟨text, .misread fault⟩ := nofun

theorem unitWord_token {text : List Char} {kind : Token.Kind}
    (h : ∀ symbols, kind ≠ .unit symbols) : (Piece.token text kind).UnitWord isUnitWord :=
  fun symbols hmeaning => absurd (Meaning.token.inj hmeaning) (h symbols)

theorem unitWord_comma {text : List Char} : (Piece.token text .comma).UnitWord isUnitWord :=
  unitWord_token nofun

theorem unitWord_verbatim {text : List Char} {kind : Token.Kind} (h : kind.IsVerbatim) :
    (Piece.token text kind).UnitWord isUnitWord := by
  apply unitWord_token
  rintro symbols rfl
  cases h

/-- A text with a sign that no word has is not a word. -/
theorem unitWord_of_mem {p : Piece} {c : Char} (hmem : c ∈ p.text)
    (hstart : startsName .equation c = false) (hcontinue : continuesName .equation c = false) :
    p.UnitWord isUnitWord :=
  fun _ _ hbare => absurd hmem (hbare.not_mem hstart hcontinue)

theorem unitWord_of_backslash {p : Piece} (hmem : '\\' ∈ p.text) : p.UnitWord isUnitWord :=
  unitWord_of_mem hmem (by decide) (by decide)

theorem signPiece_unitWord (mode : Mode) (depth : Nat) (c : Char) :
    (signPiece mode depth c).UnitWord isUnitWord := by
  apply unitWord_of_backslash
  fun_cases signPiece <;> exact List.mem_cons_self

theorem commandPiece_unitWord (depth : Nat) (letters rest : List Char) :
    (commandPiece depth letters rest).1.UnitWord isUnitWord := by
  have hcase := commandPiece_cases depth letters rest
  generalize commandPiece depth letters rest = next at hcase
  cases hcase with
  | token htext hkind =>
    exact unitWord_of_backslash (htext.command.subset List.mem_cons_self)
  | bracket htext hkind =>
    apply unitWord_token
    rintro symbols rfl
    simp at hkind
  | layout htext => exact unitWord_layout
  | letter hgreek hname => exact unitWord_verbatim rfl
  | undecorated hfault => exact unitWord_misread _
  | wrong htext hcode => exact unitWord_misread _

theorem namePiece_unitWord (isUnitWord : String → Bool) (c : Char) (cs : List Char) :
    (namePiece ⟨.equation, isUnitWord⟩ c cs).UnitWord isUnitWord := by
  unfold namePiece
  dsimp only
  split
  · exact unitWord_misread _
  · split
    · rename_i hunit
      exact fun _ _ _ => hunit.2.1
    · exact unitWord_verbatim rfl

theorem numberPiece_unitWord (c : Char) (cs : List Char) :
    (numberPiece c cs).UnitWord isUnitWord := by
  unfold numberPiece
  split
  · exact unitWord_misread _
  · split
    · exact unitWord_verbatim rfl
    · exact unitWord_misread _

theorem sign?_ne_unit {c : Char} {symbols : String} : sign? c ≠ some (.unit symbols) := by
  unfold sign?
  split <;> nofun

theorem nextPiece_unitWord (isUnitWord : String → Bool) (depth : Nat) (c : Char) (cs : List Char) :
    (nextPiece ⟨.equation, isUnitWord⟩ depth c cs).1.UnitWord isUnitWord := by
  fun_cases nextPiece
  case case1 => exact unitWord_misread _
  case case2 => exact commandPiece_unitWord _ _ _
  case case3 => exact signPiece_unitWord _ _ _
  case case4 hkind =>
    apply unitWord_token
    rintro symbols rfl
    exact sign?_ne_unit hkind
  case case5 =>
    dsimp only
    split
    · exact unitWord_comma
    split
    · rename_i hpercent
      subst hpercent
      exact unitWord_of_mem List.mem_cons_self (by decide) (by decide)
    split
    · exact unitWord_layout
    split
    · exact numberPiece_unitWord c cs
    split
    · exact namePiece_unitWord isUnitWord c cs
    · exact unitWord_misread _

end Scan

/-! ## Names of tokens -/

/-- A token stands where the text has the name: as an identifier, or as a bare word that was taken
for a unit. -/
inductive Token.Names (text : List Char) (t : Token) (name : Name) : Prop where
  | identifier {spelling : String} (hkind : t.kind = .ident spelling)
      (hname : Name.ofSpelling spelling = name)
  | word {symbols : String} {covered : List Char} (hkind : t.kind = .unit symbols)
      (hcovers : t.Covers text covered) (hbare : Scan.IsBareWord covered)
      (hname : Name.ofSpelling (String.ofList covered) = name)

/-- Where the token has the name of a parameter the leaf is the parameter, and no other leaf is. -/
structure Token.Keeps (params : List Name) (text : List Char) (t : Token) (l : Leaf) : Prop where
  bound : ∀ i name, params[i]? = some name → t.Names text name →
    l = .var (Span.ofBytes t.start t.stop) name (.parameter i)
  only : ∀ span i name, l = .var span name (.parameter i) →
    params[i]? = some name ∧ t.Names text name

/-- No parameter is a word that is taken for a unit. -/
def Token.Plain (params : List Name) (text : List Char) (t : Token) : Prop :=
  ∀ symbols covered, t.kind = .unit symbols → t.Covers text covered → Scan.IsBareWord covered →
    Name.ofSpelling (String.ofList covered) ∉ params

section

variable {scope : Scope} {text : List Char} {t : Token} {l : Leaf} {name : Name} {i : Nat}

theorem Scope.parameter?_eq_some_iff (hnodup : scope.parameters.Nodup) :
    scope.parameter? name = some i ↔ scope.parameters[i]? = some name := by
  have hplace : ∀ {j}, scope.parameter? name = some j → scope.parameters[j]? = some name := by
    intro j h
    obtain ⟨hlt, hname, -⟩ := List.idxOf?_eq_some_iff.1 h
    exact List.getElem?_eq_some_iff.2 ⟨hlt, hname⟩
  refine ⟨hplace, fun h => ?_⟩
  obtain ⟨hlt, -⟩ := List.getElem?_eq_some_iff.1 h
  cases hfound : scope.parameter? name with
  | none => exact absurd (List.mem_of_getElem? h) (List.idxOf?_eq_none_iff.1 hfound)
  | some j =>
    have hsame : i = j := (List.getElem?_inj hlt hnodup).1 (h.trans (hplace hfound).symm)
    rw [hsame]

/-- What is no variable, and comes from a token without the name of a parameter. -/
theorem keeps_of_free {params : List Name} (hfree : ∀ name ∈ params, ¬t.Names text name)
    (hvar : ∀ span i name, l ≠ .var span name (.parameter i)) : t.Keeps params text l where
  bound _ name hname hnames := absurd hnames (hfree name (List.mem_of_getElem? hname))
  only span i name hl := absurd hl (hvar span i name)

theorem not_names_of_identifier {params : List Name} {spelling : String}
    (hkind : t.kind = .ident spelling) (hfree : Name.ofSpelling spelling ∉ params) :
    ∀ name ∈ params, ¬t.Names text name := by
  rintro name hname (⟨hkind', hspelling⟩ | ⟨hkind', -, -, -⟩)
  · cases hkind.symm.trans hkind'
    exact hfree (hspelling ▸ hname)
  · cases hkind.symm.trans hkind'

theorem not_names_of_kind {params : List Name} (hident : ∀ spelling, t.kind ≠ .ident spelling)
    (hunit : ∀ symbols, t.kind ≠ .unit symbols) : ∀ name ∈ params, ¬t.Names text name := by
  rintro name - (⟨hkind, -⟩ | ⟨hkind, -, -, -⟩)
  · exact hident _ hkind
  · exact hunit _ hkind

theorem not_mem_of_not_isParameter (hmode : scope.mode = .equation)
    (h : ∀ i, ¬scope.IsParameter name i) : name ∉ scope.parameters := by
  apply List.idxOf?_eq_none_iff.1
  cases hfound : scope.parameters.idxOf? name with
  | none => rfl
  | some i => exact absurd ⟨hmode, hfound⟩ (h i)

theorem keeps_of_becomes (hmode : scope.mode = .equation) (hnodup : scope.parameters.Nodup)
    (hplain : t.Plain scope.parameters text) (h : t.Becomes scope l) :
    t.Keeps scope.parameters text l := by
  cases h with
  | const | command | sqrt | one => exact keeps_of_free (not_names_of_kind nofun nofun) nofun
  | unit =>
    refine keeps_of_free ?_ nofun
    rintro name hname (⟨hkind, -⟩ | ⟨hkind, hcovers, hbare, hspelling⟩)
    · cases hkind
    · exact hplain _ _ hkind hcovers hbare (hspelling ▸ hname)
  | parameter h =>
    have hplace := (Scope.parameter?_eq_some_iff hnodup).1 h.2
    constructor
    · rintro j name hname (⟨hkind, hspelling⟩ | ⟨hkind, -, -, -⟩)
      · cases hkind
        subst hspelling
        cases h.2.symm.trans ((Scope.parameter?_eq_some_iff hnodup).2 hname)
        rfl
      · cases hkind
    · rintro _ _ _ ⟨⟩
      exact ⟨hplace, .identifier rfl rfl⟩
  | var h hfree =>
    refine keeps_of_free
      (not_names_of_identifier rfl (not_mem_of_not_isParameter hmode h)) ?_
    rintro span i name ⟨⟩
    exact hfree i rfl
  | unitName h | call h =>
    exact keeps_of_free (not_names_of_identifier rfl (not_mem_of_not_isParameter hmode h)) nofun

end

/-! ## Words of the body -/

/-- A word of an accepted body that is taken for a unit is no parameter. -/
theorem plain_of_hiddenParameter? {t : UnitTable} {heads : List (Name × Span)}
    (hhidden : Document.hiddenParameter? t (heads.map Prod.fst) (heads.map Prod.snd) = none)
    {text : String} {ts : List Token} (hts : tokens ⟨.equation, t.readsAsUnit⟩ text = .ok ts)
    {u : Token} (hu : u ∈ ts) : u.Plain (heads.map Prod.fst) text.toList := by
  intro symbols covered hkind hcovers hbare hmem
  obtain ⟨covered', -, hcovers', hword⟩ :=
    Scan.covers_of_tokens (Scan.nextPiece_unitWord t.readsAsUnit) hts hu
  obtain rfl := hcovers.unique hcovers'
  have hunit : t.readsAsUnit (String.ofList covered) :=
    hword symbols (congrArg Meaning.token hkind) hbare
  rw [← String.toList_ofList (l := covered)] at hbare
  rw [hbare.ofSpelling] at hmem
  obtain ⟨⟨param, span⟩, hhead, rfl⟩ := List.mem_map.1 hmem
  rw [Document.hiddenParameter?, ← List.zip_of_prod rfl rfl] at hhidden
  have hnone := List.find?_eq_none.1 hhidden _ hhead
  simp [hbare.isDecorated, hunit] at hnone

namespace Document

theorem parse_eq_ok {d : Document} {f : Fragment} {params : List Name} {e : Expr}
    (h : d.parse f params = .ok e) :
    Expr.parse (d.registry.scope d.table params) f.text = .ok (some e) := by
  unfold parse at h
  split at h
  · rename_i hparse
    cases h
    exact hparse
  · cases h
  · cases h

/-- The leaves of the body are those of the tokens of its text, and those with the name of a
parameter are the parameter. -/
def KeepsParameters (d : Document) (params : List Name) (text : String) (body : Expr) : Prop :=
  ∃ ts ps ls, tokens ⟨.equation, d.table.readsAsUnit⟩ text = .ok ts ∧
    Cut (Expr.PartOf ps body) ts ps ∧
    List.Forall₂ (Token.Keeps params text.toList) (ps.filter fun t => t.kind.hasLeaf) ls ∧
    ls.Perm body.leaves

theorem keepsParameters_of_parse {d : Document} {heads : List (Name × Span)} {body : Fragment}
    {e : Expr} (hnodup : (heads.map Prod.fst).Nodup)
    (hhidden : hiddenParameter? d.table (heads.map Prod.fst) (heads.map Prod.snd) = none)
    (hparse : d.parse body (heads.map Prod.fst) = .ok e) :
    d.KeepsParameters (heads.map Prod.fst) body.text e := by
  obtain ⟨ts, ps, hts, hmade, hcut⟩ := Expr.parse_madeOf (parse_eq_ok hparse)
  obtain ⟨ls, hbecomes, hperm⟩ := hmade.yields
  have hplain : ∀ t ∈ ps.filter fun t => t.kind.hasLeaf,
      t.Plain (heads.map Prod.fst) body.text.toList := by
    intro t ht symbols covered hkind
    have hmem : t ∈ ts := hcut.mem_of_not_num (List.mem_filter.1 ht).1 (by rw [hkind]; nofun)
    exact plain_of_hiddenParameter? hhidden hts hmem symbols covered hkind
  refine ⟨ts, ps, ls, hts, hcut, ?_, hperm⟩
  have hboth := (List.forall₂_and_left _ _).2 ⟨hplain, hbecomes⟩
  exact hboth.imp fun t l h => keeps_of_becomes rfl hnodup h.1 h.2

/-- After any statements, a definition that does not fail has no parameter twice, and its function
has a body in which every identifier and every word with the name of a parameter is that parameter,
and nothing else is. -/
theorem parameters_kept (t : UnitTable) (settings : Settings)
    (steps : List (String × Option String)) (text : String) (hint : Option String)
    {parsed : ParsedStatement} {name body : Fragment} {params : List Name} {spans : List Span}
    (hparsed : Statement.parse text = .ok parsed)
    (hdefinition : parsed.statement = .definition name params spans body) :
    let d := (({ table := t, settings } : Document).processEach steps).2
    (d.process text hint).1.hasErrors = false →
      params.Nodup ∧ ∃ entry f,
        (d.process text hint).2.registry.lookup (.ofSpelling name.trimmed) = some entry ∧
          entry.binder = .function f ∧ f.params = params ∧
          d.KeepsParameters params body.text f.body := by
  intro d hdone
  have hempty : ({ table := t, settings } : Document).registry.Indexed := Registry.indexed_empty
  have hd : d.registry.Indexed := processEach_indexed hempty steps
  have hdistinct := (Statement.parse_distinct text).result hparsed
  rw [hdefinition] at hdistinct
  obtain ⟨heads, rfl, rfl, hnodup⟩ := hdistinct
  have hends := process_ends d text hint
  generalize d.process text hint = result at hends hdone ⊢
  cases hends with
  | failed => cases hdone
  | succeeded hparsed' hrun =>
    cases hparsed.symm.trans hparsed'
    rw [hdefinition] at hrun
    cases run_eq_ok_iff.1 hrun with
    | @definition _ _ _ _ e hhidden hparse =>
      obtain ⟨entry, hlookup, -, hbinder⟩ := hd.lookup_bind name.trimmed
        (.function ⟨.ofSpelling name.trimmed, heads.map Prod.fst, e, Registry.trimmed body.text⟩)
      exact ⟨hnodup, entry, _, hlookup, hbinder, rfl,
        keepsParameters_of_parse hnodup hhidden hparse⟩

/-- A function with a parameter that is called like a unit, and one that is spelled in two ways. -/
theorem parameters_kept_metres :
    let text := "f(m,x_\x7b1\x7d) := m(2)+x_1 km"
    ∃ parsed name params spans body, Statement.parse text = .ok parsed ∧
      parsed.statement = .definition name params spans body ∧
      ((fresh {}).process text none).1.hasErrors = false ∧ params.Nodup ∧ ∃ entry f,
        ((fresh {}).process text none).2.registry.lookup (.ofSpelling name.trimmed) = some entry ∧
          entry.binder = .function f ∧ f.params = params ∧
          (fresh {}).KeepsParameters params body.text f.body := by
  intro text
  let name : Fragment := ⟨"f", 0⟩
  let params : List Name := [⟨"m"⟩, ⟨"x_1"⟩]
  let spans : List Span := [Span.ofBytes 2 3, Span.ofBytes 4 9]
  let body : Fragment := ⟨" m(2)+x_1 km", 13⟩
  let parsed : ParsedStatement := ⟨.definition name params spans body, text⟩
  have hparsed : Statement.parse text = .ok parsed := by decide +kernel
  have hdone : ((fresh {}).process text none).1.hasErrors = false := by
    rw [fresh_eq_listed]
    decide +kernel
  exact ⟨parsed, name, params, spans, body, hparsed, rfl, hdone,
    parameters_kept .standard {} [] text none hparsed rfl hdone⟩

end Document

end Worksheet
