import Worksheet.Proofs.Expr.Composition
import Worksheet.Proofs.Token.Tiling
/-!
# Spans of trees

Every node of a tree has a span of its own in the text, around those of its children, which follow
each other there. Only an n-th root is turned around: it is a power whose exponent is written
before its base, and the number 1 over the degree stands where the command does.
-/

namespace Worksheet

open Text

/-! ## Tokens in a row -/

theorem utf8Size_of_isDigit {c : Char} (h : c.isDigit) : c.utf8Size = 1 := by
  have hcodes : ∀ n ∈ List.range' 48 10, (Char.ofNat n).utf8Size = 1 := by decide
  have hdigit := hcodes c.toNat (mem_range'_of_isDigit h)
  rwa [Char.ofNat_toNat] at hdigit

theorem byteSize_pos_of_ne_nil {cs : List Char} (h : cs ≠ []) : 0 < byteSize cs := by
  obtain ⟨c, cs, rfl⟩ := List.exists_cons_of_ne_nil h
  rw [byteSize_cons]
  exact Nat.add_pos_left c.utf8Size_pos _

/-- The tokens lie one behind the other between two positions, none of them is empty, and the
commands for roots are those of the text. -/
structure Row (ts : List Token) (lo hi : Nat) (ps : List Token) : Prop where
  spread : Spread lo hi ps
  solid : ∀ t ∈ ps, t.start < t.stop
  roots : ∀ t ∈ ps, t.kind = .sqrt → t ∈ ts

section

variable {ts us ps qs : List Token} {t o c : Token} {lo hi hi' : Nat} {taken : Token → Prop}

theorem spread_append : Spread lo hi (ps ++ qs) ↔ ∃ mid, Spread lo mid ps ∧ Spread mid hi qs := by
  induction ps generalizing lo with
  | nil =>
    constructor
    · exact fun h => ⟨lo, Nat.le_refl lo, h⟩
    · rintro ⟨mid, hmid, h⟩
      exact h.lower hmid
  | cons t ps ih =>
    constructor
    · rintro ⟨hlo, hstop, hroom, h⟩
      obtain ⟨mid, hps, hqs⟩ := ih.1 h
      exact ⟨mid, ⟨hlo, hstop, hroom, hps⟩, hqs⟩
    · rintro ⟨mid, ⟨hlo, hstop, hroom, hps⟩, hqs⟩
      exact ⟨hlo, hstop, hroom, ih.2 ⟨mid, hps, hqs⟩⟩

theorem Spread.mono (h : Spread lo hi ps) (hhi : hi ≤ hi') : Spread lo hi' ps := by
  induction ps generalizing lo with
  | nil => exact Nat.le_trans h hhi
  | cons t ps ih => exact ⟨h.1, h.2.1, h.2.2.1, ih h.2.2.2⟩

theorem Row.cons (h : Row ts lo hi (t :: ps)) :
    lo ≤ t.start ∧ t.start < t.stop ∧ Row ts t.stop hi ps :=
  ⟨h.spread.1, h.solid t List.mem_cons_self, h.spread.2.2.2,
    fun u hu => h.solid u (List.mem_cons_of_mem t hu),
    fun u hu => h.roots u (List.mem_cons_of_mem t hu)⟩

theorem Row.append (h : Row ts lo hi (ps ++ qs)) :
    ∃ mid, Row ts lo mid ps ∧ Row ts mid hi qs := by
  obtain ⟨mid, hps, hqs⟩ := spread_append.1 h.spread
  obtain ⟨hsolid, hsolid'⟩ := List.forall_mem_append.1 h.solid
  obtain ⟨hroots, hroots'⟩ := List.forall_mem_append.1 h.roots
  exact ⟨mid, ⟨hps, hsolid, hroots⟩, ⟨hqs, hsolid', hroots'⟩⟩

theorem Row.le (h : Row ts lo hi ps) : lo ≤ hi := h.spread.le

theorem Row.enclosed (h : Row ts lo hi (o :: (ps ++ c :: qs))) :
    lo ≤ o.start ∧ o.start < o.stop ∧ Row ts o.stop c.start ps ∧ c.start < c.stop ∧
      Row ts c.stop hi qs := by
  obtain ⟨hlo, hopener, h⟩ := h.cons
  obtain ⟨mid, hps, h⟩ := h.append
  obtain ⟨hmid, hcloser, hqs⟩ := h.cons
  exact ⟨hlo, hopener, { hps with spread := hps.spread.mono hmid }, hcloser, hqs⟩

theorem row_append (h : ∃ mid, Row ts lo mid ps ∧ Row ts mid hi qs) : Row ts lo hi (ps ++ qs) := by
  obtain ⟨mid, hps, hqs⟩ := h
  exact ⟨spread_append.2 ⟨mid, hps.spread, hqs.spread⟩,
    List.forall_mem_append.2 ⟨hps.solid, hqs.solid⟩,
    List.forall_mem_append.2 ⟨hps.roots, hqs.roots⟩⟩

/-- The pieces of a number have the room of the number. -/
theorem Token.Pieces.row (h : t.Pieces taken ps) (ht : Row ts lo hi [t]) : Row ts lo hi ps := by
  induction h generalizing lo with
  | whole => exact ht
  | @digit number others digit start stop ps hdigit hnumber hmore _ _ ih =>
    obtain ⟨hlo, hstop, hroom, hhi⟩ := ht.spread
    have hsize : byteSize number.toList = 1 + byteSize others.toList := by
      rw [hnumber, byteSize_cons, utf8Size_of_isDigit hdigit]
    have hothers := byteSize_pos_of_ne_nil hmore
    have hnumberRoom : start + byteSize number.toList ≤ stop := hroom number rfl
    have hrest : Row ts (start + 1) hi [⟨.num others, start + 1, stop⟩] := by
      refine ⟨⟨Nat.le_refl _, ?_, ?_, hhi⟩, ?_, ?_⟩
      · dsimp only
        omega
      · rintro _ ⟨⟩
        dsimp only
        omega
      · rintro u hu
        rw [List.mem_singleton.1 hu]
        dsimp only
        omega
      · rintro u hu hkind
        rw [List.mem_singleton.1 hu] at hkind
        cases hkind
    have hps := ih hrest
    refine ⟨⟨hlo, Nat.le_succ start, ?_, hps.spread⟩, ?_, ?_⟩
    · rintro _ ⟨⟩
      rw [String.toList_singleton, byteSize_cons, byteSize_nil, utf8Size_of_isDigit hdigit]
    · exact List.forall_mem_cons.2 ⟨Nat.lt_succ_self start, hps.solid⟩
    · exact List.forall_mem_cons.2 ⟨nofun, hps.roots⟩

theorem Cut.row (h : Cut taken us ps) (hus : Row ts lo hi us) : Row ts lo hi ps := by
  induction h generalizing lo with
  | nil => exact hus
  | @cons t us front ps first _ ih =>
    have hus : Row ts lo hi ([t] ++ us) := hus
    obtain ⟨mid, hfirst, hothers⟩ := hus.append
    exact row_append ⟨mid, first.row hfirst, ih hothers⟩

end

/-- The tokens of a text are in a row. -/
theorem row_of_tokens {rules : ScanRules} {text : String} {ts : List Token}
    (h : tokens rules text = .ok ts) : Row ts 0 (byteSize text.toList) ts where
  spread := (tokens_meets rules text).result h
  solid t ht := by
    obtain ⟨covered, hne, hcovers, -⟩ := Scan.covers_of_tokens (Scan.nextPiece_spells rules) h ht
    exact hcovers.start_lt hne
  roots t ht _ := ht

/-! ## Trees -/

/-- The first span ends where the second one begins, or before. -/
def Span.Before (s s' : Span) : Prop := s.stop ≤ s'.start

/-- The second span lies in the first one. -/
structure Span.Encloses (s s' : Span) : Prop where
  begins : s.start ≤ s'.start
  ends : s'.stop ≤ s.stop

namespace Expr

/-- An n-th root of the text: the command stands before the degree, and the degree before what the
root is taken of. -/
structure RootOf (ts : List Token) (e : Expr) (command : Token) (degree radicand : Expr) :
    Prop where
  mem : command ∈ ts
  kind : command.kind = .sqrt
  node : e.Node (rootPower command degree radicand)
  before : command.stop ≤ degree.span.start
  behind : degree.span.Before radicand.span

/-- How a node of a tree has its place among the others. -/
structure Nests (ts : List Token) (e n : Expr) : Prop where
  solid : n.span.start < n.span.stop
  encloses : ∀ c ∈ n.children, n.span.Encloses c.span ∨
    ∃ command degree radicand, RootOf ts e command degree radicand ∧
      n = rootQuotient command degree ∧
      c = const (Span.ofBytes command.start command.stop) "1" 1
  ordered : n.children.Pairwise (fun a b => a.span.Before b.span) ∨
    ∃ command degree radicand, RootOf ts e command degree radicand ∧
      n = rootPower command degree radicand

/-- The nodes of a part of a tree have their place in it, up to a position. -/
def Settled (ts : List Token) (e : Expr) (hi : Nat) (part : Expr) : Prop :=
  ∀ n, part.Node n → n.span.stop ≤ hi ∧ Nests ts e n

/-- The tree lies between two positions, and all that is in it lies within its span. -/
structure Laid (ts : List Token) (lo hi : Nat) (e : Expr) : Prop where
  begins : lo ≤ e.span.start
  ends : e.span.stop ≤ hi
  nodes : Settled ts e e.span.stop e

section

variable {ts : List Token} {e e' n c left right : Expr} {lo hi lo' hi' a b : Nat}

theorem RootOf.within {command : Token} {degree radicand : Expr}
    (h : RootOf ts e command degree radicand) (hnode : e'.Node e) :
    RootOf ts e' command degree radicand :=
  { h with node := hnode.trans h.node }

theorem Nests.within (h : Nests ts e n) (hnode : e'.Node e) : Nests ts e' n where
  solid := h.solid
  encloses c hc := (h.encloses c hc).imp_right
    fun ⟨command, degree, radicand, hroot, hn⟩ =>
      ⟨command, degree, radicand, hroot.within hnode, hn⟩
  ordered := h.ordered.imp_right fun ⟨command, degree, radicand, hroot, hn⟩ =>
    ⟨command, degree, radicand, hroot.within hnode, hn⟩

theorem settled_of_children (hroot : n.span.stop ≤ hi) (hnests : Nests ts e n)
    (hchildren : ∀ c ∈ n.children, Settled ts e hi c) : Settled ts e hi n := by
  intro m hm
  rcases Relation.ReflTransGen.cases_head hm with rfl | ⟨c, hc, hm⟩
  · exact ⟨hroot, hnests⟩
  · exact hchildren c hc m hm

theorem Laid.settled (h : Laid ts lo b c) (hnode : e.Node c) (hhi : b ≤ hi) :
    Settled ts e hi c := by
  intro m hm
  obtain ⟨hstop, hnests⟩ := h.nodes m hm
  refine ⟨?_, hnests.within hnode⟩
  calc m.span.stop ≤ c.span.stop := hstop
    _ ≤ b := h.ends
    _ ≤ hi := hhi

theorem Laid.solid (h : Laid ts lo hi e) : e.span.start < e.span.stop := (h.nodes e .refl).2.solid

theorem Laid.mono (h : Laid ts lo hi e) (hlo : lo' ≤ lo) (hhi : hi ≤ hi') : Laid ts lo' hi' e :=
  ⟨Nat.le_trans hlo h.begins, Nat.le_trans h.ends hhi, h.nodes⟩

theorem Laid.le (h : Laid ts lo hi e) : lo ≤ hi := by
  have hsolid := h.solid
  have hbegins := h.begins
  have hends := h.ends
  omega

/-- Between the ends of its own span. -/
theorem Laid.tight (h : Laid ts lo hi e) : Laid ts e.span.start e.span.stop e :=
  ⟨Nat.le_refl _, Nat.le_refl _, h.nodes⟩

/-- A node of the text, whose children follow each other in its span. -/
theorem laid_of_children (hspan : e.span = ⟨a, b⟩) (hlo : lo ≤ a) (hab : a < b) (hhi : b ≤ hi)
    (hchildren : ∀ c ∈ e.children, Laid ts a b c)
    (hordered : e.children.Pairwise fun c d => c.span.Before d.span) : Laid ts lo hi e := by
  have hnests : Nests ts e e := by
    refine ⟨?_, fun c hc => .inl ?_, .inl hordered⟩
    · rw [hspan]
      exact hab
    · rw [hspan]
      exact ⟨(hchildren c hc).begins, (hchildren c hc).ends⟩
  refine ⟨?_, ?_, settled_of_children (Nat.le_refl _) hnests fun c hc => ?_⟩
  · rw [hspan]
    exact hlo
  · rw [hspan]
    exact hhi
  · rw [hspan]
    exact (hchildren c hc).settled (node_child hc) (Nat.le_refl b)

theorem ofBytes_eq (hab : a ≤ b) (hb : b ≤ lastPosition) : Span.ofBytes a b = ⟨a, b⟩ := by
  unfold Span.ofBytes pin
  rw [Nat.min_eq_left (Nat.le_trans hab hb), Nat.min_eq_left hb]

theorem laid_leaf (hspan : e.span = ⟨a, b⟩) (hlo : lo ≤ a) (hab : a < b) (hhi : b ≤ hi)
    (hchildren : e.children = []) : Laid ts lo hi e :=
  laid_of_children hspan hlo hab hhi (by simp [hchildren]) (by simp [hchildren])

theorem laid_only (hspan : e.span = ⟨a, b⟩) (hlo : lo ≤ a) (hab : a < b) (hhi : b ≤ hi)
    (hchildren : e.children = [c]) (hc : Laid ts a b c) : Laid ts lo hi e := by
  refine laid_of_children hspan hlo hab hhi ?_ ?_
  · rw [hchildren]
    exact List.forall_mem_singleton.2 hc
  · rw [hchildren]
    exact List.pairwise_singleton _ _

theorem laid_pair (hspan : e.span = ⟨a, b⟩) (hlo : lo ≤ a) (hab : a < b) (hhi : b ≤ hi)
    (hchildren : e.children = [left, right]) (hleft : Laid ts a b left)
    (hright : Laid ts a b right) (h : left.span.Before right.span) : Laid ts lo hi e := by
  refine laid_of_children hspan hlo hab hhi ?_ ?_
  · rw [hchildren]
    exact List.forall_mem_cons.2 ⟨hleft, List.forall_mem_singleton.2 hright⟩
  · rw [hchildren]
    exact List.pairwise_pair.2 h

theorem Laid.join {mid : Nat} {op : BinaryOp} (hleft : Laid ts lo mid left)
    (hright : Laid ts lo' hi right) (hmid : mid ≤ lo') : Laid ts lo hi (join op left right) := by
  have hsolid := hleft.solid
  have hsolid' := hright.solid
  have hends := hleft.ends
  have hbegins := hright.begins
  have hspan : (Expr.join op left right).span = ⟨left.span.start, right.span.stop⟩ := by
    show left.span.union right.span = _
    rw [Span.union, Nat.min_eq_left (by omega), Nat.max_eq_right (by omega)]
  refine laid_pair hspan hleft.begins (by omega) hright.ends rfl
    (hleft.tight.mono (Nat.le_refl _) (by omega)) (hright.tight.mono (by omega) (Nat.le_refl _)) ?_
  show left.span.stop ≤ right.span.start
  omega

/-- Something that begins with a token and ends where its only child does. -/
theorem laid_prefixed {t : Token} (hspan : e.span = Span.ofBytes t.start c.span.stop)
    (hchildren : e.children = [c]) (hlo : lo ≤ t.start) (hsolid : t.start < t.stop)
    (hc : Laid ts t.stop hi c) (hlast : hi ≤ lastPosition) : Laid ts lo hi e := by
  have hbegins := hc.begins
  have hsolid' := hc.solid
  have hends := hc.ends
  rw [ofBytes_eq (by omega) (by omega)] at hspan
  exact laid_only hspan hlo (by omega) hends hchildren (hc.tight.mono (by omega) (Nat.le_refl _))

/-- Something whose children are before its last token. -/
theorem laid_enclosed {first last stop : Nat} (hspan : e.span = Span.ofBytes first stop)
    (hlo : lo ≤ first) (hfirst : first ≤ a) (hle : a ≤ last) (hstop : last < stop) (hhi : stop ≤ hi)
    (hlast : hi ≤ lastPosition) (hchildren : ∀ c ∈ e.children, Laid ts a last c)
    (hordered : e.children.Pairwise fun c d => c.span.Before d.span) : Laid ts lo hi e := by
  rw [ofBytes_eq (by omega) (by omega)] at hspan
  exact laid_of_children hspan hlo (by omega) hhi
    (fun c hc => (hchildren c hc).mono hfirst (Nat.le_of_lt hstop)) hordered

/-! ## Roots -/

theorem laid_const {literal : String} {value : Float} (hlo : lo ≤ a) (hab : a < b) (hhi : b ≤ hi)
    (hlast : b ≤ lastPosition) : Laid ts lo hi (const (Span.ofBytes a b) literal value) :=
  laid_leaf (ofBytes_eq (Nat.le_of_lt hab) hlast) hlo hab hhi rfl

/-- The number 1 is out of place, but not what it is divided by. -/
theorem settled_quotient {command : Token} {degree radicand : Expr}
    (hroot : RootOf ts e command degree radicand) (hcommand : command.start < command.stop)
    (hdegree : Laid ts lo b degree) (hb : b ≤ hi) (hlast : hi ≤ lastPosition)
    (hnode : e.Node (rootQuotient command degree)) :
    Settled ts e hi (rootQuotient command degree) := by
  have hsolid := hdegree.solid
  have hends := hdegree.ends
  have hbefore := hroot.before
  have hone : Laid ts command.start command.stop
      (const (Span.ofBytes command.start command.stop) "1" 1) :=
    laid_const (Nat.le_refl _) hcommand (Nat.le_refl _) (by omega)
  refine settled_of_children ?_ ⟨hsolid, ?_, .inl ?_⟩ ?_
  · show degree.span.stop ≤ hi
    omega
  · refine List.forall_mem_cons.2 ⟨.inr ⟨command, degree, radicand, hroot, rfl, rfl⟩, ?_⟩
    exact List.forall_mem_singleton.2 (.inl ⟨Nat.le_refl _, Nat.le_refl _⟩)
  · exact List.pairwise_pair.2 (Nat.le_trans hone.ends hbefore)
  · refine List.forall_mem_cons.2 ⟨?_, List.forall_mem_singleton.2 ?_⟩
    · exact hone.settled (hnode.tail List.mem_cons_self) (by omega)
    · exact hdegree.settled (hnode.tail (List.mem_cons_of_mem _ List.mem_cons_self)) hb

/-- The power that stands for a root, whose exponent is before its base. -/
theorem laid_root {command : Token} {degree radicand : Expr} (hmem : command ∈ ts)
    (hkind : command.kind = .sqrt) (hlo : lo ≤ command.start)
    (hcommand : command.start < command.stop) (hdegree : Laid ts command.stop a degree)
    (hradicand : Laid ts a hi radicand) (hlast : hi ≤ lastPosition) :
    Laid ts lo hi (rootPower command degree radicand) := by
  have hsolid := hdegree.solid
  have hsolid' := hradicand.solid
  have hbefore := hdegree.begins
  have hends := hdegree.ends
  have hbehind := hradicand.begins
  have hhi := hradicand.ends
  have hroot : RootOf ts (rootPower command degree radicand) command degree radicand :=
    ⟨hmem, hkind, .refl, hbefore, Nat.le_trans hends hbehind⟩
  have hspan : (rootPower command degree radicand).span = ⟨command.start, radicand.span.stop⟩ :=
    ofBytes_eq (by omega) (by omega)
  have hquotient : Settled ts (rootPower command degree radicand) radicand.span.stop
      (rootQuotient command degree) :=
    settled_quotient hroot hcommand hdegree.tight (by omega) (by omega)
      (node_quotient command degree radicand)
  refine ⟨?_, ?_, settled_of_children (Nat.le_refl _) ?_ ?_⟩
  · rw [hspan]
    exact hlo
  · rw [hspan]
    exact hhi
  · refine ⟨?_, ?_, .inr ⟨command, degree, radicand, hroot, rfl⟩⟩
    · rw [hspan]
      show command.start < radicand.span.stop
      omega
    · rw [hspan]
      refine List.forall_mem_cons.2 ⟨.inl ?_, List.forall_mem_singleton.2 (.inl ?_)⟩
      · exact ⟨by dsimp only; omega, Nat.le_refl _⟩
      · exact ⟨by show command.start ≤ degree.span.start; omega,
          by show degree.span.stop ≤ radicand.span.stop; omega⟩
  · rw [hspan]
    refine List.forall_mem_cons.2 ⟨?_, List.forall_mem_singleton.2 ?_⟩
    · exact hradicand.tight.settled (node_radicand command degree radicand) (Nat.le_refl _)
    · refine settled_of_children ?_ ⟨hsolid, ?_, .inl (List.pairwise_singleton _ _)⟩ ?_
      · show degree.span.stop ≤ radicand.span.stop
        omega
      · exact List.forall_mem_singleton.2 (.inl ⟨Nat.le_refl _, Nat.le_refl _⟩)
      · exact List.forall_mem_singleton.2 hquotient

/-! ## Composed trees -/

/-- The parts of a list follow each other. -/
theorem Listing.laid {parts : List (List Token × Expr)} {ks : List Token} (h : Listing parts ks)
    (hparts : ∀ p ∈ parts, ∀ {lo hi}, hi ≤ lastPosition → Row ts lo hi p.1 → Laid ts lo hi p.2)
    (hlast : hi ≤ lastPosition) (hrow : Row ts lo hi ks) :
    (∀ e ∈ parts.map Prod.snd, Laid ts lo hi e) ∧
      (parts.map Prod.snd).Pairwise fun c d => c.span.Before d.span := by
  induction h generalizing lo with
  | nil => exact ⟨nofun, .nil⟩
  | one =>
    exact ⟨List.forall_mem_singleton.2 (hparts _ List.mem_cons_self hlast hrow),
      List.pairwise_singleton _ _⟩
  | @more c p q parts ks _ _ ih =>
    obtain ⟨hfirst, hothers⟩ := List.forall_mem_cons.1 hparts
    obtain ⟨mid, hp, hrow⟩ := hrow.append
    obtain ⟨hmid, hsolid, hks⟩ := hrow.cons
    have hle := hks.le
    have hlo := hp.le
    have hp := hfirst (by omega) hp
    obtain ⟨hlaid, hordered⟩ := ih hothers hks
    constructor
    · refine List.forall_mem_cons.2 ⟨hp.mono (Nat.le_refl _) (by omega), fun e he => ?_⟩
      exact (hlaid e he).mono (by omega) (Nat.le_refl _)
    · refine List.pairwise_cons.2 ⟨fun e he => ?_, hordered⟩
      calc p.2.span.stop ≤ mid := hp.ends
        _ ≤ c.start := hmid
        _ ≤ c.stop := Nat.le_of_lt hsolid
        _ ≤ e.span.start := (hlaid e he).begins

theorem MadeOf.laid {scope : Scope} {ps : List Token} (h : MadeOf scope ps e)
    (hlast : hi ≤ lastPosition) (hrow : Row ts lo hi ps) : Laid ts lo hi e := by
  induction h generalizing lo hi with
  | const =>
    obtain ⟨hlo, hsolid, hrest⟩ := hrow.cons
    exact laid_const hlo hsolid hrest.le (Nat.le_trans hrest.le hlast)
  | unit =>
    obtain ⟨hlo, hsolid, hrest⟩ := hrow.cons
    exact laid_leaf (ofBytes_eq (Nat.le_of_lt hsolid) (Nat.le_trans hrest.le hlast)) hlo hsolid
      hrest.le rfl
  | @name spelling start stop called e huse =>
    obtain ⟨hlo, hsolid, hrest⟩ := hrow.cons
    have hmeans := useOf_means scope spelling (Span.ofBytes start stop) called
    rw [huse] at hmeans
    obtain ⟨hspan, hchildren, -⟩ := hmeans
    rw [ofBytes_eq (Nat.le_of_lt hsolid) (Nat.le_trans hrest.le hlast)] at hspan
    exact laid_leaf hspan hlo hsolid hrest.le hchildren
  | call hcalls _ _ _ hlist ih =>
    obtain ⟨hlo, hsolid, hrow⟩ := hrow.cons
    obtain ⟨ho, hopener, hks, hcloser, hrest⟩ := hrow.enclosed
    have hhi := hrest.le
    have hle := hks.le
    obtain ⟨hargs, hordered⟩ := hlist.laid ih (Nat.le_trans (Nat.le_of_lt hcloser) (by omega)) hks
    exact laid_enclosed rfl hlo (by omega) hle hcloser hhi hlast hargs hordered
  | command _ _ ih =>
    obtain ⟨hlo, hsolid, hps⟩ := hrow.cons
    exact laid_prefixed rfl rfl hlo hsolid (ih hlast hps) hlast
  | @fraction t ps qs numerator denominator _ _ _ ih ih' =>
    obtain ⟨hlo, hsolid, hrow⟩ := hrow.cons
    obtain ⟨mid, hps, hqs⟩ := hrow.append
    have hmid := hqs.le
    have hnumerator := ih (by omega) hps
    have hdenominator := ih' hlast hqs
    have hbetween := hnumerator.ends
    have hbegins := hdenominator.begins
    have hsolid' := hdenominator.solid
    have hends := hdenominator.ends
    have hstop := hps.le
    refine laid_pair (ofBytes_eq (by omega) (by omega)) hlo (by omega) hends rfl
      (hnumerator.mono (by omega) (by omega))
      (hdenominator.tight.mono (by omega) (Nat.le_refl _)) ?_
    exact Nat.le_trans hbetween hbegins
  | sqrt _ _ ih =>
    obtain ⟨hlo, hsolid, hps⟩ := hrow.cons
    exact laid_prefixed rfl rfl hlo hsolid (ih hlast hps) hlast
  | @root t o c ps qs degree radicand ht ho hc _ _ ih ih' =>
    have hmem := hrow.roots t List.mem_cons_self ht
    obtain ⟨hlo, hsolid, hrow⟩ := hrow.cons
    obtain ⟨hstart, hopener, hps, hcloser, hqs⟩ := hrow.enclosed
    have hhi := hqs.le
    have hle := hps.le
    have hdegree : Laid ts t.stop c.stop degree :=
      (ih (by omega) hps).mono (by omega) (Nat.le_of_lt hcloser)
    exact laid_root hmem ht hlo hsolid hdegree (ih' hlast hqs) hlast
  | group _ _ _ ih =>
    obtain ⟨hlo, hopener, hps, hcloser, hrest⟩ := hrow.enclosed
    have hhi := hrest.le
    exact laid_enclosed rfl hlo (Nat.le_of_lt hopener) hps.le hcloser hhi hlast
      (List.forall_mem_singleton.2 (ih (by omega) hps)) (List.pairwise_singleton _ _)
  | array _ _ _ hlist ih =>
    obtain ⟨hlo, hopener, hks, hcloser, hrest⟩ := hrow.enclosed
    have hhi := hrest.le
    obtain ⟨helements, hordered⟩ :=
      hlist.laid ih (Nat.le_trans (Nat.le_of_lt hcloser) (by omega)) hks
    exact laid_enclosed rfl hlo (Nat.le_of_lt hopener) hks.le hcloser hhi hlast helements hordered
  | @index o c ps qs base position _ _ _ _ ih ih' =>
    obtain ⟨mid, hps, hrow⟩ := hrow.append
    obtain ⟨hmid, hopener, hqs, hcloser, hrest⟩ := hrow.enclosed
    have hhi := hrest.le
    have hle := hqs.le
    have hbase := ih (by omega) hps
    have hposition := ih' (by omega) hqs
    have hbegins := hbase.begins
    have hsolid := hbase.solid
    have hends := hbase.ends
    have hbegins' := hposition.begins
    refine laid_pair (ofBytes_eq (by omega) (by omega)) hbegins (by omega) hhi rfl
      (hbase.tight.mono (Nat.le_refl _) (by omega)) (hposition.mono (by omega) (by omega)) ?_
    show base.span.stop ≤ position.span.start
    omega
  | signed _ _ ih =>
    obtain ⟨hlo, hsolid, hps⟩ := hrow.cons
    exact laid_prefixed rfl rfl hlo hsolid (ih hlast hps) hlast
  | @operation t op ps qs left right ht _ _ ih ih' =>
    obtain ⟨mid, hps, hrow⟩ := hrow.append
    obtain ⟨hmid, hsolid, hqs⟩ := hrow.cons
    have hle := hqs.le
    exact (ih (by omega) hps).join (ih' hlast hqs) (by omega)
  | @product ps qs left right _ _ ih ih' =>
    obtain ⟨mid, hps, hqs⟩ := hrow.append
    have hle := hqs.le
    exact (ih (by omega) hps).join (ih' hlast hqs) (Nat.le_refl _)

end

/-- In a text that is not too long for spans, every node of the tree has a span that is not empty.
The spans of its children are in it, and each of them ends before the next one begins. An n-th root
has the radicand for its first child, and the number 1 of its exponent is the command. -/
theorem parse_nests {scope : Scope} {text : String} {e : Expr}
    (hsize : byteSize text.toList ≤ lastPosition) (h : parse scope text = .ok (some e)) :
    ∃ ts, tokens ⟨scope.mode, scope.isUnitWord⟩ text = .ok ts ∧
      ∀ n, e.Node n → n.span.stop ≤ byteSize text.toList ∧ Nests ts e n := by
  obtain ⟨ts, ps, hts, hmade, hcut⟩ := parse_madeOf h
  have hlaid := hmade.laid hsize (hcut.row (row_of_tokens hts))
  refine ⟨ts, hts, fun n hn => ?_⟩
  obtain ⟨hstop, hnests⟩ := hlaid.nodes n hn
  exact ⟨Nat.le_trans hstop hlaid.ends, hnests⟩

theorem parse_nests_root :
    let text := "2\\sqrt[3]\x7bx\x7d+\\max(1,[2,y])"
    byteSize text.toList ≤ lastPosition ∧ ∃ e, parse (.empty .equation) text = .ok (some e) ∧
      ∃ ts, tokens ⟨.equation, fun _ => false⟩ text = .ok ts ∧
        ∀ n, e.Node n → n.span.stop ≤ byteSize text.toList ∧ Nests ts e n := by
  intro text
  have hsize : byteSize text.toList ≤ lastPosition := by decide
  obtain ⟨e, he⟩ : ∃ e, parse (.empty .equation) text = .ok (some e) :=
    exists_of_isSome (by decide +kernel)
  exact ⟨hsize, e, he, parse_nests hsize he⟩

end Expr

end Worksheet
