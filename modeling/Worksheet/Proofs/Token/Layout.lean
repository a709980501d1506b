import Worksheet.Proofs.Span
import Worksheet.Proofs.Token.Scans
/-!
# Layout before a text

A command for a space or a style moves the tokens and errors of the text behind it and does nothing
else to them, unless it takes a point away that the text begins with.
-/

namespace Worksheet

open Text

def Token.shift (t : Token) (n : Nat) : Token :=
  { t with start := t.start + n, stop := t.stop + n }

def SourceError.shift (e : SourceError) (n : Nat) : SourceError :=
  { e with span := e.span.shift n }

namespace Scan

/-- A token or an error, behind so many bytes. -/
def shifted (n : Nat) : Except SourceError Token → Except SourceError Token
  | .ok t => .ok (t.shift n)
  | .error e => .error (e.shift n)

theorem ofBytes_add (a b n : Nat) : Span.ofBytes (a + n) (b + n) = (Span.ofBytes a b).shift n := by
  simp only [Span.ofBytes, Span.shift, pin_add_pin]

theorem place_add (start n : Nat) (ps : List Piece) :
    place (start + n) ps = (place start ps).map (shifted n) := by
  induction ps generalizing start with
  | nil => rfl
  | cons p ps ih =>
    have hstop : start + n + byteSize p.text = start + byteSize p.text + n := by omega
    rw [place, place, hstop, ih]
    cases p.meaning with
    | layout => rfl
    | token kind => rfl
    | misread fault =>
      dsimp only
      rw [Nat.add_right_comm start n, Nat.add_right_comm start n, ofBytes_add]
      rfl

/-! ## Where tokens and errors begin -/

/-- The position as a span holds it. -/
def startOf : Except SourceError Token → Nat
  | .ok t => pin t.start
  | .error e => e.span.start

theorem startOf_shifted (n : Nat) (x : Except SourceError Token) :
    startOf (shifted n x) = pin (startOf x + n) := by
  cases x with
  | ok t =>
    change pin (t.start + n) = pin (pin t.start + n)
    unfold pin
    omega
  | error e =>
    change pin (e.span.start + pin n) = pin (e.span.start + n)
    unfold pin
    omega

theorem le_startOf {start : Nat} {ps : List Piece} {x : Except SourceError Token}
    (h : x ∈ place start ps) : pin start ≤ startOf x := by
  induction ps generalizing start with
  | nil => cases h
  | cons p ps ih =>
    have hothers : x ∈ place (start + byteSize p.text) ps → pin start ≤ startOf x := fun h =>
      Nat.le_trans (pin_mono (Nat.le_add_right _ _)) (ih h)
    rw [place] at h
    cases hmeaning : p.meaning with
    | layout =>
      rw [hmeaning] at h
      exact hothers h
    | token kind =>
      rw [hmeaning] at h
      rcases List.mem_cons.1 h with rfl | h
      · exact Nat.le_refl _
      · exact hothers h
    | misread fault =>
      rw [hmeaning] at h
      rcases List.mem_cons.1 h with rfl | h
      · exact pin_mono (Nat.le_add_right _ _)
      · exact hothers h

variable {rules : ScanRules} {depth : Nat}

/-- A point begins a number or is an error, and so is never passed over. -/
theorem point_begins (rules : ScanRules) (cs : List Char) :
    ∃ x ∈ place 0 (pieces rules ('.' :: cs)), startOf x = 0 := by
  have hstart : startsName rules.mode '.' = false := by cases rules.mode <;> decide
  have hblank : isBlank '.' = false := by decide
  have hnext : nextPiece rules 0 '.' cs =
      (if startsNumber '.' cs then numberPiece '.' cs else .wrong ['.'] .malformedNumber, 0) := by
    rw [nextPiece.eq_def, if_neg (by decide)]
    simp [sign?, hblank, hstart]
  have hmeaning : ∀ p : Piece, p = (if startsNumber '.' cs then numberPiece '.' cs
      else .wrong ['.'] .malformedNumber) →
      (∃ kind, p.meaning = .token kind) ∨ ∃ code stop, p.meaning = .misread ⟨code, 0, stop⟩ := by
    rintro _ rfl
    split
    · unfold numberPiece
      split
      · exact .inr ⟨_, _, rfl⟩
      · split
        · exact .inl ⟨_, rfl⟩
        · exact .inr ⟨_, _, rfl⟩
    · exact .inr ⟨_, _, rfl⟩
  rw [pieces, piecesFrom, hnext]
  dsimp only
  rcases hmeaning _ rfl with ⟨kind, h⟩ | ⟨code, stop, h⟩ <;> rw [place, h] <;>
    exact ⟨_, List.mem_cons_self, rfl⟩

/-! ## Spaces and styles -/

def spacingSigns : List Char := [',', ';', ':', '!', ' ']

def spacingNames : List String := ["quad", "qquad", "displaystyle", "textstyle"]

/-- The commands for spaces and styles. -/
def spacings : List String :=
  "~" :: spacingSigns.map (fun s => String.ofList ['\\', s]) ++ spacingNames.map ("\\" ++ ·)

/-- A letter behind such a command would be one of its own. -/
def endsInLetter (c : String) : Bool := c.toList.getLast?.any Char.isAlpha

/-- What a command takes away from the text behind it: a point, as a command for the size of a
bracket does where there is no bracket to be seen. -/
def taken (c : String) : List Char → List Char
  | '.' :: _ => if endsInLetter c then ['.'] else []
  | _ => []

theorem taken_of_not_endsInLetter {c : String} (h : endsInLetter c = false) (rest : List Char) :
    taken c rest = [] := by
  unfold taken
  rw [h]
  split <;> rfl

theorem nextPiece_spacingSign {s : Char} (h : s ∈ spacingSigns) (rest : List Char) :
    nextPiece rules depth '\\' (s :: rest) = (.layout ['\\', s], depth) := by
  rcases rules with ⟨mode, isUnitWord⟩
  simp only [spacingSigns, List.mem_cons, List.not_mem_nil, or_false] at h
  rcases h with rfl | rfl | rfl | rfl | rfl <;> rfl

theorem nextPiece_spacingName {name : String} (h : name ∈ spacingNames) {rest : List Char}
    (hrest : Stops Char.isAlpha rest) :
    nextPiece rules depth '\\' (name.toList ++ rest) =
      (.layout ('\\' :: name.toList ++ taken ("\\" ++ name) rest), depth) := by
  have hnames : ∀ name ∈ spacingNames, name.toList ≠ [] ∧ (∀ c ∈ name.toList, c.isAlpha) ∧
      UnitText.wrappers.contains name = false ∧ layoutCommands.contains name ∧
      endsInLetter ("\\" ++ name) := by
    decide
  obtain ⟨hne, halpha, hwrapper, hlayout, hends⟩ := hnames name h
  rw [nextPiece_command hne halpha hrest]
  unfold commandPiece
  dsimp only
  rw [String.ofList_toList, hwrapper, hlayout, if_neg (by decide), if_pos rfl]
  split
  · rw [taken, if_pos hends]
  · rename_i hpoint
    rw [taken, List.append_nil]
    exact hpoint

/-- Such a command is layout, together with a point that it takes. -/
theorem nextPiece_spacing {c : String} (hc : c ∈ spacings) {rest : List Char}
    (hrest : endsInLetter c → Stops Char.isAlpha rest) :
    ∃ d ds, c.toList = d :: ds ∧
      nextPiece rules depth d (ds ++ rest) = (.layout (d :: ds ++ taken c rest), depth) := by
  rcases List.mem_append.1 hc with hc | hc
  · rcases List.mem_cons.1 hc with rfl | hsign
    · refine ⟨'~', [], rfl, ?_⟩
      rw [taken_of_not_endsInLetter (by decide), nextPiece.eq_def, if_neg (by decide)]
      simp [sign?]
    · obtain ⟨s, hs, rfl⟩ := List.mem_map.1 hsign
      have hends : ∀ s ∈ spacingSigns, endsInLetter (String.ofList ['\\', s]) = false := by decide
      refine ⟨'\\', [s], String.toList_ofList, ?_⟩
      rw [taken_of_not_endsInLetter (hends s hs)]
      exact nextPiece_spacingSign hs rest
  · obtain ⟨name, hname, rfl⟩ := List.mem_map.1 hc
    have hends : ∀ name ∈ spacingNames, endsInLetter ("\\" ++ name) := by decide
    refine ⟨'\\', name.toList, ?_, nextPiece_spacingName hname (hrest (hends name hname))⟩
    rw [String.toList_append]
    rfl

/-- What is behind the command is cut as if it stood alone. -/
theorem scan_spacing {c : String} (hc : c ∈ spacings) {t : String} {rest : List Char}
    (hletter : endsInLetter c → Stops Char.isAlpha t.toList)
    (hrest : t.toList = taken c t.toList ++ rest) :
    scan rules (c ++ t) =
      (place 0 (pieces rules rest)).map
        (shifted (byteSize c.toList + byteSize (taken c t.toList))) := by
  obtain ⟨d, ds, hd, hnext⟩ := @nextPiece_spacing rules 0 c hc t.toList hletter
  have hsize : byteSize (d :: ds ++ taken c t.toList) =
      byteSize c.toList + byteSize (taken c t.toList) := by rw [hd, byteSize_append]
  have hdrop : (ds ++ t.toList).drop ((d :: ds ++ taken c t.toList).length - 1) = rest := by
    rw [hrest, ← List.append_assoc, List.cons_append, List.length_cons, Nat.add_sub_cancel,
      ← hrest, List.drop_left]
  rw [scan, String.toList_append, hd, List.cons_append, pieces, piecesFrom, hnext]
  dsimp only [Piece.layout]
  rw [piecesFrom_drop, hdrop, place]
  dsimp only
  rw [hsize, ← hd, place_add]
  rfl

theorem scan_spacing_of_not_taken {c t : String} (hc : c ∈ spacings)
    (hletter : endsInLetter c → Stops Char.isAlpha t.toList) (htaken : taken c t.toList = []) :
    scan rules (c ++ t) = (scan rules t).map (shifted (byteSize c.toList)) := by
  have hrest : t.toList = taken c t.toList ++ t.toList := by rw [htaken, List.nil_append]
  rw [scan_spacing hc hletter hrest, htaken]
  rfl

/-- Without its point the text cannot begin where it did. -/
theorem scan_spacing_ne_of_taken {c t : String} {rest : List Char} (hc : c ∈ spacings)
    (hends : endsInLetter c) (hpoint : t.toList = '.' :: rest) :
    scan rules (c ++ t) ≠ (scan rules t).map (shifted (byteSize c.toList)) := by
  have hshort : ∀ c ∈ spacings, byteSize c.toList < lastPosition := by decide
  have htaken : taken c t.toList = ['.'] := by rw [hpoint, taken, if_pos hends]
  have hletter : endsInLetter c → Stops Char.isAlpha t.toList := fun _ => by
    rw [hpoint]
    exact stops_cons.2 (by decide)
  obtain ⟨x, hx, hstart⟩ := point_begins rules rest
  intro h
  have hmem : shifted (byteSize c.toList) x ∈ scan rules (c ++ t) := by
    rw [h, scan, hpoint]
    exact List.mem_map_of_mem hx
  rw [scan_spacing hc hletter (by rw [htaken]; exact hpoint), ← place_add, htaken] at hmem
  have hle := le_startOf hmem
  have hsize : byteSize ['.'] = 1 := rfl
  rw [startOf_shifted, hstart, hsize] at hle
  have hlt := hshort c hc
  unfold pin at hle
  omega

end Scan

open Scan in
/-- A space or a style command moves the tokens and errors of what is behind it and changes nothing
else, exactly if it does not take a point away. -/
theorem scan_spacing_iff (rules : ScanRules) {c t : String} (hc : c ∈ spacings)
    (hletter : endsInLetter c → ¬t.toList.head?.any Char.isAlpha) :
    scan rules (c ++ t) = (scan rules t).map (shifted (byteSize c.toList)) ↔
      ¬(endsInLetter c ∧ t.toList.head? = some '.') := by
  have hstops : endsInLetter c → Stops Char.isAlpha t.toList := by
    intro hends d hd
    have hnot := hletter hends
    rw [Option.mem_def.1 hd] at hnot
    simpa using hnot
  constructor
  · rintro h ⟨hends, hhead⟩
    obtain ⟨rest, hrest⟩ := List.head?_eq_some_iff.1 hhead
    exact scan_spacing_ne_of_taken hc hends hrest h
  · intro h
    refine scan_spacing_of_not_taken hc hstops ?_
    unfold taken
    split
    · rename_i heq
      refine if_neg fun hends => h ⟨hends, ?_⟩
      rw [heq]
      rfl
    · rfl

open Scan in
/-- A number with its point inside is moved behind a space. -/
theorem scan_spacing_decimal :
    "\\quad" ∈ spacings ∧ (endsInLetter "\\quad" → ¬"1.5x".toList.head?.any Char.isAlpha) ∧
      scan { mode := .equation } ("\\quad" ++ "1.5x") =
        (scan { mode := .equation } "1.5x").map (shifted (byteSize "\\quad".toList)) := by
  have hc : "\\quad" ∈ spacings := by decide
  have hletter : endsInLetter "\\quad" → ¬"1.5x".toList.head?.any Char.isAlpha := by decide
  exact ⟨hc, hletter, (scan_spacing_iff _ hc hletter).2 (by decide)⟩

open Scan in
/-- A half becomes five behind a space. -/
theorem scan_spacing_point_ne :
    "\\quad" ∈ spacings ∧ ¬".5".toList.head?.any Char.isAlpha ∧
      scan { mode := .equation } ("\\quad" ++ ".5") = [.ok ⟨.num "5", 6, 7⟩] ∧
      scan { mode := .equation } ("\\quad" ++ ".5") ≠
        (scan { mode := .equation } ".5").map (shifted (byteSize "\\quad".toList)) := by
  decide

end Worksheet
