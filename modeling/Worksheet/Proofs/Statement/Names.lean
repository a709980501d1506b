import Worksheet.Proofs.Except
import Worksheet.Statement.Basic
/-!
# Names of statements

What a statement binds has a name that is one identifier, with nothing but layout around it, and a
function has parameters.
-/

namespace Worksheet.Statement

open Text

/-- A text that is taken for a name is cut into one identifier. -/
theorem tokens_of_isName {cs : List Char} (h : isName cs) :
    ∃ v a b, tokens { mode := .equation } (String.ofList cs) = .ok [⟨.ident v, a, b⟩] := by
  unfold isName at h
  split at h
  · rename_i v a b hscan
    exact ⟨v, a, b, by rw [tokens, hscan]; rfl⟩
  · cases h

/-- The name that a statement binds. -/
def name? : Statement → Option Fragment
  | .definition name .. | .assignment name .. => some name
  | .display .. => none

/-- What the statement binds has a name, and parameters if it is a function. -/
def Named : Statement → Prop
  | .definition name params _ _ => isName (trim name.text.toList) ∧ params ≠ []
  | .assignment name _ _ => isName (trim name.text.toList)
  | .display .. => True

theorem parameters_length (parts : List (List Char)) (start : Nat) (earlier : List Name) :
    Meets (fun _ => True) (fun params => params.length = parts.length)
      (parameters start earlier parts) := by
  induction parts generalizing start earlier with
  | nil => exact .ok rfl
  | cons part parts ih =>
    unfold parameters
    dsimp only
    split
    · exact .error trivial
    · split
      · exact .error trivial
      · exact (ih _ _).bind fun others hothers => .ok (congrArg Nat.succ hothers)

theorem functionHead?_named (name : Fragment) :
    Meets (fun _ => True)
      (fun head? => ∀ head ∈ head?, isName (trim head.1.text.toList) ∧ head.2 ≠ [])
      (functionHead? name) := by
  unfold functionHead?
  dsimp only
  split
  · rename_i rest hrest
    split
    · split
      · exact .error trivial
      · rename_i hname
        have hparts := List.length_pos_iff.2 (List.splitOn_ne_nil ',' rest.dropLast)
        refine (parameters_length _ _ _).bind fun params hlength => .ok ?_
        rw [← hlength, List.length_pos_iff] at hparts
        rintro _ ⟨⟩
        exact ⟨by simpa using hname, hparts⟩
    · exact .ok nofun
  · exact .ok nofun

theorem assigned_named (lead : String) (name expr : Fragment) (display : Option Display)
    (displayAt : Nat) :
    Meets (fun _ => True) (fun parsed => parsed.statement.Named)
      (assigned lead name expr display displayAt) := by
  apply (functionHead?_named name).bind
  intro head? hhead
  split
  · rename_i head params
    obtain ⟨hname, hparams⟩ := hhead _ rfl
    split
    · exact .error trivial
    · exact .ok ⟨hname, fun hnil => hparams (List.map_eq_nil_iff.1 hnil)⟩
  · split
    · exact .error trivial
    · rename_i hname
      exact .ok (show isName _ by simpa using hname)

/-- What holds of every statement with an assignment and of all others holds of what is parsed. -/
theorem parse_statement_meets {Q : Statement → Prop}
    (hdisplay : ∀ expr display, Q (.display expr display))
    (hassigned : ∀ lead name expr display displayAt,
      Meets (fun _ => True) (fun parsed => Q parsed.statement)
        (assigned lead name expr display displayAt)) (text : String) :
    Meets (fun _ => True) (fun parsed => Q parsed.statement) (parse text) := by
  unfold parse parseBody
  dsimp only
  unfold ofParts
  split
  · exact .error trivial
  · exact hassigned _ _ _ _ _
  · exact .ok (hdisplay _ _)
  · dsimp only
    split
    · exact .error trivial
    · exact hassigned _ _ _ _ _
  · exact .error trivial

theorem parse_named (text : String) :
    Meets (fun _ => True) (fun parsed => parsed.statement.Named) (parse text) :=
  parse_statement_meets (fun _ _ => trivial) assigned_named text

/-! ## Parameters -/

/-- A name for every span, and no name is repeated. -/
def Distinct : Statement → Prop
  | .definition _ params spans _ =>
    ∃ heads : List (Name × Span), params = heads.map Prod.fst ∧ spans = heads.map Prod.snd ∧
      params.Nodup
  | .assignment .. | .display .. => True

theorem parameters_distinct (parts : List (List Char)) (start : Nat) (earlier : List Name) :
    Meets (fun _ => True)
      (fun params => (params.map Prod.fst).Nodup ∧ ∀ n ∈ params.map Prod.fst, n ∉ earlier)
      (parameters start earlier parts) := by
  induction parts generalizing start earlier with
  | nil => exact .ok ⟨.nil, nofun⟩
  | cons part parts ih =>
    unfold parameters
    dsimp only
    split
    · exact .error trivial
    · split
      · exact .error trivial
      · rename_i hnew
        apply (ih _ _).bind
        rintro others ⟨hnodup, hothers⟩
        have hfree : ∀ n ∈ others.map Prod.fst, n ∉ earlier ∧
            n ≠ Name.ofSpelling (String.ofList (trim part)) := by
          intro n hn
          have hnot := hothers n hn
          rw [List.mem_append, List.mem_singleton] at hnot
          exact not_or.1 hnot
        refine .ok ⟨?_, ?_⟩
        · exact List.nodup_cons.2 ⟨fun hmem => (hfree _ hmem).2 rfl, hnodup⟩
        · refine List.forall_mem_cons.2 ⟨?_, fun n hn => (hfree n hn).1⟩
          simpa using hnew

theorem functionHead?_distinct (name : Fragment) :
    Meets (fun _ => True) (fun head? => ∀ head ∈ head?, (head.2.map Prod.fst).Nodup)
      (functionHead? name) := by
  unfold functionHead?
  dsimp only
  split
  · split
    · split
      · exact .error trivial
      · apply (parameters_distinct _ _ _).bind
        rintro params ⟨hnodup, -⟩
        refine .ok ?_
        rintro _ ⟨⟩
        exact hnodup
    · exact .ok nofun
  · exact .ok nofun

theorem assigned_distinct (lead : String) (name expr : Fragment) (display : Option Display)
    (displayAt : Nat) :
    Meets (fun _ => True) (fun parsed => parsed.statement.Distinct)
      (assigned lead name expr display displayAt) := by
  apply (functionHead?_distinct name).bind
  intro head? hhead
  split
  · rename_i head params
    split
    · exact .error trivial
    · exact .ok ⟨params, rfl, rfl, hhead _ rfl⟩
  · split
    · exact .error trivial
    · exact .ok trivial

theorem parse_distinct (text : String) :
    Meets (fun _ => True) (fun parsed => parsed.statement.Distinct) (parse text) :=
  parse_statement_meets (fun _ _ => trivial) assigned_distinct text

end Worksheet.Statement
