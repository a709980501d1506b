import Worksheet.Proofs.Text.Blank
import Worksheet.Proofs.Token.Lookahead
import Worksheet.Proofs.Token.UnitText
/-!
# Spaces behind commands

In a plain spelling commands that are not known are left, with a space behind them. Taking the
commands out once more drops the spaces behind that one and changes nothing else, unless a degree
sign has come up.
-/

namespace Worksheet

open Text

/-- The second text is the first one without the spaces that stand behind the first space behind a
command. There is no wrapper of units among the commands. -/
inductive Squeezed : List Char → List Char → Prop where
  | nil : Squeezed [] []
  | slash : Squeezed ['\\'] ['\\']
  | char {c : Char} {cs cs' : List Char} (hc : c ≠ '\\') (others : Squeezed cs cs') :
      Squeezed (c :: cs) (c :: cs')
  | sign {c : Char} {cs cs' : List Char} (hc : c.isAlpha = false) (others : Squeezed cs cs') :
      Squeezed ('\\' :: c :: cs) ('\\' :: c :: cs')
  | command {name gap cs cs' : List Char} (hne : name ≠ []) (hname : ∀ c ∈ name, c.isAlpha)
      (hwrapper : ¬UnitText.wrappers.contains (String.ofList name)) (hgap : ∀ c ∈ gap, c = ' ')
      (others : Squeezed cs cs') :
      Squeezed ('\\' :: (name ++ ' ' :: (gap ++ cs))) ('\\' :: (name ++ ' ' :: cs'))

namespace Squeezed

variable {cs cs' xs r r' : List Char} {c : Char}

theorem of_cons (hc : c ≠ '\\') {ds : List Char} (h : Squeezed (c :: cs) ds) :
    ∃ cs', ds = c :: cs' ∧ Squeezed cs cs' := by
  cases h with
  | char _ others => exact ⟨_, rfl, others⟩
  | slash | sign | command => exact absurd rfl hc

theorem head?_eq (h : Squeezed cs cs') : cs.head? = cs'.head? := by cases h <;> rfl

theorem of_append (hxs : ∀ x ∈ xs, x ≠ '\\') {ds : List Char} (h : Squeezed (xs ++ r) ds) :
    ∃ r', ds = xs ++ r' ∧ Squeezed r r' := by
  induction xs generalizing ds with
  | nil => exact ⟨ds, rfl, h⟩
  | cons x xs ih =>
    obtain ⟨hx, hxs⟩ := List.forall_mem_cons.1 hxs
    obtain ⟨ds, rfl, hds⟩ := of_cons hx h
    obtain ⟨r', rfl, hr⟩ := ih hxs hds
    exact ⟨r', rfl, hr⟩

theorem append (hxs : ∀ x ∈ xs, x ≠ '\\') (h : Squeezed r r') : Squeezed (xs ++ r) (xs ++ r') := by
  induction xs with
  | nil => exact h
  | cons x xs ih =>
    obtain ⟨hx, hxs⟩ := List.forall_mem_cons.1 hxs
    exact .char hx (ih hxs)

/-- Behind a command there is a space. -/
theorem head?_of_command {name rest ds : List Char} (hne : name ≠ [])
    (hname : ∀ c ∈ name, c.isAlpha) (hrest : Stops Char.isAlpha rest)
    (h : Squeezed ('\\' :: (name ++ rest)) ds) : rest.head? = some ' ' := by
  obtain ⟨d, name, rfl⟩ := List.exists_cons_of_ne_nil hne
  have hd := hname d List.mem_cons_self
  generalize htext : '\\' :: (d :: name ++ rest) = text at h
  cases h with
  | nil | slash => cases htext
  | char hc => exact absurd (List.cons.inj htext).1.symm hc
  | sign hc =>
    rw [← (List.cons.inj (List.cons.inj htext).2).1, hd] at hc
    cases hc
  | @command name' gap cs _ _ hname' =>
    have hstops : Stops Char.isAlpha (' ' :: (gap ++ cs)) := stops_cons.2 (by decide)
    have hbehind := congrArg (List.dropWhile Char.isAlpha) (List.cons.inj htext).2
    rw [dropWhile_append_of_stops hname hrest, dropWhile_append_of_stops hname' hstops] at hbehind
    rw [hbehind]
    rfl

/-- Up to the first command both are the same. -/
theorem exists_run (h : Squeezed cs cs') :
    ∃ xs r r', cs = xs ++ r ∧ cs' = xs ++ r' ∧ (∀ x ∈ xs, x ≠ '\\') ∧ Scan.Breaks r ∧
      Scan.Breaks r' ∧ Squeezed r r' := by
  have hslash : ∀ ds, Scan.Breaks ('\\' :: ds) := by
    rintro ds _ ⟨⟩
    decide
  induction h with
  | nil => exact ⟨[], [], [], rfl, rfl, nofun, nofun, nofun, .nil⟩
  | @char c cs cs' hc _ ih =>
    obtain ⟨xs, r, r', rfl, rfl, hxs, hr, hr', hsqueezed⟩ := ih
    exact ⟨c :: xs, r, r', rfl, rfl, List.forall_mem_cons.2 ⟨hc, hxs⟩, hr, hr', hsqueezed⟩
  | slash => exact ⟨[], _, _, rfl, rfl, nofun, hslash _, hslash _, .slash⟩
  | sign hc others => exact ⟨[], _, _, rfl, rfl, nofun, hslash _, hslash _, .sign hc others⟩
  | command hne hname hwrapper hgap others =>
    exact ⟨[], _, _, rfl, rfl, nofun, hslash _, hslash _, .command hne hname hwrapper hgap others⟩

theorem trimStart (h : Squeezed cs cs') : Squeezed (Text.trimStart cs) (Text.trimStart cs') := by
  induction h with
  | nil => exact .nil
  | slash => exact .slash
  | sign hc others => exact .sign hc others
  | command hne hname hwrapper hgap others => exact .command hne hname hwrapper hgap others
  | @char c cs cs' hc others ih =>
    rw [Text.trimStart, Text.trimStart, List.dropWhile_cons, List.dropWhile_cons]
    split
    · exact ih
    · exact .char hc others

theorem filter {p : Char → Bool} (hp : p ' ' = false) (h : Squeezed cs cs') :
    cs.filter p = cs'.filter p := by
  induction h with
  | nil | slash => rfl
  | char _ _ ih => rw [List.filter_cons, List.filter_cons, ih]
  | sign _ _ ih => rw [List.filter_cons, List.filter_cons, List.filter_cons, List.filter_cons, ih]
  | @command name gap cs cs' _ _ _ hgap _ ih =>
    have hnone : gap.filter p = [] :=
      List.filter_eq_nil_iff.2 fun c hc => by simp [hgap c hc, hp]
    simp [List.filter_cons, hnone, ih]

theorem eq_of_not_mem (h : Squeezed cs cs') (hslash : '\\' ∉ cs) : cs = cs' := by
  induction h with
  | nil => rfl
  | char _ _ ih => rw [ih fun hmem => hslash (List.mem_cons_of_mem _ hmem)]
  | slash | sign | command => exact absurd List.mem_cons_self hslash

/-- Groups of squeezed texts, with what is behind them, or no groups. -/
abbrev Groups (group? group?' : Option (List Char × List Char)) : Prop :=
  Option.Rel (fun a a' => Squeezed a.1 a'.1 ∧ Squeezed a.2 a'.2) group? group?'

section

variable {group? group?' : Option (List Char × List Char)}

theorem Groups.map {front front' : List Char} (h : Groups group? group?')
    (hfront : ∀ {body body'}, Squeezed body body' → Squeezed (front ++ body) (front' ++ body')) :
    Groups (group?.map fun (body, after) => (front ++ body, after))
      (group?'.map fun (body, after) => (front' ++ body, after)) := by
  cases h with
  | none => exact .none
  | some h => exact .some ⟨hfront h.1, h.2⟩

theorem Groups.of_some {body after : List Char} (h : Groups (some (body, after)) group?') :
    ∃ body' after', group?' = some (body', after') ∧ Squeezed body body' ∧
      Squeezed after after' := by
  cases h with
  | some h => exact ⟨_, _, rfl, h⟩

theorem Groups.of_none (h : Groups none group?') : group?' = none := by
  cases h
  rfl

end

/-- Spaces behind letters are like letters: no group begins or ends there. -/
theorem untilClosed_command {name gap : List Char} (hne : name ≠ [])
    (hname : ∀ c ∈ name, c.isAlpha) (hgap : ∀ c ∈ gap, c = ' ') (depth : Nat) (rest : List Char) :
    Text.untilClosed depth ('\\' :: (name ++ ' ' :: (gap ++ rest))) =
      (Text.untilClosed depth rest).map fun (body, after) =>
        ('\\' :: (name ++ ' ' :: gap) ++ body, after) := by
  have halpha : ∀ c ∈ ['\\', '\x7b', '\x7d'], c.isAlpha = false := by decide
  obtain ⟨d, ds, rfl⟩ := List.exists_cons_of_ne_nil hne
  have hbehind : ∀ c ∈ ds ++ ' ' :: gap, c ∉ ['\\', '\x7b', '\x7d'] := by
    refine List.forall_mem_append.2 ⟨fun c hc hmem => ?_, List.forall_mem_cons.2 ⟨by decide, ?_⟩⟩
    · have hletter := hname c (List.mem_cons_of_mem _ hc)
      rw [halpha c hmem] at hletter
      cases hletter
    · intro c hc
      rw [hgap c hc]
      decide
  have hsplit : d :: ds ++ ' ' :: (gap ++ rest) = d :: (ds ++ ' ' :: gap ++ rest) := by simp
  rw [hsplit, Text.untilClosed, untilClosed_append hbehind, Option.map_map]
  rfl

/-- A group in the one is a group in the other. -/
theorem untilClosed (h : Squeezed cs cs') (depth : Nat) :
    Groups (Text.untilClosed depth cs) (Text.untilClosed depth cs') := by
  induction h generalizing depth with
  | nil => exact .none
  | slash => exact .none
  | @sign c _ _ hc _ ih =>
    exact @Groups.map _ _ ['\\', c] ['\\', c] (ih depth) fun h => .sign hc h
  | @char c cs cs' hc others ih =>
    have hcons := fun depth => @Groups.map _ _ [c] [c] (ih depth) fun h => .char hc h
    by_cases hopen : c = '\x7b'
    · subst hopen
      rw [Text.untilClosed, Text.untilClosed]
      exact hcons (depth + 1)
    by_cases hclose : c = '\x7d'
    · subst hclose
      cases depth with
      | zero => exact .some ⟨.nil, others⟩
      | succ depth =>
        rw [Text.untilClosed, Text.untilClosed]
        exact hcons depth
    · rw [untilClosed_other hc hopen hclose, untilClosed_other hc hopen hclose]
      exact hcons depth
  | @command name gap cs cs' hne hname hwrapper hgap _ ih =>
    have hright := @untilClosed_command name [] hne hname (List.forall_mem_nil _) depth cs'
    rw [List.nil_append] at hright
    rw [untilClosed_command hne hname hgap, hright]
    refine (ih depth).map fun {body body'} h => ?_
    have hcommand := Squeezed.command hne hname hwrapper hgap h
    simpa using hcommand

end Squeezed

namespace UnitText

/-! ## Plain spellings of plain spellings -/

/-- A command goes away, becomes a sign, or stays. -/
theorem commandText_cases (name : String) :
    commandText name = [] ∨ (∃ c ∉ ['\\', '~', '^'], commandText name = [c]) ∨
      ¬wrappers.contains name ∧ commandText name = '\\' :: name.toList ++ [' '] := by
  have hsign : ∀ {c : Char} {cs : List Char}, c ∉ ['\\', '~', '^'] → cs = [c] →
      cs = [] ∨ (∃ c ∉ ['\\', '~', '^'], cs = [c]) ∨
        ¬wrappers.contains name ∧ cs = '\\' :: name.toList ++ [' '] := fun hc hcs =>
    .inr (.inl ⟨_, hc, hcs⟩)
  unfold commandText
  split
  · exact hsign (by decide) rfl
  split
  · exact hsign (by decide) rfl
  split
  · exact hsign (by decide) rfl
  split
  · exact hsign (by decide) rfl
  split
  · exact hsign (by decide) rfl
  split
  · exact .inl rfl
  · rename_i hwrapper
    exact .inr (.inr ⟨hwrapper, rfl⟩)

theorem signText_cases (c : Char) :
    (∃ d ∉ ['\\', '~', '^'], signText c = [d]) ∨ signText c = ['\\', c] := by
  unfold signText
  split
  · exact .inl ⟨'%', by decide, rfl⟩
  split
  · exact .inl ⟨' ', by decide, rfl⟩
  · exact .inr rfl

/-- No degree sign in braces comes up, since what is left of a command has a space behind it. -/
theorem degreeLength?_of_squeezed {cs ds : List Char} (h : Squeezed cs ds)
    (hdegree : ¬"^\\circ".toList <+: '^' :: cs) : degreeLength? ('^' :: cs) = none := by
  have hbraced : ¬"^\x7b\\circ\x7d".toList <+: '^' :: cs := by
    intro hbegins
    obtain ⟨rest, rfl⟩ := (List.cons_prefix_cons.1 hbegins).2
    obtain ⟨ds, -, h⟩ := Squeezed.of_cons (by decide) h
    have hname : ∀ c ∈ "circ".toList, c.isAlpha := by decide
    have hhead := Squeezed.head?_of_command (by decide) hname
      (stops_cons.2 (by decide) : Stops Char.isAlpha ('\x7d' :: rest)) h
    cases hhead
  unfold degreeLength?
  dsimp only
  rw [if_neg (mt List.isPrefixOf_iff_prefix.1 hbraced),
    if_neg (mt List.isPrefixOf_iff_prefix.1 hdegree)]

/-- Taking the commands out once more drops spaces behind commands and nothing else. -/
def Settled (cs : List Char) : Prop := Squeezed cs (plain cs)

section

variable {c : Char} {cs : List Char}

theorem settled_cons (hc : c ∉ ['\\', '~']) (hdegree : ¬"^\\circ".toList <+: c :: cs)
    (h : Settled cs) : Settled (c :: cs) := by
  simp only [List.mem_cons, List.not_mem_nil, or_false, not_or] at hc
  have hplain : plain (c :: cs) = c :: plain cs := by
    by_cases hraise : c = '^'
    · subst hraise
      rw [plain_of_no_degree (degreeLength?_of_squeezed h hdegree), if_neg hc.2, if_neg hc.1]
    · exact plain_cons (by simp [hc, hraise]) cs
  rw [Settled, hplain]
  exact .char hc.1 h

theorem settled_sign (hc : c.isAlpha = false) (hsign : signText c = ['\\', c]) (h : Settled cs) :
    Settled ('\\' :: c :: cs) := by
  have hplain : plain ('\\' :: c :: cs) = '\\' :: c :: plain cs := by
    rw [plain_of_no_degree (degreeLength?_of_ne (by decide) _), if_neg (by decide), if_pos rfl]
    dsimp only
    rw [hc, if_neg (by decide), hsign]
    rfl
  rw [Settled, hplain]
  exact .sign hc h

theorem settled_command {name : List Char} (hne : name ≠ []) (hname : ∀ c ∈ name, c.isAlpha)
    (hwrapper : ¬wrappers.contains (String.ofList name))
    (htext : commandText (String.ofList name) = '\\' :: name ++ [' ']) (h : Settled cs) :
    Settled ('\\' :: (name ++ ' ' :: cs)) := by
  have hsplit : cs.takeWhile (· = ' ') ++ cs.dropWhile (· = ' ') = cs :=
    List.takeWhile_append_dropWhile
  have hgap : ∀ c ∈ cs.takeWhile (· = ' '), c = ' ' := fun c hc => by
    simpa using List.all_eq_true.1 List.all_takeWhile c hc
  have hplain : plain ('\\' :: (name ++ ' ' :: cs)) =
      '\\' :: (name ++ ' ' :: plain (cs.dropWhile (· = ' '))) := by
    rw [plain_command hne hname (stops_cons.2 (by decide)), htext, List.dropWhile_cons,
      if_pos (by decide)]
    simp
  rw [Settled, hplain]
  generalize cs.takeWhile (· = ' ') = gap at hsplit hgap
  generalize cs.dropWhile (· = ' ') = rest at hsplit ⊢
  subst hsplit
  have hslash : ∀ c ∈ gap, c ≠ '\\' := fun c hc => by
    rw [hgap c hc]
    decide
  have hstays : ∀ c ∈ gap, c ∉ ['\\', '~', '^'] := fun c hc => by
    rw [hgap c hc]
    decide
  rw [Settled, plain_append hstays] at h
  obtain ⟨rest', heq, hrest⟩ := Squeezed.of_append hslash h
  rw [← List.append_cancel_left heq] at hrest
  exact .command hne hname hwrapper hgap hrest

/-- The command of a text, if what is behind it is settled. -/
theorem settled_plain_command {d : Char} {ds : List Char} (hd : d.isAlpha)
    (hbehind : ∀ {front rest : List Char}, plain ('\\' :: d :: ds) = front ++ plain rest →
      rest.length < (d :: ds).length + 1 → Settled (plain rest))
    (hcons : ∀ {c : Char} {rest : List Char}, plain ('\\' :: d :: ds) = c :: plain rest →
      rest.length < (d :: ds).length + 1 → c ∉ ['\\', '~'] → Settled (plain ('\\' :: d :: ds))) :
    Settled (plain ('\\' :: d :: ds)) := by
  have hname : ∀ c ∈ (d :: ds).takeWhile Char.isAlpha, c.isAlpha :=
    List.all_eq_true.1 List.all_takeWhile
  have hne : (d :: ds).takeWhile Char.isAlpha ≠ [] := by simp [hd]
  have hplain := plain_command hne hname (stops_dropWhile Char.isAlpha (d :: ds))
  rw [List.takeWhile_append_dropWhile] at hplain
  have hlt : (((d :: ds).dropWhile Char.isAlpha).dropWhile (· = ' ')).length <
      (d :: ds).length + 1 :=
    Nat.lt_succ_of_le ((List.dropWhile_suffix _).trans (List.dropWhile_suffix _)).length_le
  have hrest := hbehind hplain hlt
  generalize (d :: ds).takeWhile Char.isAlpha = name at *
  rcases commandText_cases (String.ofList name) with htext | ⟨c, hc, htext⟩ | ⟨hwrapper, htext⟩
  · rw [htext] at hplain
    rw [hplain]
    exact hrest
  · rw [htext] at hplain
    exact hcons hplain hlt fun hmem => hc (by simp at hmem ⊢; tauto)
  · rw [String.toList_ofList] at htext
    rw [hplain, htext]
    have hsettled := settled_command hne hname hwrapper htext hrest
    simpa using hsettled

end

/-- The plain spelling is settled if no degree sign has come up in it. -/
theorem settled_plain (cs : List Char) (hnot : ¬"^\\circ".toList <:+: plain cs) :
    Settled (plain cs) := by
  have hbehind : ∀ {front ds : List Char}, plain cs = front ++ plain ds → ds.length < cs.length →
      Settled (plain ds) := fun heq hlt => by
    rw [heq] at hnot
    exact settled_plain _ fun h => hnot (h.trans (List.suffix_append _ _).isInfix)
  have hcons : ∀ {c : Char} {ds : List Char}, plain cs = c :: plain ds → ds.length < cs.length →
      c ∉ ['\\', '~'] → Settled (plain cs) := fun {c} _ heq hlt hc => by
    have hrest := @hbehind [c] _ heq hlt
    rw [heq] at hnot ⊢
    exact settled_cons hc (fun h => hnot h.isInfix) hrest
  cases cs with
  | nil => exact .nil
  | cons c cs =>
    cases hdegree : degreeLength? (c :: cs) with
    | some size =>
      refine hcons (plain_of_degree hdegree) ?_ (by decide)
      rw [List.length_drop, List.length_cons]
      omega
    | none =>
      have hplain := plain_of_no_degree hdegree
      by_cases htilde : c = '~'
      · rw [if_pos htilde] at hplain
        exact hcons hplain (Nat.lt_succ_self _) (by decide)
      rw [if_neg htilde] at hplain
      by_cases hslash : c = '\\'
      · subst hslash
        cases cs with
        | nil => exact .slash
        | cons d ds =>
          by_cases hd : d.isAlpha
          · exact settled_plain_command hd hbehind hcons
          · rw [if_pos rfl] at hplain
            dsimp only at hplain
            rw [if_neg hd] at hplain
            rcases signText_cases d with ⟨e, he, hsign⟩ | hsign
            · rw [hsign] at hplain
              exact hcons hplain (Nat.lt_succ_of_lt (Nat.lt_succ_self _)) fun hmem =>
                he (by simp at hmem ⊢; tauto)
            · rw [hsign] at hplain
              have hrest := @hbehind ['\\', d] ds hplain (Nat.lt_succ_of_lt (Nat.lt_succ_self _))
              rw [hplain]
              exact settled_sign (by simpa using hd) hsign hrest
      · rw [if_neg hslash] at hplain
        exact hcons hplain (Nat.lt_succ_self _) (by simp [hslash, htilde])
termination_by cs.length

end UnitText

end Worksheet
