import Worksheet.Proofs.Except
import Worksheet.Registry.Basic
/-!
# Integrity of registries

The entries and the places of their names tell the same, whatever is bound, bound again or refused.
A name keeps its place and the spelling that it was bound in first, and nothing but the entry of its
name comes out of a binding changed.
-/

namespace Worksheet.Registry

variable {t : UnitTable} {r r' : Registry} {name : Name} {id : SymbolId} {display : String}
  {binder : Binder} {e : Entry}

/-! ## One binding -/

theorem get?_rebind (r : Registry) (id place : SymbolId) (binder : Binder) :
    (r.rebind id binder).get? place =
      (r.get? place).map fun e => if id = place then { e with binder } else e := by
  simp only [get?, rebind, List.getElem?_modify, Option.map_eq_map]
  by_cases hplace : id = place
  · simp [hplace]
  · have hindex : id.index ≠ place.index := fun heq => hplace (congrArg SymbolId.mk heq)
    simp [hplace, hindex]

theorem size_rebind (r : Registry) (id : SymbolId) (binder : Binder) :
    (r.rebind id binder).size = r.size := List.length_modify _ _ _

theorem get?_add (r : Registry) (name : Name) (display : String) (binder : Binder)
    (place : SymbolId) :
    (r.add name display binder).get? place =
      if place = ⟨r.size⟩ then some ⟨⟨r.size⟩, name, display, binder⟩ else r.get? place := by
  obtain ⟨i⟩ := place
  simp only [get?, add, size, SymbolId.mk.injEq]
  rcases Nat.lt_trichotomy i r.entries.length with hlt | rfl | hlt
  · rw [List.getElem?_append_left hlt, if_neg (Nat.ne_of_lt hlt)]
  · rw [List.getElem?_concat_length, if_pos rfl]
  · rw [if_neg (Nat.ne_of_gt hlt), List.getElem?_eq_none (by rw [List.length_append]; exact hlt),
      List.getElem?_eq_none (Nat.le_of_lt hlt)]

theorem size_add (r : Registry) (name : Name) (display : String) (binder : Binder) :
    (r.add name display binder).size = r.size + 1 := by
  simp [size, add]

theorem place?_add (r : Registry) (name other : Name) (display : String) (binder : Binder) :
    (r.add name display binder).place? other =
      if other = name then some ⟨r.size⟩ else r.place? other := by
  by_cases hname : other = name
  · simp [place?, add, hname]
  · have hne : (other == name) = false := beq_eq_false_iff_ne.2 hname
    rw [if_neg hname, place?, add, List.lookup_cons, hne]
    rfl

/-- All that a binding can do: a name with a place is bound again there, and any other one comes
behind those that are bound. -/
theorem bind_cases (r : Registry) (display : String) (binder : Binder) :
    (∃ id, r.place? (.ofSpelling display) = some id ∧ id.index < r.size ∧
      r.bind display binder = r.rebind id binder) ∨
    (∀ id, r.place? (.ofSpelling display) = some id → r.size ≤ id.index) ∧
      r.bind display binder = r.add (.ofSpelling display) (trimmed display) binder := by
  unfold bind
  dsimp only
  split
  · rename_i id hid
    obtain ⟨hplace, hlt⟩ := Option.filter_eq_some_iff.1 hid
    exact .inl ⟨id, hplace, by simpa using hlt, rfl⟩
  · rename_i hnone
    refine .inr ⟨fun id hid => ?_, rfl⟩
    rw [hid] at hnone
    simpa using hnone

theorem get?_eq_none_iff : r.get? id = none ↔ r.size ≤ id.index := List.getElem?_eq_none_iff

theorem index_lt_of_get? (h : r.get? id = some e) : id.index < r.size :=
  (List.getElem?_eq_some_iff.1 h).1

/-! ## What always holds -/

/-- Every entry stands at the place of its number, and the places of the names are those of the
entries that bear them. -/
structure Indexed (r : Registry) : Prop where
  id : ∀ {id e}, r.get? id = some e → e.id = id
  place? : ∀ {name id}, r.place? name = some id ↔ ∃ e, r.get? id = some e ∧ e.name = name

theorem indexed_empty : ({} : Registry).Indexed where
  id h := by cases h
  place? := by
    intro name id
    constructor
    · intro h
      cases h
    · rintro ⟨e, he, -⟩
      cases he

theorem Indexed.rebind (hr : r.Indexed) (id : SymbolId) (binder : Binder) :
    (r.rebind id binder).Indexed where
  id := by
    intro place e he
    rw [get?_rebind] at he
    obtain ⟨old, hold, rfl⟩ := Option.map_eq_some_iff.1 he
    have hid : old.id = place := hr.id hold
    split <;> exact hid
  place? := by
    intro name place
    change r.place? name = some place ↔ _
    rw [hr.place?, get?_rebind]
    cases r.get? place with
    | none => simp
    | some e =>
      by_cases hplace : id = place <;> simp [hplace]

theorem Indexed.add (hr : r.Indexed) (hfree : r.place? name = none) (display : String)
    (binder : Binder) : (r.add name display binder).Indexed where
  id := by
    intro place e he
    rw [get?_add] at he
    split at he
    · rename_i hplace
      cases he
      exact hplace.symm
    · exact hr.id he
  place? := by
    intro other place
    rw [place?_add, get?_add]
    by_cases hplace : place = ⟨r.size⟩
    · subst hplace
      have hbehind : r.place? other ≠ some ⟨r.size⟩ := fun hother => by
        obtain ⟨e, he, -⟩ := hr.place?.1 hother
        exact absurd (index_lt_of_get? he) (Nat.lt_irrefl _)
      by_cases hname : other = name
      · simp [hname]
      · simp [hname, hbehind, Ne.symm hname]
    · by_cases hname : other = name
      · subst hname
        have hnone : ∀ e, r.get? place = some e → e.name ≠ other := fun e he heq => by
          rw [hr.place?.2 ⟨e, he, heq⟩] at hfree
          cases hfree
        simpa [hplace, Ne.symm hplace] using hnone
      · simpa [hplace, hname] using hr.place?

/-- A name without an entry has no place. -/
theorem Indexed.place?_eq_none (hr : r.Indexed)
    (h : ∀ id, r.place? name = some id → r.size ≤ id.index) : r.place? name = none := by
  cases hplace : r.place? name with
  | none => rfl
  | some id =>
    obtain ⟨e, he, -⟩ := hr.place?.1 hplace
    exact absurd (index_lt_of_get? he) (Nat.not_lt.2 (h id hplace))

theorem Indexed.bind (hr : r.Indexed) (display : String) (binder : Binder) :
    (r.bind display binder).Indexed := by
  rcases r.bind_cases display binder with ⟨id, -, -, hbind⟩ | ⟨hplace, hbind⟩
  · rw [hbind]
    exact hr.rebind id binder
  · rw [hbind]
    exact hr.add (hr.place?_eq_none hplace) _ binder

/-- A name is looked up as the entry that bears it. -/
theorem Indexed.lookup_eq_some_iff (hr : r.Indexed) :
    r.lookup name = some e ↔ e ∈ r.entries ∧ e.name = name := by
  constructor
  · intro h
    obtain ⟨id, hplace, he⟩ := Option.bind_eq_some_iff.1 h
    obtain ⟨e', he', hname⟩ := hr.place?.1 hplace
    rw [he] at he'
    cases he'
    exact ⟨List.mem_of_getElem? he, hname⟩
  · rintro ⟨hmem, hname⟩
    obtain ⟨i, hi⟩ := List.mem_iff_getElem?.1 hmem
    exact Option.bind_eq_some_iff.2 ⟨⟨i⟩, hr.place?.2 ⟨e, hi, hname⟩, hi⟩

theorem Indexed.distinct (hr : r.Indexed) : (r.entries.map Entry.name).Nodup := by
  rw [List.Nodup, List.pairwise_map, List.pairwise_iff_getElem]
  intro i j hi hj hij hname
  have hfirst := hr.place?.2 ⟨_, List.getElem?_eq_getElem hi, hname⟩
  have hsecond := hr.place?.2 ⟨_, List.getElem?_eq_getElem hj, rfl⟩
  rw [hsecond, Option.some.injEq, SymbolId.mk.injEq] at hfirst
  omega

/-! ## What a binding changes -/

/-- Every entry is still there, with its name as it was spelled first. -/
def Extends (r r' : Registry) : Prop :=
  ∀ id e, r.get? id = some e →
    ∃ e', r'.get? id = some e' ∧ e'.id = e.id ∧ e'.name = e.name ∧ e'.display = e.display

theorem Extends.refl (r : Registry) : r.Extends r :=
  fun _ e he => ⟨e, he, rfl, rfl, rfl⟩

theorem Extends.trans {r'' : Registry} (h : r.Extends r') (h' : r'.Extends r'') :
    r.Extends r'' := by
  intro id e he
  obtain ⟨e', he', hid, hname, hdisplay⟩ := h id e he
  obtain ⟨e'', he'', hid', hname', hdisplay'⟩ := h' id e' he'
  exact ⟨e'', he'', hid'.trans hid, hname'.trans hname, hdisplay'.trans hdisplay⟩

/-- Nothing but the entry of a name is changed, and that is bound to what is given. A name that had
an entry keeps it, and a new one has its entry behind all others. -/
structure Binds (r : Registry) (display : String) (binder : Binder) (r' : Registry) : Prop where
  bound : r.lookup (.ofSpelling display) = none →
    r'.lookup (.ofSpelling display) =
      some ⟨⟨r.size⟩, .ofSpelling display, trimmed display, binder⟩
  rebound : ∀ e, r.lookup (.ofSpelling display) = some e →
    r'.lookup (.ofSpelling display) = some { e with binder }
  others : ∀ id e, e.name ≠ .ofSpelling display → (r'.get? id = some e ↔ r.get? id = some e)

theorem Indexed.get?_of_place? (hr : r.Indexed) (h : r.place? name = some id) :
    ∃ e, r.get? id = some e ∧ e.name = name ∧ r.lookup name = some e := by
  obtain ⟨e, he, hname⟩ := hr.place?.1 h
  exact ⟨e, he, hname, Option.bind_eq_some_iff.2 ⟨id, h, he⟩⟩

theorem Indexed.binds (hr : r.Indexed) (display : String) (binder : Binder) :
    r.Binds display binder (r.bind display binder) := by
  rcases r.bind_cases display binder with ⟨id, hplace, -, hbind⟩ | ⟨hplace, hbind⟩
  · obtain ⟨e, he, hname, hlookup⟩ := hr.get?_of_place? hplace
    rw [hbind]
    refine ⟨fun hnone => ?_, fun e' he' => ?_, fun place other hother => ?_⟩
    · rw [hlookup] at hnone
      cases hnone
    · rw [hlookup] at he'
      cases he'
      refine Option.bind_eq_some_iff.2 ⟨id, hplace, ?_⟩
      rw [get?_rebind, he, Option.map_some, if_pos rfl]
    · rw [get?_rebind]
      by_cases heq : id = place
      · subst heq
        have hnew : { e with binder } ≠ other := fun h => hother (h ▸ hname)
        have hold : e ≠ other := fun h => hother (h ▸ hname)
        simp [he, hnew, hold]
      · simp [heq]
  · have hfree := hr.place?_eq_none hplace
    rw [hbind]
    refine ⟨fun _ => ?_, fun e he => ?_, fun place other hother => ?_⟩
    · refine Option.bind_eq_some_iff.2 ⟨⟨r.size⟩, ?_, ?_⟩
      · rw [place?_add, if_pos rfl]
      · rw [get?_add, if_pos rfl]
    · obtain ⟨id, hid, -⟩ := Option.bind_eq_some_iff.1 he
      rw [hfree] at hid
      cases hid
    · rw [get?_add]
      by_cases heq : place = ⟨r.size⟩
      · subst heq
        have hnew : Entry.mk ⟨r.size⟩ (.ofSpelling display) (trimmed display) binder ≠ other :=
          fun h => hother (h ▸ rfl)
        have hnone : r.get? ⟨r.size⟩ = none := get?_eq_none_iff.2 (Nat.le_refl _)
        simp [hnew, hnone]
      · rw [if_neg heq]

/-- A name that has been bound is looked up as an entry at its place, with what it was bound to. -/
theorem Indexed.lookup_bind (hr : r.Indexed) (display : String) (binder : Binder) :
    ∃ e, (r.bind display binder).lookup (.ofSpelling display) = some e ∧
      (r.bind display binder).get? e.id = some e ∧ e.binder = binder := by
  have hbinds := hr.binds display binder
  obtain ⟨e, hlookup, hbinder⟩ :
      ∃ e, (r.bind display binder).lookup (.ofSpelling display) = some e ∧ e.binder = binder := by
    cases hold : r.lookup (.ofSpelling display) with
    | none => exact ⟨_, hbinds.bound hold, rfl⟩
    | some old => exact ⟨_, hbinds.rebound old hold, rfl⟩
  obtain ⟨id, -, hget⟩ := Option.bind_eq_some_iff.1 hlookup
  refine ⟨e, hlookup, ?_, hbinder⟩
  rw [(hr.bind display binder).id hget, hget]

theorem bind_extends (r : Registry) (display : String) (binder : Binder) :
    r.Extends (r.bind display binder) := by
  intro id e he
  rcases r.bind_cases display binder with ⟨place, -, -, hbind⟩ | ⟨-, hbind⟩
  · refine ⟨if place = id then { e with binder } else e, ?_, ?_⟩
    · rw [hbind, get?_rebind, he, Option.map_some]
    · split <;> exact ⟨rfl, rfl, rfl⟩
  · refine ⟨e, ?_, rfl, rfl, rfl⟩
    have hne : id ≠ ⟨r.size⟩ := fun heq => by
      subst heq
      exact absurd (index_lt_of_get? he) (Nat.lt_irrefl _)
    rw [hbind, get?_add, if_neg hne, he]

/-! ## Values and units -/

/-- No value hides a unit. -/
def Unreserved (t : UnitTable) (r : Registry) : Prop :=
  ∀ e ∈ r.entries, ∀ v source, e.binder = .value v source → t.isReserved e.name = false

theorem bindValue_eq_ok {v : Value} {source : String} {span : Span}
    (h : r.bindValue t display v source span = .ok r') :
    t.isReserved (.ofSpelling display) = false ∧
      r' = r.bind display (.value v (trimmed source)) := by
  unfold bindValue at h
  dsimp only at h
  split at h
  · cases h
  · rename_i hreserved
    cases h
    exact ⟨Bool.eq_false_iff.2 hreserved, rfl⟩

/-- A new entry is one from before, or bears the name that was bound. -/
theorem Indexed.mem_bind (hr : r.Indexed) (h : e ∈ (r.bind display binder).entries) :
    e ∈ r.entries ∧ e.name ≠ .ofSpelling display ∨
      e.name = .ofSpelling display ∧ e.binder = binder := by
  have hbinds := hr.binds display binder
  by_cases hname : e.name = .ofSpelling display
  · refine .inr ⟨hname, ?_⟩
    have hlookup := (hr.bind display binder).lookup_eq_some_iff.2 ⟨h, hname⟩
    cases hold : r.lookup (.ofSpelling display) with
    | none =>
      rw [hbinds.bound hold] at hlookup
      cases hlookup
      rfl
    | some old =>
      rw [hbinds.rebound old hold] at hlookup
      cases hlookup
      rfl
  · obtain ⟨i, hi⟩ := List.mem_iff_getElem?.1 h
    exact .inl ⟨List.mem_of_getElem? ((hbinds.others ⟨i⟩ e hname).1 hi), hname⟩

theorem Unreserved.bind (hu : r.Unreserved t) (hr : r.Indexed)
    (hbinder : ∀ v source, binder = .value v source →
      t.isReserved (.ofSpelling display) = false) :
    (r.bind display binder).Unreserved t := by
  intro e he v source hv
  rcases hr.mem_bind he with ⟨hold, -⟩ | ⟨hname, hnew⟩
  · exact hu e hold v source hv
  · rw [hname]
    exact hbinder v source (hnew ▸ hv)

/-! ## Calls -/

/-- A call that binds a name. -/
inductive Change where
  | value (display : String) (value : Value) (source : String) (span : Span)
  | function (display : String) (params : List Name) (body : Expr) (source : String)

namespace Change

/-- The name as the call spells it. -/
def spelling : Change → String
  | value display .. | function display .. => display

/-- What the name is to stand for. -/
def given : Change → Binder
  | value _ v source _ => .value v (trimmed source)
  | function display params body source =>
    .function ⟨.ofSpelling display, params, body, trimmed source⟩

/-- Would hide a unit behind a value. -/
def isRefused (t : UnitTable) : Change → Bool
  | value display .. => t.isReserved (.ofSpelling display)
  | function .. => false

end Change

def attempt (t : UnitTable) (r : Registry) : Change → Except Error Registry
  | .value display v source span => r.bindValue t display v source span
  | .function display params body source => .ok (r.defineFunction display params body source)

/-- What is bound after a call. One that fails leaves everything as it was. -/
def change (t : UnitTable) (r : Registry) (c : Change) : Registry :=
  match r.attempt t c with
  | .ok next => next
  | .error _ => r

def changeAll (t : UnitTable) (r : Registry) (cs : List Change) : Registry := cs.foldl (change t) r

theorem attempt_of_isRefused {c : Change} (h : c.isRefused t = true) :
    ∃ error, r.attempt t c = .error error := by
  cases c with
  | value display v source span =>
    exact ⟨_, if_pos h⟩
  | function display params body source => cases h

theorem attempt_of_not_isRefused {c : Change} (h : c.isRefused t = false) :
    r.attempt t c = .ok (r.bind c.spelling c.given) := by
  cases c with
  | value display v source span =>
    change t.isReserved (.ofSpelling display) = false at h
    simp [attempt, bindValue, h, Change.spelling, Change.given]
  | function display params body source => rfl

theorem change_eq (t : UnitTable) (r : Registry) (c : Change) :
    r.change t c = if c.isRefused t then r else r.bind c.spelling c.given := by
  unfold change
  cases hrefused : c.isRefused t with
  | true =>
    obtain ⟨error, herror⟩ := attempt_of_isRefused (r := r) hrefused
    rw [herror, if_pos rfl]
  | false =>
    rw [attempt_of_not_isRefused hrefused]
    rfl

/-- The entries and the places of the names agree, and no value hides a unit. -/
structure Integrity (t : UnitTable) (r : Registry) : Prop where
  indexed : r.Indexed
  unreserved : r.Unreserved t

theorem Integrity.change (hr : r.Integrity t) (c : Change) : (r.change t c).Integrity t := by
  rw [change_eq]
  split
  · exact hr
  · rename_i hrefused
    refine ⟨hr.indexed.bind _ _, hr.unreserved.bind hr.indexed fun v source hgiven => ?_⟩
    cases c with
    | value display v' source' span => exact (Bool.not_eq_true _).mp hrefused
    | function display params body source => cases hgiven

theorem Integrity.changeAll (hr : r.Integrity t) (cs : List Change) :
    (r.changeAll t cs).Integrity t := by
  induction cs generalizing r with
  | nil => exact hr
  | cons c cs ih => exact ih (hr.change c)

theorem change_extends (t : UnitTable) (r : Registry) (c : Change) : r.Extends (r.change t c) := by
  rw [change_eq]
  split
  · exact .refl r
  · exact bind_extends r _ _

theorem changeAll_extends (t : UnitTable) (r : Registry) (cs : List Change) :
    r.Extends (r.changeAll t cs) := by
  induction cs generalizing r with
  | nil => exact .refl r
  | cons c cs ih => exact (change_extends t r c).trans (ih _)

/-- After any calls, every entry stands at the place of its number, a name is looked up as the one
entry that bears it, and no value hides a unit. A call that fails changes nothing, any other one
only the entry of its name, and no entry ever loses its place, its name or its spelling. -/
theorem integrity_of_changes (t : UnitTable) (cs : List Change) :
    let r := changeAll t {} cs
    (∀ i (e : Entry), r.entries[i]? = some e → e.id = ⟨i⟩) ∧
    (∀ name e, r.lookup name = some e ↔ e ∈ r.entries ∧ e.name = name) ∧
    (∀ name id, r.place? name = some id ↔ ∃ e, r.get? id = some e ∧ e.name = name) ∧
    (r.entries.map Entry.name).Nodup ∧
    (∀ e ∈ r.entries, ∀ v source, e.binder = .value v source → t.isReserved e.name = false) ∧
    (∀ c, match r.attempt t c with
      | .error _ => c.isRefused t = true ∧ r.change t c = r
      | .ok next => r.change t c = next ∧ r.Binds c.spelling c.given next) ∧
    ∀ more, r.Extends (r.changeAll t more) := by
  intro r
  have hempty : ({} : Registry).Integrity t := ⟨indexed_empty, nofun⟩
  have hr : r.Integrity t := hempty.changeAll cs
  refine ⟨fun i e he => hr.indexed.id he, fun name e => hr.indexed.lookup_eq_some_iff,
    fun name id => hr.indexed.place?, hr.indexed.distinct, hr.unreserved, fun c => ?_,
    changeAll_extends t r⟩
  have hchange := change_eq t r c
  cases hrefused : c.isRefused t with
  | true =>
    obtain ⟨error, herror⟩ := attempt_of_isRefused (r := r) hrefused
    rw [hrefused, if_pos rfl] at hchange
    rw [herror]
    exact ⟨rfl, hchange⟩
  | false =>
    rw [hrefused] at hchange
    rw [attempt_of_not_isRefused hrefused]
    exact ⟨hchange, hr.indexed.binds _ _⟩

end Worksheet.Registry
