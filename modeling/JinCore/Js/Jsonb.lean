import JinCore.Js.JsonText
import JinCore.Js.Utf8
import Mathlib.Data.List.Sort

/-!
# `jsonb` columns

A column of this type keeps a value and not its text: it refuses a string that the database has no text for, and the
members of an object come back in an order of its own.

* `Value.stored`            the value that is read back, none where the insert fails;
* `membersOf`               the properties of an object whose members are read one after the other;
* `perm_membersOf`, `inOrder_membersOf`   they are these members, in the order of properties;
* `lookup_perm`             a property does not depend on the order;
* `stored_object`           what becomes of an object.
-/

namespace Json
open JsString

/-! ## the column -/

/-- a string that the database has a text for -/
def isStorable (s : JsString) : Bool := s.isWellFormed && !s.units.contains 0

/-- shorter keys first, then by their bytes -/
def KeyLe (m m' : JsString × Value) : Prop :=
  m.1.utf8.length < m'.1.utf8.length ∨ m.1.utf8.length = m'.1.utf8.length ∧ ¬ m'.1.utf8 < m.1.utf8

instance : DecidableRel KeyLe := fun m m' =>
  inferInstanceAs (Decidable (m.1.utf8.length < m'.1.utf8.length ∨
    m.1.utf8.length = m'.1.utf8.length ∧ ¬ m'.1.utf8 < m.1.utf8))

/-- the properties of an object whose members are read in this order -/
def membersOf (members : List (JsString × Value)) : List (JsString × Value) :=
  members.foldl (fun read m => setMember read m.1 m.2) []

mutual

def Value.stored : Value → Option Value
  | .string s => if isStorable s then some (.string s) else none
  | .array items => (storedItems items).map Value.array
  | .object members => (storedMembers members).map fun stored => .object (membersOf (stored.insertionSort KeyLe))
  | v => some v
termination_by structural v => v

def storedItems : List Value → Option (List Value)
  | [] => some []
  | v :: vs => v.stored.bind fun stored => (storedItems vs).map (stored :: ·)
termination_by structural vs => vs

def storedMembers : List (JsString × Value) → Option (List (JsString × Value))
  | [] => some []
  | (key, v) :: members =>
    if isStorable key then v.stored.bind fun stored => (storedMembers members).map ((key, stored) :: ·) else none
termination_by structural members => members

end

/-! ## the order of the members -/

section
variable {members members' : List (JsString × Value)} {key : JsString} {v : Value}

theorem nodup_of_inOrder (h : InOrder members) : (members.map Prod.fst).Nodup :=
  List.pairwise_map.mpr (h.imp fun hbefore => hbefore.1)

theorem perm_setMember (h : key ∉ members.map Prod.fst) : (setMember members key v).Perm ((key, v) :: members) := by
  induction members with
  | nil => exact List.Perm.refl _
  | cons first members ih =>
    obtain ⟨k, w⟩ := first
    rw [List.map_cons, List.mem_cons, not_or] at h
    rw [setMember, if_neg (Ne.symm h.1)]
    split
    · exact List.Perm.refl _
    · exact ((ih h.2).cons (k, w)).trans (List.Perm.swap _ _ _)

theorem perm_foldl_setMember (members : List (JsString × Value)) :
    ∀ read, ((members ++ read).map Prod.fst).Nodup →
      (members.foldl (fun read m => setMember read m.1 m.2) read).Perm (members ++ read) := by
  induction members with
  | nil => exact fun _ _ => List.Perm.refl _
  | cons m members ih =>
    intro read hnodup
    have hnew : m.1 ∉ read.map Prod.fst := by
      rw [List.cons_append, List.map_cons, List.nodup_cons, List.map_append] at hnodup
      exact fun hmem => hnodup.1 (List.mem_append_right _ hmem)
    have hperm : (members ++ setMember read m.1 m.2).Perm (m :: members ++ read) :=
      ((perm_setMember hnew).append_left members).trans List.perm_middle
    exact (ih _ ((hperm.map Prod.fst).nodup_iff.mpr hnodup)).trans hperm

theorem perm_membersOf (h : (members.map Prod.fst).Nodup) : (membersOf members).Perm members := by
  have hperm := perm_foldl_setMember members [] (by rwa [List.append_nil])
  rwa [List.append_nil] at hperm

theorem inOrder_membersOf (members : List (JsString × Value)) : InOrder (membersOf members) := by
  have hfold : ∀ read, InOrder read → InOrder (members.foldl (fun read m => setMember read m.1 m.2) read) := by
    induction members with
    | nil => exact fun _ h => h
    | cons m members ih => exact fun read h => ih _ (inOrder_setMember h m.1 m.2)
  exact hfold [] List.Pairwise.nil

theorem lookup_iff (h : (members.map Prod.fst).Nodup) : members.lookup key = some v ↔ (key, v) ∈ members := by
  induction members with
  | nil =>
    refine ⟨fun hsome => ?_, fun hmem => absurd hmem List.not_mem_nil⟩
    cases hsome
  | cons first members ih =>
    obtain ⟨k, w⟩ := first
    rw [List.map_cons, List.nodup_cons] at h
    rw [List.lookup_cons, List.mem_cons]
    by_cases hk : key = k
    · rw [beq_iff_eq.mpr hk]
      have hnot : (key, v) ∉ members := by
        intro hmem
        apply h.1
        rw [← hk]
        exact List.mem_map.mpr ⟨(key, v), hmem, rfl⟩
      constructor
      · intro hw
        exact Or.inl (Prod.ext hk (Option.some.inj hw).symm)
      · intro hor
        exact congrArg some (Prod.ext_iff.mp (hor.resolve_right hnot)).2.symm
    · rw [beq_false_of_ne hk]
      refine (ih h.2).trans ⟨Or.inr, fun hor => hor.resolve_left fun heq => hk (Prod.ext_iff.mp heq).1⟩

theorem lookup_perm (h : (members.map Prod.fst).Nodup) (hperm : members.Perm members') (key : JsString) :
    members.lookup key = members'.lookup key := by
  refine Option.ext fun v => ?_
  rw [lookup_iff h, lookup_iff ((hperm.map Prod.fst).nodup_iff.mp h)]
  exact hperm.mem_iff

theorem storedMembers_cons {k : JsString} {w : Value} (h : storedMembers ((k, w) :: members) = some members') :
    ∃ stored rest, w.stored = some stored ∧ storedMembers members = some rest ∧ members' = (k, stored) :: rest := by
  obtain ⟨-, h⟩ := Option.ite_none_right_eq_some.mp h
  obtain ⟨stored, hstored, h⟩ := Option.bind_eq_some_iff.mp h
  obtain ⟨rest, hrest, rfl⟩ := Option.map_eq_some_iff.mp h
  exact ⟨stored, rest, hstored, hrest, rfl⟩

theorem keys_storedMembers : ∀ {members members' : List (JsString × Value)},
    storedMembers members = some members' → members'.map Prod.fst = members.map Prod.fst := by
  intro members
  induction members with
  | nil =>
    intro members' h
    cases h
    rfl
  | cons first members ih =>
    intro members' h
    obtain ⟨stored, rest, -, hrest, rfl⟩ := storedMembers_cons h
    rw [List.map_cons, List.map_cons, ih hrest]

theorem lookup_stored_none : ∀ {members members' : List (JsString × Value)}, storedMembers members = some members' →
    members.lookup key = none → members'.lookup key = none := by
  intro members
  induction members with
  | nil =>
    intro members' h _
    cases h
    rfl
  | cons first members ih =>
    intro members' h hnone
    obtain ⟨stored, rest, -, hrest, rfl⟩ := storedMembers_cons h
    rw [List.lookup_cons] at hnone ⊢
    split at hnone
    · cases hnone
    · exact ih hrest hnone

theorem lookup_stored_some : ∀ {members members' : List (JsString × Value)}, storedMembers members = some members' →
    members.lookup key = some v → ∃ stored, v.stored = some stored ∧ members'.lookup key = some stored := by
  intro members
  induction members with
  | nil =>
    intro members' _ hsome
    cases hsome
  | cons first members ih =>
    intro members' h hsome
    obtain ⟨stored, rest, hstored, hrest, rfl⟩ := storedMembers_cons h
    rw [List.lookup_cons] at hsome ⊢
    split at hsome
    · cases hsome
      exact ⟨stored, hstored, rfl⟩
    · exact ih hrest hsome

/-- an object comes back with the same keys, in the order of properties -/
theorem stored_object (horder : InOrder members) (h : (Value.object members).stored = some v) :
    ∃ stored read, storedMembers members = some stored ∧ v = .object read ∧ read.Perm stored ∧ InOrder read ∧
      (stored.map Prod.fst).Nodup := by
  obtain ⟨stored, hstored, rfl⟩ := Option.map_eq_some_iff.mp h
  have hnodup : (stored.map Prod.fst).Nodup := by
    rw [keys_storedMembers hstored]
    exact nodup_of_inOrder horder
  have hsorted := List.perm_insertionSort KeyLe stored
  refine ⟨stored, _, hstored, rfl, ?_, inOrder_membersOf _, hnodup⟩
  exact (perm_membersOf ((hsorted.map Prod.fst).nodup_iff.mpr hnodup)).trans hsorted

end

end Json
