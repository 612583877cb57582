import JinCore.Js.JsonText

/-!
# Schemas (`zod`)

A schema gives what it takes of a value, none where it has an issue. The members of an object are looked up by their
keys; a member that is no key of the schema is left out, or refused by a strict object.

* `stringSchema`, `boolSchema`     texts that pass a check, and truth values;
* `orDefault`, `optional`          a member that may be absent;
* `arraySchema_map`                a schema on each item;
* `sound_lookup`, `lookup_shown`   a member of a value that JSON can give.
-/

namespace Zod
open JsString Json

/-- a text of which `check` is true -/
def stringSchema (check : JsString → Bool) : Value → Option JsString
  | .string s => if check s then some s else none
  | _ => none

def boolSchema : Value → Option Bool
  | .bool b => some b
  | _ => none

def orDefault {α : Type} (schema : Value → Option α) (byDefault : α) : Option Value → Option α
  | none => some byDefault
  | some v => schema v

def optional {α : Type} (schema : Value → Option α) : Option Value → Option (Option α)
  | none => some none
  | some v => (schema v).map some

/-- `strict` -/
def isStrict (keys : List JsString) (members : List (JsString × Value)) : Bool :=
  members.all fun m => keys.contains m.1

def arraySchema {α : Type} (schema : Value → Option α) : Value → Option (List α)
  | .array items => items.mapM schema
  | _ => none

theorem stringSchema_eq_some {check : JsString → Bool} {v : Value} {text : JsString} :
    stringSchema check v = some text ↔ v = .string text ∧ check text = true := by
  cases v with
  | string s =>
    show (if check s = true then some s else none) = some text ↔ _
    rw [Option.ite_none_right_eq_some, Option.some.injEq, Value.string.injEq]
    constructor
    · rintro ⟨hcheck, rfl⟩
      exact ⟨rfl, hcheck⟩
    · rintro ⟨rfl, hcheck⟩
      exact ⟨hcheck, rfl⟩
  | _ =>
    refine ⟨fun h => ?_, fun h => ?_⟩
    · cases h
    · cases h.1

/-- what was written item by item is read item by item -/
theorem mapM_inverse {α β γ : Type} {write : α → Option β} {read : β → Option γ} {view : α → γ} {as : List α}
    (h : ∀ a ∈ as, ∀ b, write a = some b → read b = some (view a)) {bs : List β} (hwrite : as.mapM write = some bs) :
    bs.mapM read = some (as.map view) := by
  induction as generalizing bs with
  | nil =>
    rw [List.mapM_nil] at hwrite
    rw [← Option.some.inj hwrite]
    rfl
  | cons a as ih =>
    rw [List.mapM_cons] at hwrite
    obtain ⟨b, hb, hwrite⟩ := Option.bind_eq_some_iff.mp hwrite
    obtain ⟨rest, hrest, hwrite⟩ := Option.bind_eq_some_iff.mp hwrite
    rw [← Option.some.inj hwrite, List.mapM_cons, h a List.mem_cons_self b hb,
      ih (fun a ha => h a (List.mem_cons_of_mem _ ha)) hrest]
    rfl

section
variable {members : List (JsString × Value)}

theorem sound_lookup (h : SoundMembers members) {key : JsString} {v : Value} (hv : members.lookup key = some v) :
    v.Sound := by
  induction members with
  | nil => cases hv
  | cons first members ih =>
    obtain ⟨k, w⟩ := first
    rw [List.lookup_cons] at hv
    split at hv
    · cases hv
      exact h.1
    · exact ih h.2 hv

theorem lookup_shown (members : List (JsString × Value)) (key : JsString) :
    (shownMembers members).lookup key = (members.lookup key).map Value.shown := by
  induction members with
  | nil => rfl
  | cons first members ih =>
    obtain ⟨k, v⟩ := first
    rw [shownMembers, List.lookup_cons, List.lookup_cons, ih]
    split <;> rfl

end

theorem shownItems_eq_map (items : List Value) : shownItems items = items.map Value.shown := by
  induction items with
  | nil => rfl
  | cons v items ih => rw [shownItems, List.map_cons, ih]

mutual

/-- what is read back has the same text -/
theorem text_shown : ∀ v : Value, v.shown.text = v.text
  | .null => rfl
  | .bool _ => rfl
  | .number (.finite _) => rfl
  | .number .nan => rfl
  | .number (.infinity _) => rfl
  | .string _ => rfl
  | .array [] => rfl
  | .array (v :: vs) => by
    rw [Value.shown, shownItems, Value.text, Value.text, text_shown v, itemsText_shown vs]
  | .object [] => rfl
  | .object ((key, v) :: members) => by
    rw [Value.shown, shownMembers, Value.text, Value.text, text_shown v, membersText_shown members]

theorem itemsText_shown : ∀ vs : List Value, itemsText (shownItems vs) = itemsText vs
  | [] => rfl
  | v :: vs => by rw [shownItems, itemsText, itemsText, text_shown v, itemsText_shown vs]

theorem membersText_shown : ∀ members : List (JsString × Value), membersText (shownMembers members) = membersText members
  | [] => rfl
  | (key, v) :: members => by
    rw [shownMembers, membersText, membersText, text_shown v, membersText_shown members]

end

end Zod
