import Mathlib.Data.List.Nodup
import Mathlib.Data.List.Perm.Basic
import Mathlib.Data.Option.Basic
import Thesaurus.Json.Basic

/-!
# Fields of JSON objects

The fields of an object have no order that matters: a reader looks for them by name. It finds the
same in a value and in the same value with its fields in another order.

- `Json.Rearranged`: whether two values differ in the order of fields only.
- `Json.field?_rearranged`: the fields of a name are alike, where no name occurs twice.
- `Json.Reads`: whether a reader takes back all that a writer writes, in whatever order.
- `Json.Reads.required`, `Json.Reads.optional`, `Json.Reads.default`: how it takes back a field.
- `Json.OmitsAbsent`: whether nothing absent is written.
-/

namespace Thesaurus

namespace Json

variable {α : Type} {a : α} {o : Option α} {name other : String}
  {fields fields' : List (String × Json)}
  {j : Json} {encode : α → Json} {decode : Json → Option α}

/-! ## Order of fields -/

mutual

/-- Whether two values differ at most in the order of the fields of objects, at any depth. -/
inductive Rearranged : Json → Json → Prop where
  | same (j : Json) : Rearranged j j
  | array {items items' : List Json} (each : RearrangedAll items items') :
      Rearranged (.array items) (.array items')
  | object {fields inner fields' : List (String × Json)} (each : RearrangedFields fields inner)
      (order : inner.Perm fields') : Rearranged (.object fields) (.object fields')

/-- Whether values differ one by one in the order of fields at most. -/
inductive RearrangedAll : List Json → List Json → Prop where
  | nil : RearrangedAll [] []
  | cons {j j' : Json} {rest rest' : List Json} (first : Rearranged j j')
      (others : RearrangedAll rest rest') : RearrangedAll (j :: rest) (j' :: rest')

/-- Whether fields have the same names, and values that differ in the order of fields at most. -/
inductive RearrangedFields : List (String × Json) → List (String × Json) → Prop where
  | nil : RearrangedFields [] []
  | cons (name : String) {j j' : Json} {rest rest' : List (String × Json)}
      (first : Rearranged j j') (others : RearrangedFields rest rest') :
      RearrangedFields ((name, j) :: rest) ((name, j') :: rest')

end

theorem RearrangedAll.refl (items : List Json) : RearrangedAll items items := by
  induction items with
  | nil => exact .nil
  | cons j rest ih => exact .cons (.same j) ih

theorem RearrangedFields.refl (fields : List (String × Json)) : RearrangedFields fields fields := by
  induction fields with
  | nil => exact .nil
  | cons field rest ih => exact .cons field.1 (.same field.2) ih

/-- What a list is rearranged to is a list. -/
theorem exists_of_rearranged_array {items : List Json} (h : Rearranged (.array items) j) :
    ∃ items', j = .array items' ∧ RearrangedAll items items' := by
  cases h with
  | same => exact ⟨items, rfl, .refl items⟩
  | array heach => exact ⟨_, rfl, heach⟩

/-- What an object is rearranged to is an object. -/
theorem exists_of_rearranged_object (h : Rearranged (.object fields) j) :
    ∃ inner fields', j = .object fields' ∧ RearrangedFields fields inner ∧ inner.Perm fields' := by
  cases h with
  | same => exact ⟨fields, fields, rfl, .refl fields, .refl fields⟩
  | object heach horder => exact ⟨_, _, rfl, heach, horder⟩

/-! ## Fields by name -/

theorem field?_cons (value : Json) : field? ((other, value) :: fields) name =
    if name = other then some value else field? fields name := by
  rw [field?, List.lookup_cons]
  by_cases h : name = other
  · simp [h]
  · simp only [beq_eq_false_iff_ne.2 h, if_neg h, field?]

@[simp] theorem field?_append : field? (fields ++ fields') name =
    (field? fields name).or (field? fields' name) :=
  List.lookup_append

@[simp] theorem field?_optional : field? (optional other encode o) name =
    if name = other then o.map encode else none := by
  cases o with
  | none => simp [optional, field?]
  | some a => exact field?_cons _

theorem RearrangedFields.names_eq (h : RearrangedFields fields fields') :
    fields'.map Prod.fst = fields.map Prod.fst := by
  induction fields generalizing fields' with
  | nil =>
    cases h
    rfl
  | cons field rest ih =>
    cases h with
    | cons name hfirst hothers => exact congrArg (name :: ·) (ih hothers)

theorem RearrangedFields.field? (h : RearrangedFields fields fields') (name : String) :
    Option.Rel Rearranged (field? fields name) (Json.field? fields' name) := by
  induction fields generalizing fields' with
  | nil =>
    cases h
    exact .none
  | cons field rest ih =>
    cases h with
    | cons other hfirst hothers =>
      rw [field?_cons, field?_cons]
      split
      · exact .some hfirst
      · exact ih hothers

/-- Where no name occurs twice, the order of fields does not matter. -/
theorem field?_perm (h : fields.Perm fields') (hnames : (fields.map Prod.fst).Nodup)
    (name : String) : field? fields name = field? fields' name := by
  induction h with
  | nil => rfl
  | cons field _ ih =>
    rw [field?_cons, field?_cons, ih (List.nodup_cons.1 hnames).2]
  | swap first second rest =>
    -- two fields of one name would be the same name twice
    have hapart : second.1 ≠ first.1 := by
      simp only [List.map_cons, List.nodup_cons, List.mem_cons, not_or] at hnames
      exact hnames.1.1
    rw [field?_cons, field?_cons, field?_cons, field?_cons]
    by_cases h₁ : name = first.1
    · rw [if_pos h₁, if_neg fun h₂ => hapart (h₂.symm.trans h₁), if_pos h₁]
    · rw [if_neg h₁, if_neg h₁]
  | trans hfirst _ ih₁ ih₂ =>
    rw [ih₁ hnames, ih₂ ((hfirst.map Prod.fst).nodup_iff.1 hnames)]

/-- The fields of a name are alike in two objects that differ in the order of fields only. -/
theorem field?_rearranged {inner : List (String × Json)} (heach : RearrangedFields fields inner)
    (horder : inner.Perm fields') (hnames : (fields.map Prod.fst).Nodup) (name : String) :
    Option.Rel Rearranged (field? fields name) (field? fields' name) := by
  rw [← field?_perm horder (heach.names_eq ▸ hnames)]
  exact heach.field? name

/-- A field that is there is there in the other object, too. -/
theorem exists_of_alike {j : Json} {found : Option Json}
    (halike : Option.Rel Rearranged (some j) found) : ∃ j', found = some j' ∧ j.Rearranged j' := by
  cases halike with
  | some hrearranged => exact ⟨_, rfl, hrearranged⟩

theorem eq_none_of_alike {found : Option Json} (halike : Option.Rel Rearranged none found) :
    found = none := by
  cases halike
  rfl

/-! ## Reading what was written -/

/-- Whether a reader takes back all that a writer writes, in whatever order the fields come. -/
def Reads (encode : α → Json) (decode : Json → Option α) : Prop :=
  ∀ a j, (encode a).Rearranged j → decode j = some a

theorem reads_string : Reads .string asString? := by
  rintro s _ ⟨⟩
  rfl

theorem reads_bool : Reads .bool asBool? := by
  rintro b _ ⟨⟩
  rfl

theorem reads_number : Reads .number asNat? := by
  rintro n _ ⟨⟩
  rfl

/-- A field that is always written is read again. -/
theorem Reads.required (h : Reads encode decode)
    (halike : Option.Rel Rearranged (field? fields name) (field? fields' name))
    (hwritten : field? fields name = some (encode a)) :
    (field? fields' name).bind decode = some a := by
  obtain ⟨j, hfound, hrearranged⟩ := exists_of_alike (hwritten ▸ halike)
  rw [hfound, Option.bind_some, h a j hrearranged]

/-- So it is if it has a default. -/
theorem Reads.default (init : α) (h : Reads encode decode)
    (halike : Option.Rel Rearranged (field? fields name) (field? fields' name))
    (hwritten : field? fields name = some (encode a)) :
    readDefault init decode fields' name = some a := by
  have hrequired := h.required halike hwritten
  unfold readDefault
  cases hfound : field? fields' name with
  | none =>
    rw [hfound] at hrequired
    cases hrequired
  | some j =>
    rw [hfound] at hrequired
    exact hrequired

/-- A field that is left out where there is no value is read again, or found missing. -/
theorem Reads.optional (h : Reads encode decode) (hnull : decode .null = none)
    (halike : Option.Rel Rearranged (field? fields name) (field? fields' name))
    (hwritten : field? fields name = o.map encode) :
    readOptional decode fields' name = some o := by
  unfold readOptional
  cases o with
  | none =>
    rw [hwritten, Option.map_none] at halike
    rw [eq_none_of_alike halike]
  | some a =>
    have hrequired := h.required halike hwritten
    split
    · next hmissing =>
      rw [hmissing] at hrequired
      cases hrequired
    · next habsent =>
      rw [habsent] at hrequired
      exact absurd (hnull.symm.trans hrequired) (by simp)
    · next value _ hfound =>
      rw [hfound] at hrequired
      rw [show decode value = some a from hrequired, Option.map_some]

/-! ## What is left out -/

/-- Whether a value says anything: it is neither null nor an empty list. -/
def isPresent : Json → Bool
  | .null => false
  | .array items => !items.isEmpty
  | _ => true

mutual

/-- Whether nothing absent is written in a value: every field of every object says something. -/
def omitsAbsent : Json → Bool
  | .array items => allOmitAbsent items
  | .object fields => fieldsOmitAbsent fields
  | _ => true

/-- Whether nothing absent is written in any of several values. -/
def allOmitAbsent : List Json → Bool
  | [] => true
  | j :: rest => j.omitsAbsent && allOmitAbsent rest

/-- Whether every field says something, and nothing absent is written in it. -/
def fieldsOmitAbsent : List (String × Json) → Bool
  | [] => true
  | (_, j) :: rest => j.isPresent && j.omitsAbsent && fieldsOmitAbsent rest

end

@[simp] theorem fieldsOmitAbsent_append :
    fieldsOmitAbsent (fields ++ fields') =
      (fieldsOmitAbsent fields && fieldsOmitAbsent fields') := by
  induction fields with
  | nil => rfl
  | cons field rest ih => simp [fieldsOmitAbsent, ih, Bool.and_assoc]

/-- An optional field is written only where it says something. -/
theorem fieldsOmitAbsent_optional
    (h : ∀ a, (encode a).isPresent = true ∧ (encode a).omitsAbsent = true) :
    fieldsOmitAbsent (optional name encode o) = true := by
  cases o with
  | none => rfl
  | some a => simp [optional, fieldsOmitAbsent, h a]

/-- The names of an optional field. -/
theorem names_optional (o : Option α) :
    ((optional name encode o).map Prod.fst).Sublist [name] := by
  cases o with
  | none => exact List.nil_sublist _
  | some a => exact .refl _

end Json

end Thesaurus
