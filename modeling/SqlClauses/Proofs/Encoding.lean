import SqlClauses.Encoding
import SqlClauses.Proofs.Json
import SqlClauses.Proofs.WellFormed

/-!
# Clauses and expressions as JSON: laws

Clauses and expressions are objects, and their members are listed here by name, down to the strings
that they are made of.

JSON does not say of which kind a value is, nor whether a string is a name or tells what is wrong
with a malformed token. Of a well-formed value both can be told: the kind from the key, and a
malformed token from the dots and commas that no name has. So the expression of a query can be told
from its JSON text.

* `Clause.toJson_eq_obj_members`, `Expression.toJson_eq_obj_members`: what is written.
* `toJson_inj_of_canonical`, `toJson_inj_of_wellFormed`: the same of fields and of values.
* `parse_eq_iff_json_eq`: queries with the same JSON text say the same.
-/

namespace SqlClauses

open Text

/-! ## Members -/

/-- The members of a clause: the spelling of its keyword, the bytes where this starts and ends, and
the content. -/
def Clause.members (clause : Clause) : List (Text × Json) :=
  [("keyword".toList, .str clause.keyword.spelling), ("start".toList, .num clause.span.start),
    ("end".toList, .num clause.span.stop), ("content".toList, .str clause.content)]

/-- The members of an expression: under the key of each keyword a text, a list of conditions, or a
list of fields, each as its name, as its alias and its name, or as what is wrong with it. -/
def Expression.members (expression : Expression) : List (Text × Json) :=
  expression.entries.map fun (keyword, value) =>
    (keyword.key, match value with
      | .text words => .str words
      | .conditions parts => .arr (parts.map .str)
      | .fields fields => .arr (fields.map fun
        | .named name => .str name
        | .aliased qualifier name =>
          .obj [("alias".toList, .str qualifier), ("field".toList, .str name)]
        | .malformed token => .str ("invalid value (".toList ++ token ++
          "): a field may carry only one alias, e.g. `table`.`field`".toList)))

theorem Clause.toJson_eq_obj_members (clause : Clause) : clause.toJson = .obj clause.members := rfl

theorem Expression.toJson_eq_obj_members (expression : Expression) :
    expression.toJson = .obj expression.members := by
  rw [toJson, members]
  congr 1
  apply List.map_congr_left
  rintro ⟨keyword, value⟩ _
  cases value with
  | text words => rfl
  | conditions parts => rfl
  | fields fields =>
    refine congrArg (fun items => (keyword.key, Json.arr items)) (List.map_congr_left ?_)
    intro field _
    cases field <;> rfl

/-! ## Keys -/

theorem Keyword.key_injective {a b : Keyword} (h : a.key = b.key) : a = b := by
  revert h
  cases a <;> cases b <;> decide

/-- Items that can be told from what they are mapped to make up lists that can. -/
theorem map_inj_of_forall {α β : Type} {f : α → β} {xs ys : List α}
    (h : ∀ x ∈ xs, ∀ y ∈ ys, f x = f y → x = y) (heq : xs.map f = ys.map f) : xs = ys := by
  induction xs generalizing ys with
  | nil => simpa using heq.symm
  | cons x xs ih =>
    cases ys with
    | nil => simp at heq
    | cons y ys =>
      rw [List.map_cons, List.map_cons, List.cons.injEq] at heq
      obtain rfl := h x (by simp) y (by simp) heq.1
      rw [ih (fun a ha b hb => h a (by simp [ha]) b (by simp [hb])) heq.2]

/-! ## Fields -/

/-- Every diagnostic has a dot, which is where it differs from a name. -/
theorem Field.dot_mem_diagnostic (token : Text) : '.' ∈ diagnostic token :=
  List.mem_append_right _ (by decide)

theorem Field.diagnostic_injective {token other : Text} (h : diagnostic token = diagnostic other) :
    token = other := by
  unfold diagnostic at h
  exact List.append_cancel_left (List.append_cancel_right h)

theorem Field.toJson_inj_of_canonical {field other : Field} (hfield : field.Canonical)
    (hother : other.Canonical) (h : field.toJson = other.toJson) : field = other := by
  cases field with
  | named name =>
    cases other with
    | named name' => simpa [toJson] using h
    | aliased => simp [toJson] at h
    | malformed token =>
      obtain rfl : name = diagnostic token := by simpa [toJson] using h
      exact absurd (dot_mem_diagnostic token) hfield.2
  | aliased qualifier name =>
    cases other with
    | aliased => simpa [toJson] using h
    | _ => simp [toJson] at h
  | malformed token =>
    cases other with
    | named name =>
      obtain rfl : diagnostic token = name := by simpa [toJson] using h
      exact absurd (dot_mem_diagnostic token) hother.2
    | aliased => simp [toJson] at h
    | malformed other =>
      have hdiagnostic : diagnostic token = diagnostic other := by simpa [toJson] using h
      rw [diagnostic_injective hdiagnostic]

/-- Without being canonical they cannot be told apart. -/
example (token : Text) :
    (Field.named (Field.diagnostic token)).toJson = (Field.malformed token).toJson := rfl

/-! ## Values -/

theorem Value.toJson_inj_of_fields {fields others : List Field}
    (hfields : ∀ field ∈ fields, field.Canonical) (hothers : ∀ field ∈ others, field.Canonical)
    (h : (Value.fields fields).toJson = (Value.fields others).toJson) : fields = others := by
  simp only [toJson, Json.arr.injEq] at h
  refine map_inj_of_forall (fun field hfield other hother heq => ?_) h
  exact Field.toJson_inj_of_canonical (hfields field hfield) (hothers other hother) heq

/-- Of two values under one keyword the kinds are the same. -/
theorem Value.toJson_inj_of_wellFormed {reading : Reading} {value other : Value}
    (hvalue : value.WellFormed reading) (hother : other.WellFormed reading)
    (h : value.toJson = other.toJson) : value = other := by
  obtain ⟨-, hvalue⟩ := hvalue
  obtain ⟨-, hother⟩ := hother
  cases reading with
  | verbatim =>
    cases value with
    | text words =>
      cases other with
      | text words' => simpa [toJson] using h
      | _ => contradiction
    | _ => contradiction
  | fields =>
    cases value with
    | fields entries =>
      cases other with
      | fields entries' => rw [toJson_inj_of_fields hvalue.2 hother.2 h]
      | _ => contradiction
    | _ => contradiction
  | join =>
    cases value with
    | fields entries =>
      cases other with
      | fields entries' => rw [toJson_inj_of_fields hvalue.2 hother.2 h]
      | _ => contradiction
    | _ => contradiction
  | conditions =>
    cases value with
    | conditions parts =>
      cases other with
      | conditions parts' =>
        simp only [toJson, Json.arr.injEq] at h
        rw [List.map_injective_iff.2 (fun _ _ heq => Json.str.inj heq) h]
      | _ => contradiction
    | _ => contradiction

/-! ## Expressions -/

theorem Expression.toJson_inj_of_wellFormed {expression other : Expression}
    (hexpression : ∀ entry ∈ expression.entries, entry.2.WellFormed entry.1.reading)
    (hother : ∀ entry ∈ other.entries, entry.2.WellFormed entry.1.reading)
    (h : expression.toJson = other.toJson) : expression = other := by
  simp only [toJson, Json.obj.injEq] at h
  refine eq_of_entries_eq (map_inj_of_forall (fun entry hentry entry' hentry' heq => ?_) h)
  rw [Prod.mk.injEq] at heq
  have hkeyword : entry.1 = entry'.1 := Keyword.key_injective heq.1
  have hwellFormed := hother entry' hentry'
  rw [← hkeyword] at hwellFormed
  exact Prod.ext hkeyword
    (Value.toJson_inj_of_wellFormed (hexpression entry hentry) hwellFormed heq.2)

/-- Nothing of what a query says is lost in its JSON text, be it compact or pretty: queries with
the same text have the same keywords in the same order, and the same values of the same kinds. -/
theorem parse_eq_iff_json_eq (a b : Text) :
    ((Expression.parse a).toJson.compact = (Expression.parse b).toJson.compact ↔
      Expression.parse a = Expression.parse b) ∧
    ((Expression.parse a).toJson.pretty = (Expression.parse b).toJson.pretty ↔
      Expression.parse a = Expression.parse b) := by
  have hjson (h : (Expression.parse a).toJson = (Expression.parse b).toJson) :
      Expression.parse a = Expression.parse b :=
    Expression.toJson_inj_of_wellFormed (wellFormed_of_mem_entries a)
      (wellFormed_of_mem_entries b) h
  refine ⟨⟨fun h => hjson (Json.compact_injective h), fun h => ?_⟩,
    ⟨fun h => hjson (Json.pretty_injective h), fun h => ?_⟩⟩
  · rw [h]
  · rw [h]

end SqlClauses
