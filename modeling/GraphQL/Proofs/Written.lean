import GraphQL.Proofs.Ordinary

/-!
What leaves are written as. A standard scalar writes values of one form, whatever it is given, and
never null, so a schema whose custom types write plain values writes plain values only.
-/

namespace GraphQL

/-- The form in which a standard scalar writes values. -/
def Standard.Form : Standard → Value → Prop
  | .int, form => ∃ n : Int, form = .int n ∧ -2147483648 ≤ n ∧ n ≤ 2147483647
  | .float, form => ∃ x identity, form = .float x identity ∧ x.isFinite = true
  | .boolean, form => ∃ b, form = .bool b
  | .string, form | .id, form | .date, form | .dateTime, form | .decimal, form =>
    ∃ text, form = .str text

theorem Standard.Form.isPlain {scalar : Standard} {form : Value} (fits : scalar.Form form) :
    form.isPlain = true := by
  cases scalar with
  | int =>
      rcases fits with ⟨n, rfl, _⟩
      rfl
  | float =>
      rcases fits with ⟨x, identity, rfl, _⟩
      rfl
  | _ =>
      rcases fits with ⟨_, rfl⟩
      rfl

namespace Leaf

/-- A computation whose values all have a form. -/
def Gives (form : Value → Prop) (result : Outcome) : Prop := ∀ value, result = .ok value → form value

variable {form : Value → Prop}

theorem gives_ok (value : Value) (fits : form value) : Gives form (.ok value) := by
  intro other same
  cases same
  exact fits

theorem gives_error (failure : Failure) : Gives form (.error failure) := by
  intro other same
  cases same

theorem gives_bind {α : Type} (result : Except Failure α) (next : α → Outcome)
    (each : ∀ value, Gives form (next value)) : Gives form (result >>= next) := by
  cases result with
  | ok value => exact each value
  | error failure => exact gives_error failure

theorem gives_text (value : Value) (each : ∀ text, form (.str text)) :
    Gives form ((liftFault value.text).map .str) := by
  cases value.text with
  | ok text => exact gives_ok _ (each text)
  | error fault => exact gives_error _

theorem gives_int32 (direction : LeafDirection) (n : Int) (original : Value) :
    Gives (Standard.int).Form (int32 direction n original) := by
  unfold int32
  split
  · next inside =>
      simp only [isInt32, Bool.and_eq_true, decide_eq_true_eq] at inside
      exact gives_ok _ ⟨n, rfl, inside⟩
  · exact gives_error _

theorem gives_integral (direction : LeafDirection) (x : Binary64) (original : Value) :
    Gives (Standard.int).Form (integral direction x original) := by
  unfold integral
  split
  · exact gives_error _
  · exact gives_error _
  · split
    · exact gives_int32 direction _ original
    · exact gives_error _

/-- A standard scalar writes values of its form only. -/
theorem gives_serialize (scalar : Standard) (value : Value) :
    Gives scalar.Form (scalar.serialize value) := by
  have texts : ∀ text, ∃ shown, Value.str text = .str shown := fun text => ⟨text, rfl⟩
  cases scalar with
  | int =>
      simp only [Standard.serialize, Int.serialize]
      split
      · next b => exact gives_ok _ ⟨_, rfl, by cases b <;> decide⟩
      · exact gives_int32 _ _ _
      · refine gives_bind _ _ fun found => ?_
        cases found with
        | some x => exact gives_integral _ x _
        | none => exact gives_error _
  | float =>
      simp only [Standard.serialize, Float.serialize]
      split
      · next b => exact gives_ok _ ⟨_, 0, rfl, by cases b <;> decide +kernel⟩
      · refine gives_bind _ _ fun found => ?_
        cases found with
        | some x =>
            simp only
            split
            · next finite => exact gives_ok _ ⟨x, 0, rfl, finite⟩
            · exact gives_error _
        | none => exact gives_error _
  | string =>
      simp only [Standard.serialize, String.serialize]
      split
      · exact gives_ok _ (texts _)
      · exact gives_ok _ (texts _)
      · exact gives_ok _ (texts _)
      · split
        · exact gives_text _ texts
        · exact gives_error _
  | boolean =>
      simp only [Standard.serialize, Boolean.serialize]
      split
      · exact gives_ok _ ⟨_, rfl⟩
      · exact gives_ok _ ⟨_, rfl⟩
      · exact gives_ok _ ⟨_, rfl⟩
      · split
        · exact gives_error _
        · exact gives_ok _ ⟨_, rfl⟩
      · exact gives_ok _ ⟨_, rfl⟩
      · exact gives_error _
  | id =>
      simp only [Standard.serialize, Id.serialize]
      split
      · exact gives_ok _ (texts _)
      · exact gives_ok _ (texts _)
      · exact gives_error _
      · exact gives_error _
      · exact gives_error _
      · split
        · exact gives_text _ texts
        · exact gives_error _
  | date =>
      simp only [Standard.serialize, Date.serialize]
      split
      · exact gives_ok _ (texts _)
      · exact gives_bind _ _ fun problem => gives_error _
  | dateTime =>
      simp only [Standard.serialize, DateTime.serialize]
      split
      · split
        · exact gives_ok _ (texts _)
        · exact gives_bind _ _ fun problem => gives_error _
      · exact gives_bind _ _ fun problem => gives_error _
  | decimal =>
      simp only [Standard.serialize, Decimal.serialize]
      split
      · exact gives_ok _ (texts _)
      · exact gives_ok _ (texts _)
      · exact gives_ok _ (texts _)
      · split
        · exact gives_ok _ (texts _)
        · exact gives_error _
      · exact gives_bind _ _ fun problem => gives_error _

end Leaf

namespace EnumValue

theorem mem_of_stored (items : List EnumValue) (before after : Store)
    (folds : items.foldlM (fun made value =>
        match Value.keyFault? made value.value with
        | some fault => .error fault
        | none => .ok (made.set value.value value)) before = Except.ok after) :
    ∀ bucket, ∀ entry ∈ after.held bucket, entry ∈ before.held bucket ∨ entry.value ∈ items := by
  induction items generalizing before with
  | nil =>
      cases folds
      exact fun bucket entry member => .inl member
  | cons value rest ih =>
      intro bucket entry member
      rw [List.foldlM_cons] at folds
      cases fault : Value.keyFault? before value.value with
      | some found =>
          rw [fault] at folds
          cases folds
      | none =>
          rw [fault] at folds
          rcases ih _ folds bucket entry member with here | later
          · rcases KeyedStore.mem_held_set here with earlier | ⟨_, same⟩
            · exact .inl earlier
            · exact .inr (by rw [same]; exact List.mem_cons_self)
          · exact .inr (List.mem_cons_of_mem _ later)

theorem mem_of_store (values : Table EnumValue) (made : Store) (stored : store values = .ok made) :
    ∀ bucket, ∀ entry ∈ made.held bucket, entry.value ∈ values.items := by
  intro bucket entry member
  rcases mem_of_stored _ _ made stored bucket entry member with before | inside
  · cases before
  · exact inside

theorem name_of_serialize (values : Table EnumValue) (value form : Value)
    (writes : serialize values value = .ok form) : ∃ own ∈ values.items, form = own.name := by
  unfold serialize at writes
  cases stored : store values with
  | error fault =>
      rw [stored] at writes
      cases writes
  | ok made =>
      rw [stored] at writes
      simp only [Leaf.liftFault, Except.mapError, bind, Except.bind] at writes
      split at writes
      · cases writes
      · split at writes
        · next found looked =>
            cases writes
            rcases Option.map_eq_some_iff.1 looked with ⟨entry, located, rfl⟩
            exact ⟨_, mem_of_store values made stored _ entry (List.mem_of_find?_eq_some located), rfl⟩
        · cases writes

end EnumValue

/-- Leaves are written as plain values. -/
def Schema.WritesPlain (schema : Schema) (account : Account) : Prop :=
  ∀ leaf value form, schema.Writes leaf → (schema.serialize leaf value).Yields account (.ok form) →
    form.isPlain = true

/-- A leaf is written in the form of a standard scalar, as what a function of the application
returns, or as the name of an enum value. -/
theorem Schema.form_of_serialize {schema : Schema} {account : Account} {good : Value → Prop}
    {leaf : TypeId} {value form : Value}
    (standard : ∀ (scalar : Standard) (form : Value), scalar.Form form → good form)
    (functions : ∀ id value form, account.called (.serialize id value) (.ok form) → good form)
    (names : ∀ values, (schema.definition leaf).body = .enum (.ok values) →
      ∀ own ∈ values.items, good own.name)
    (yields : (schema.serialize leaf value).Yields account (.ok form)) : good form := by
  unfold Layout.serialize at yields
  split at yields
  · next scalar _ => exact standard scalar form (Leaf.gives_serialize scalar value form yields.symm)
  · next serialize _ _ _ =>
      cases serialize with
      | function id =>
          rcases yields with ⟨reply, called, same⟩
          cases same
          exact functions id value form called
      | other value => cases yields
      | absent => cases yields
  · next values body =>
      cases values with
      | error fault => cases yields
      | ok values =>
          rcases EnumValue.name_of_serialize values value form yields.symm with ⟨own, member, rfl⟩
          exact names values body own member
  · cases yields

theorem Schema.isPlain_of_serialize (schema : Schema) (account : Account)
    (functions : ∀ id value form, account.called (.serialize id value) (.ok form) →
      form.isPlain = true)
    (names : ∀ leaf values, (schema.definition leaf).body = .enum (.ok values) →
      ∀ own ∈ values.items, own.name.isPlain = true) (leaf : TypeId) (value form : Value)
    (yields : (schema.serialize leaf value).Yields account (.ok form)) : form.isPlain = true :=
  form_of_serialize (fun _ _ fits => fits.isPlain) functions (names leaf) yields

theorem Schema.writesPlain (schema : Schema) (account : Account)
    (functions : ∀ id value form, account.called (.serialize id value) (.ok form) →
      form.isPlain = true)
    (names : ∀ leaf values, (schema.definition leaf).body = .enum (.ok values) →
      ∀ own ∈ values.items, own.name.isPlain = true) : schema.WritesPlain account :=
  fun leaf value form _ yields =>
    schema.isPlain_of_serialize account functions names leaf value form yields

end GraphQL
