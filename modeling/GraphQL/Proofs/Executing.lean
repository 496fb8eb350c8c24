import GraphQL.Proofs.Completing

/-!
Execution agrees with what it means. Whatever an operation comes to shows the places that it
computes, in whichever order its root fields are executed.
-/

namespace GraphQL

/-- What is encountered in an order of the root fields, beside what is encountered where they run side
by side: the same errors are recorded. -/
structure RootOrder.Keeps (order : RootOrder) (encountered aside : List Encounter) : Prop where
  recorded : Encounter.recordedIn encountered = Encounter.recordedIn aside
  same : order = .sideBySide → encountered = aside

theorem RootOrder.Keeps.append {order : RootOrder} {encountered aside : List Encounter}
    (keeps : order.Keeps encountered aside) (later : List Encounter) :
    order.Keeps (encountered ++ later) (aside ++ later) :=
  ⟨by rw [Encounter.recordedIn_append, keeps.recorded, Encounter.recordedIn_append],
    fun sideBySide => by rw [keeps.same sideBySide]⟩

namespace Execution

open Program Completion

variable {setting : Setting} {account : Account} {known : TypeId → Prop}

theorem runs_resolveByName (source arguments : Value) (info : Info) (next : Reply → Program) :
    Runs account (Reference.resolvedByName account source arguments info)
      (resolveByName source arguments info next) next := by
  unfold resolveByName Reference.resolvedByName
  cases (source.get? info.fieldName).getD .null with
  | callable handle => exact runs_asked _ next
  | _ => exact fun _ _ comes => ⟨_, rfl, comes⟩

theorem runs_resolve (field : Field) (source arguments : Value) (info : Info)
    (next : Reply → Program) :
    Runs account (Reference.resolved setting account field source arguments info)
      (resolve setting field source arguments info next) next := by
  unfold resolve Reference.resolved
  split
  · exact runs_pure _ next
  · split
    · exact runs_call _ _ next
    · cases setting.environment.fieldResolver with
      | some id => exact runs_asked _ next
      | none => exact runs_resolveByName source arguments info next

variable {below : Subfields} {objects : Reference.Objects}

theorem meets_fieldValue (sound : Sound setting.schema known)
    (faithful : Faithful setting account known) (meets : BelowMeets account known below objects)
    (field : Field) (type : TypeRef) (id : TypeId) (inner : type.innermost = .ok id)
    (knownType : setting.schema.kindOf id = .object → known id)
    (written : setting.schema.Writes (setting.schema.leafInEffect id)) (source : Value) (info : Info)
    (node : FieldNode) :
    (fieldValue setting below field type source info node).Meets account
      (Reference.fieldValue setting account objects field type source info node) Content.Shows := by
  refine meets_of_runs (runs_act _ _) (fun _ => rfl) fun bound _ => ?_
  refine meets_of_runs (runs_silent rfl (runs_resolve field source _ info _)) (fun _ => rfl)
    fun value _ => ?_
  refine meets_of_runs (runs_silent rfl (runs_receive setting value _)) (fun _ => rfl)
    fun value _ => ?_
  exact meets_complete sound faithful meets info type id inner knownType written info.path value

theorem sibling_of_field (sound : Sound setting.schema known)
    (faithful : Faithful setting account known) (meets : BelowMeets account known below objects)
    (parent : TypeId) (knownParent : known parent) (source : Value) (path : ResponsePath)
    (nodes : List FieldNode) :
    (field? setting below parent source path nodes = none
        ∧ Reference.fieldPlace? setting account objects parent source path nodes = none)
      ∨ ∃ sibling : Sibling account,
        field? setting below parent source path nodes = some sibling.program
          ∧ Reference.fieldPlace? setting account objects parent source path nodes
              = some sibling.results := by
  cases nodes with
  | nil => exact .inl ⟨rfl, rfl⟩
  | cons node rest =>
      rcases sound.declared parent node.name knownParent with ⟨found, looked, declared⟩
      simp only [field?, Reference.fieldPlace?, List.head?_cons, Option.bind_some, looked]
      cases found with
      | none => exact .inl ⟨rfl, rfl⟩
      | some field =>
          rcases declared field rfl with ⟨type, id, typed, inner⟩
          simp only [typed]
          let info : Info :=
            ⟨setting.environment, node.name, node :: rest, type, parent, path⟩
          have value := meets_fieldValue sound faithful meets field type id inner
            (sound.field parent node.name field type id knownParent looked typed inner)
            (sound.written parent node.name field type id knownParent looked typed inner) source info
            node
          exact .inr ⟨⟨_, _, meets_settle _ type (node :: rest) path value,
            fun _ found => found.2⟩, rfl, rfl⟩

/-- The declared fields of an object are siblings. -/
theorem siblings_of_fields (sound : Sound setting.schema known)
    (faithful : Faithful setting account known) (meets : BelowMeets account known below objects)
    (parent : TypeId) (knownParent : known parent) (source : Value) (path : Option ResponsePath)
    (fields : Collected) :
    ∃ (keys : List String) (siblings : List (Sibling account)),
      fieldPrograms setting below parent source path fields
          = keys.zip (siblings.map (·.program))
        ∧ Reference.fieldPlaces setting account objects parent source path fields
          = keys.zip (siblings.map (·.results))
        ∧ keys.length = siblings.length := by
  induction fields with
  | nil => exact ⟨[], [], rfl, rfl, rfl⟩
  | cons entry rest ih =>
      obtain ⟨key, nodes⟩ := entry
      rcases ih with ⟨keys, siblings, programs, places, size⟩
      rcases sibling_of_field sound faithful meets parent knownParent source
          (.add path (.name key)) nodes with ⟨first, second⟩ | ⟨sibling, first, second⟩
      · refine ⟨keys, siblings, ?_, ?_, size⟩
        · rw [← programs]
          simp only [fieldPrograms, List.filterMap_cons, first, Option.map_none]
        · rw [← places]
          simp only [Reference.fieldPlaces, List.filterMap_cons, second, Option.map_none]
      · refine ⟨key :: keys, sibling :: siblings, ?_, ?_, by rw [List.length_cons, size]; rfl⟩
        · rw [List.map_cons, List.zip_cons_cons, ← programs]
          simp only [fieldPrograms, List.filterMap_cons, first, Option.map_some]
        · rw [List.map_cons, List.zip_cons_cons, ← places]
          simp only [Reference.fieldPlaces, List.filterMap_cons, second, Option.map_some]

theorem meets_fields (sound : Sound setting.schema known)
    (faithful : Faithful setting account known) (levels : Nat) (parent : TypeId)
    (knownParent : known parent) (source : Value) (path : Option ResponsePath)
    (collected : Collected) :
    (fields setting levels parent source path collected).Meets account
      (Reference.selected setting account levels parent source path collected) Content.Shows := by
  induction levels generalizing parent source path collected with
  | zero => exact meets_fail _ rfl
  | succ levels ih =>
      rcases siblings_of_fields sound faithful
          (fun type value place inner knownType => ih type knownType value (some place) inner)
          parent knownParent source path collected with ⟨keys, siblings, programs, places, size⟩
      have joined := meets_gathered siblings (objectOf keys) (.object keys) (fun _ => rfl)
        (fun _ => trivial) (fun _ => rfl) (fun _ => rfl) (fun _ => rfl)
      have firsts {β : Type} (part : Sibling account → β) :
          (keys.zip (siblings.map part)).map (·.1) = keys :=
        List.map_fst_zip (by rw [List.length_map]; exact Nat.le_of_eq size)
      have seconds {β : Type} (part : Sibling account → β) :
          (keys.zip (siblings.map part)).map (·.2) = siblings.map part :=
        List.map_snd_zip (by rw [List.length_map]; exact Nat.le_of_eq size.symm)
      simp only [fields, Reference.selected, programs, places, firsts, seconds]
      exact joined

/-- Programs that run in turn come to what they come to side by side. -/
theorem comes_inTurn (next : Except Failure (List Outcome) → Program) (programs : List Program)
    (settled : List Outcome) {outcome : Outcome} {encountered : List Encounter}
    (comes : (inTurn next programs settled).Comes account outcome encountered) :
    ∃ aside, (join programs fun
        | .ok outcomes => next (.ok (settled ++ outcomes))
        | .error failure => next (.error failure)).Comes account outcome aside
      ∧ Encounter.recordedIn encountered = Encounter.recordedIn aside := by
  -- By induction on the programs: the first of them goes on to the others, or ends them all as it would
  -- end its siblings.
  induction programs generalizing settled encountered with
  | nil =>
      simp only [Comes, ComesEach]
      exact ⟨_, .inl ⟨[], [], encountered, ⟨rfl, rfl⟩, by rw [List.append_nil]; exact comes, rfl⟩, rfl⟩
  | cons program rest ih =>
      rcases comes_andThen program _ comes with ⟨middle, before, after, first, second, rfl⟩
      have goesOn : (inTurn next rest (settled ++ [middle])).Comes account outcome after →
          ∃ aside, (join (program :: rest) fun
              | .ok outcomes => next (.ok (settled ++ outcomes))
              | .error failure => next (.error failure)).Comes account outcome aside
            ∧ Encounter.recordedIn (before ++ after) = Encounter.recordedIn aside := by
        intro later
        rcases ih _ later with ⟨aside, joined, same⟩
        simp only [Comes, ComesEach, ComesSome] at joined ⊢
        rcases joined with ⟨outcomes, part, others, each, finish, rfl⟩ |
          ⟨failure, part, others, urgent, some_, finish, rfl⟩
        · refine ⟨_, .inl ⟨middle :: outcomes, _, others,
            ⟨middle, outcomes, before, part, rfl, rfl, first, each⟩, ?_, rfl⟩, ?_⟩
          · rw [List.append_assoc] at finish
            exact finish
          · simp [same]
        · exact ⟨_, .inr ⟨failure, before ++ part, others, urgent, .inr some_, finish, rfl⟩,
            by simp [same]⟩
      have ends : ∀ failure, middle = .error failure → failure.isUrgent = true →
          (next (.error failure)).Comes account outcome after →
          ∃ aside, (join (program :: rest) fun
              | .ok outcomes => next (.ok (settled ++ outcomes))
              | .error failure => next (.error failure)).Comes account outcome aside
            ∧ Encounter.recordedIn (before ++ after) = Encounter.recordedIn aside := by
        intro failure same urgent later
        simp only [Comes, ComesSome]
        exact ⟨_, .inr ⟨failure, before, after, urgent, .inl ⟨before, same ▸ first⟩, later, rfl⟩, rfl⟩
      cases middle with
      | ok value => exact goesOn second
      | error failure =>
          cases failure with
          | response error => exact goesOn second
          | _ => exact ends _ rfl rfl second

theorem comes_rootFields (order : RootOrder) (root : TypeId) (collected : Collected)
    {outcome : Outcome} {encountered : List Encounter}
    (comes : (rootFields setting order root collected).Comes account outcome encountered) :
    ∃ aside, (rootFields setting .sideBySide root collected).Comes account outcome aside
      ∧ order.Keeps encountered aside := by
  cases order with
  | sideBySide => exact ⟨encountered, comes, rfl, fun _ => rfl⟩
  | inTurn =>
      rcases comes_inTurn _ _ _ comes with ⟨aside, joined, same⟩
      refine ⟨aside, ?_, same, by rintro ⟨⟩⟩
      rw [rootFields, fields]
      convert joined using 2
      funext settled
      cases settled <;> rfl

theorem shows_rootContent (sound : Sound setting.schema known)
    (faithful : Faithful setting account known) (order : RootOrder) (root : TypeId)
    (knownRoot : known root) {outcome : Outcome} {encountered : List Encounter}
    (comes : (act (setting.scope.collect root setting.environment.operation.selections) fun
      | .error failure => .fail failure
      | .ok collected => rootFields setting order root collected).Comes account outcome encountered) :
    ∃ aside, order.Keeps encountered aside
      ∧ ((∃ content, Reference.rootContent setting account root (.ok content)
          ∧ content.Shows outcome aside)
        ∨ ∃ failure, Reference.rootContent setting account root (.error failure)
          ∧ outcome = .error failure ∧ (failure.halts = false → aside = [])) := by
  rcases comes_act _ _ comes with ⟨result, yields, comes⟩
  cases result with
  | error failure =>
      rcases comes_fail failure comes with ⟨rfl, rfl⟩
      exact ⟨[], ⟨rfl, fun _ => rfl⟩, .inr ⟨failure, .inl ⟨failure, yields, rfl⟩, rfl, fun _ => rfl⟩⟩
  | ok collected =>
      rcases comes_rootFields order root collected comes with ⟨aside, comes, keeps⟩
      refine ⟨aside, keeps, ?_⟩
      rcases meets_fields sound faithful _ root knownRoot _ none collected outcome aside comes with
        ⟨content, found, shown⟩ | ⟨failure, found, ended⟩
      · exact .inl ⟨content, .inr ⟨collected, yields, found⟩, shown⟩
      · exact .inr ⟨failure, .inr ⟨collected, yields, found⟩, ended⟩

/-- Whatever an operation comes to shows its places, unless the failure that it ends with is raised. -/
theorem comes_operationIn (sound : Sound setting.schema known)
    (faithful : Faithful setting account known) (order : RootOrder) (root : TypeId)
    (knownRoot : known root) {outcome : Outcome} {encountered : List Encounter}
    (comes : (operationIn setting order root).Comes account outcome encountered) :
    (∃ place data, Reference.executed setting account root (.ok place) ∧ place.data? = some data
        ∧ outcome = .ok data ∧ order.Keeps encountered place.encounters)
      ∨ ∃ failure, Reference.executed setting account root (.error failure)
        ∧ outcome = .error failure := by
  rcases comes_andThen _ _ comes with ⟨middle, before, after, first, second, rfl⟩
  rcases shows_rootContent sound faithful order root knownRoot first with
    ⟨aside, keeps, ⟨content, found, _, shown, rfl⟩ | ⟨failure, found, rfl, silent⟩⟩
  · have executed : Reference.executed setting account root (.ok (.filled false content)) :=
      .inr ⟨content, found, rfl⟩
    cases shown with
    | whole data plain none_ =>
        rcases comes_done _ second with ⟨rfl, rfl⟩
        refine .inl ⟨_, _, executed, ?_, rfl, ?_⟩
        · rw [Place.data?, data]
        · rw [Place.encounters, none_]
          exact keeps.append []
    | nulled data located rises =>
        simp only [settleRoot, Comes, succeed, Effect.encounters] at second
        rcases second with ⟨rest, rfl, rfl, rfl⟩
        refine .inl ⟨_, .null, executed, ?_, rfl, ?_⟩
        · simp only [Place.data?, data, Bool.false_eq_true, if_false]
        · rw [Place.encounters, rises]
          exact keeps.append _
  · cases failure with
    | response error =>
        simp only [settleRoot, Comes, succeed, Effect.encounters] at second
        rcases second with ⟨rest, rfl, rfl, rfl⟩
        refine .inl ⟨.failed false error, .null, .inl ⟨error, found, rfl⟩, rfl, rfl, ?_⟩
        rw [silent rfl] at keeps
        exact keeps.append _
    | _ =>
        rcases comes_done _ second with ⟨rfl, rfl⟩
        exact .inr ⟨_, ⟨found, rfl⟩, rfl⟩

end Execution

end GraphQL
