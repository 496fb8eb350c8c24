import GraphQL.Proofs.Completing
import GraphQL.Request

/-!
Schemas that pass their check. The type map is closed: whatever a type in it refers to is worked out
and stands in it, under a name of its own, so that execution never leaves the types of the map.
-/

namespace GraphQL

/-- A candidate that denotes a type whose leaf in effect stands in a type map. -/
def Layout.Covers (layout : Layout) (found : TypeMap) (candidate : Candidate) : Prop :=
  ∀ ref, candidate = .type ref →
    ∃ inner name, ref.innermost = .ok inner ∧ (name, layout.leafInEffect inner) ∈ found

/-- An entry stands under the name of its type, whose references are all covered. -/
def Layout.Settled (layout : Layout) (found : TypeMap) (entry : Value × TypeId) : Prop :=
  entry.1 = (layout.definition entry.2).name
    ∧ ∃ references, (layout.definition entry.2).references = .ok references
      ∧ ∀ candidate ∈ references, layout.Covers found candidate

/-- What a walk from pending types adds to a type map. -/
structure Layout.Walked (layout : Layout) (pending : List Candidate) (before after : TypeMap) :
    Prop where
  grows : before ⊆ after
  covers : ∀ candidate ∈ pending, layout.Covers after candidate
  settled : ∀ entry ∈ after, entry ∈ before ∨ layout.Settled after entry
  distinct : before.Pairwise (fun earlier later => earlier.1.isKey later.1 = false) →
    after.Pairwise fun earlier later => earlier.1.isKey later.1 = false

namespace Layout

theorem walk_type (layout : Layout) (ref : TypeRef) (rest : List Candidate) (found after : TypeMap)
    (inner : TypeId) (denotes : ref.innermost = .ok inner)
    (walks : layout.walk (.type ref :: rest) found = .ok after) :
    ((found.any fun entry => entry.2 == layout.leafInEffect inner) = true
        ∧ layout.walk rest found = .ok after)
      ∨ (¬ (found.any fun entry => entry.2 == layout.leafInEffect inner) = true
        ∧ layout.leafInEffect inner ∈ layout.ids
        ∧ Value.lookup? found (layout.definition (layout.leafInEffect inner)).name = none
        ∧ ∃ references,
          (layout.definition (layout.leafInEffect inner)).references = .ok references
            ∧ layout.walk (references ++ rest) (found
              ++ [((layout.definition (layout.leafInEffect inner)).name, layout.leafInEffect inner)])
              = .ok after) := by
  rw [walk, denotes] at walks
  simp only at walks
  split at walks
  · next known => exact .inl ⟨known, walks⟩
  · next fresh =>
      split at walks
      · cases walks
      · split at walks
        · cases walks
        · next once =>
            split at walks
            · next exists_ =>
                split at walks
                · cases walks
                · next references refers =>
                    exact .inr ⟨fresh, exists_, by simpa using once, references, refers, walks⟩
            · cases walks

theorem walked_of_known {layout : Layout} {ref : TypeRef} {rest : List Candidate}
    {found after : TypeMap} {inner : TypeId} (denotes : ref.innermost = .ok inner)
    (known : (found.any fun entry => entry.2 == layout.leafInEffect inner) = true)
    (walked : layout.Walked rest found after) : layout.Walked (.type ref :: rest) found after := by
  refine ⟨walked.grows, fun candidate member => ?_, walked.settled, walked.distinct⟩
  rcases List.mem_cons.1 member with rfl | later
  · intro other same
    cases same
    rcases List.any_eq_true.1 known with ⟨entry, inside, same⟩
    refine ⟨inner, entry.1, denotes, walked.grows ?_⟩
    rw [← beq_iff_eq.1 same]
    exact inside
  · exact walked.covers candidate later

theorem walked_of_added {layout : Layout} {ref : TypeRef} {rest : List Candidate}
    {found after : TypeMap} {inner : TypeId} (denotes : ref.innermost = .ok inner)
    (once : Value.lookup? found (layout.definition (layout.leafInEffect inner)).name = none)
    (references : List Candidate)
    (refers : (layout.definition (layout.leafInEffect inner)).references = .ok references)
    (walked : layout.Walked (references ++ rest) (found
      ++ [((layout.definition (layout.leafInEffect inner)).name, layout.leafInEffect inner)])
      after) :
    layout.Walked (.type ref :: rest) found after := by
  have added := walked.grows (List.mem_append_right found (List.mem_singleton.2 rfl))
  refine ⟨List.Subset.trans (List.subset_append_left _ _) walked.grows,
    fun candidate member => ?_, fun entry member => ?_, fun distinct => walked.distinct ?_⟩
  · rcases List.mem_cons.1 member with rfl | later
    · intro other same
      cases same
      exact ⟨inner, _, denotes, added⟩
    · exact walked.covers candidate (List.mem_append_right _ later)
  · rcases walked.settled entry member with before | settled
    · rcases List.mem_append.1 before with earlier | new
      · exact .inl earlier
      · rw [List.mem_singleton.1 new]
        exact .inr ⟨rfl, references, refers, fun candidate member =>
          walked.covers candidate (List.mem_append_left _ member)⟩
    · exact .inr settled
  · refine List.pairwise_append.2 ⟨distinct, List.pairwise_singleton _ _, ?_⟩
    intro earlier member later new
    rw [List.mem_singleton.1 new]
    rw [Value.lookup?, Option.map_eq_none_iff, List.find?_eq_none] at once
    simpa using once earlier member

theorem walked_of_walk (layout : Layout) (pending : List Candidate) (before after : TypeMap)
    (walks : layout.walk pending before = .ok after) : layout.Walked pending before after := by
  match pending with
  | [] =>
      simp only [walk, Except.ok.injEq] at walks
      subst walks
      refine ⟨List.Subset.refl _, fun _ member => ?_, fun _ member => .inl member, fun same => same⟩
      cases member
  | .other value :: rest =>
      rw [walk] at walks
      split at walks
      · have walked := layout.walked_of_walk rest before after walks
        refine ⟨walked.grows, fun candidate member => ?_, walked.settled, walked.distinct⟩
        rcases List.mem_cons.1 member with rfl | later
        · intro ref same
          cases same
        · exact walked.covers candidate later
      · cases walks
  | .type ref :: rest =>
      cases denotes : ref.innermost with
      | error fault =>
          rw [walk, denotes] at walks
          cases walks
      | ok inner =>
          rcases layout.walk_type ref rest before after inner denotes walks with
            ⟨known, later⟩ | ⟨fresh, exists_, once, references, refers, later⟩
          · exact walked_of_known denotes known (layout.walked_of_walk rest before after later)
          · exact walked_of_added denotes once references refers
              (layout.walked_of_walk (references ++ rest) _ after later)
termination_by (layout.missing before, pending.length)
decreasing_by
  · exact Prod.Lex.right _ (by simp)
  · exact Prod.Lex.right _ (by simp)
  · exact Prod.Lex.left _ _ (missing_append_lt _ exists_ fresh)

end Layout

theorem Except.all_of_forM {α : Type} (test : α → Checked Unit) (items : List α)
    (passes : items.forM test = .ok ()) : ∀ item ∈ items, test item = .ok () := by
  induction items with
  | nil =>
      intro item member
      cases member
  | cons first rest ih =>
      rw [List.forM_eq_forM, List.forM_cons] at passes
      cases passed : test first with
      | error fault =>
          rw [passed] at passes
          cases passes
      | ok done =>
          rw [passed] at passes
          intro item member
          rcases List.mem_cons.1 member with rfl | later
          · exact passed
          · exact ih passes item later

theorem Except.mem_of_mapM {α β : Type} (next : α → Checked β) (items : List α) (results : List β)
    (each : items.mapM next = .ok results) (item : α) (member : item ∈ items) :
    ∃ result ∈ results, next item = .ok result := by
  induction items generalizing results with
  | nil => cases member
  | cons first rest ih =>
      rw [List.mapM_cons] at each
      simp only [bind, Except.bind] at each
      split at each
      · cases each
      · next head made =>
          split at each
          · cases each
          · next tail others =>
              cases each
              rcases List.mem_cons.1 member with rfl | later
              · exact ⟨head, List.mem_cons_self, made⟩
              · rcases ih tail others later with ⟨result, inside, made⟩
                exact ⟨result, List.mem_cons_of_mem _ inside, made⟩

theorem Except.mem_of_mapM_result {α β : Type} (next : α → Checked β) (items : List α)
    (results : List β) (each : items.mapM next = .ok results) (result : β)
    (member : result ∈ results) : ∃ item ∈ items, next item = .ok result := by
  induction items generalizing results with
  | nil =>
      cases each
      cases member
  | cons first rest ih =>
      rw [List.mapM_cons] at each
      simp only [bind, Except.bind] at each
      split at each
      · cases each
      · next head made =>
          split at each
          · cases each
          · next tail others =>
              cases each
              rcases List.mem_cons.1 member with rfl | later
              · exact ⟨first, List.mem_cons_self, made⟩
              · rcases ih tail others later with ⟨item, inside, made⟩
                exact ⟨item, List.mem_cons_of_mem _ inside, made⟩

theorem Table.mem_items_of_get? {α : Type} (table : Table α) (name : Value) (item : α)
    (found : table.get? name = some item) : item ∈ table.items := by
  rcases Option.map_eq_some_iff.1 found with ⟨entry, located, rfl⟩
  exact List.mem_map_of_mem (List.mem_of_find?_eq_some located)

theorem TypeDef.references_of_fields (fields : Checked (Table Field))
    (interfaces : Checked (List Candidate)) (references : List Candidate)
    (refers : fieldReferences fields interfaces = .ok references) :
    ∃ table, fields = .ok table ∧ ∀ field ∈ table.items, ∃ type, field.type = .ok type
      ∧ .type type ∈ references := by
  unfold fieldReferences at refers
  simp only [bind, Except.bind] at refers
  split at refers
  · cases refers
  · split at refers
    · cases refers
    · next table =>
        split at refers
        · cases refers
        · next lists each =>
            cases refers
            refine ⟨table, rfl, fun field member => ?_⟩
            rcases Except.mem_of_mapM _ _ _ each field member with ⟨own, inside, refers⟩
            unfold Field.references at refers
            simp only [bind, Except.bind] at refers
            split at refers
            · cases refers
            · next type typed =>
                split at refers
                · cases refers
                · split at refers
                  · cases refers
                  · cases refers
                    exact ⟨type, typed, List.mem_append_right _
                      (List.mem_flatten.2 ⟨_, inside, List.mem_cons_self⟩)⟩

theorem Value.equals_str (left right : String) :
    (Value.str left).equals (.str right) = true ↔ left = right := by
  simp only [equals, equals?, atomsEqual, numeric?, beq_iff_eq, Option.some.injEq,
    decide_eq_true_eq]

namespace Schema

/-- The fields of a known type are worked out, and so are the types that they refer to. The field
for the name of a type is the only one that is not declared. -/
theorem declared_of_settled (schema : Schema) (found : TypeMap) (parent : TypeId) (entryName : Value)
    (settled : schema.Settled found (entryName, parent)) (name : String) :
    ∃ looked, schema.field? parent name = .ok looked
      ∧ ∀ field, looked = some field → ∃ type id, field.type = .ok type ∧ type.innermost = .ok id
        ∧ ((∃ name, (name, schema.leafInEffect id) ∈ found) ∨ id = .standard .string) := by
  rcases settled with ⟨_, references, refers, covers⟩
  have inside : ∀ (fields : Checked (Table Field)) (interfaces : Checked (List Candidate)),
      TypeDef.fieldReferences fields interfaces = .ok references →
      ∃ looked, (do return (← fields).find? name : Checked (Option Field)) = .ok looked
        ∧ ∀ field, looked = some field → ∃ type id, field.type = .ok type ∧ type.innermost = .ok id
          ∧ ((∃ name, (name, schema.leafInEffect id) ∈ found) ∨ id = .standard .string) := by
    intro fields interfaces refers
    rcases TypeDef.references_of_fields fields interfaces references refers with
      ⟨table, rfl, each⟩
    refine ⟨table.find? name, rfl, fun field looked => ?_⟩
    rcases each field (table.mem_items_of_get? _ field looked) with ⟨type, typed, member⟩
    rcases covers _ member type rfl with ⟨inner, innerName, denotes, reached⟩
    exact ⟨type, inner, typed, denotes, .inl ⟨innerName, reached⟩⟩
  unfold Layout.field?
  split
  · refine ⟨_, rfl, fun field same => ?_⟩
    cases same
    exact ⟨_, _, rfl, rfl, .inr rfl⟩
  · unfold TypeDef.references at refers
    unfold TypeDef.fields?
    cases body : (schema.definition parent).body with
    | object fields interfaces isTypeOf =>
        rw [body] at refers
        exact inside fields interfaces refers
    | interface fields interfaces resolveType =>
        rw [body] at refers
        exact inside fields interfaces refers
    | _ => exact ⟨none, rfl, fun field same => by cases same⟩

theorem object_of_checkRoot {schema : Schema} {operation : String} {root : Option Candidate}
    (passes : schema.checkRoot operation root = .ok ()) (id : TypeId)
    (named : root.bind Candidate.named? = some id) : schema.kindOf id = .object := by
  cases root with
  | none => cases named
  | some candidate =>
      rw [Option.bind_some] at named
      simp only [Layout.checkRoot, require, named, Option.any_some] at passes
      split at passes
      · next object => exact of_decide_eq_true object
      · cases passes

/-- The type map is worked out, and its types pass their own checks. -/
structure Vetted (schema : Schema) (found : TypeMap) : Prop where
  reached : schema.reached = .ok found
  definitions : ∀ entry ∈ found, schema.checkDefinition (schema.definition entry.2) = .ok ()

/-- What the check of a schema has looked at. -/
structure Checks (schema : Schema) (found : TypeMap) : Prop extends schema.Vetted found where
  root : ∀ kind operation, (schema.root kind).bind Candidate.named? = some operation →
    schema.kindOf operation = .object
  directives : schema.checkDirectives schema.directives [] = .ok ()

theorem checks_of_check {schema : Schema} (checked : schema.check = .ok ())
    (strict : schema.assumeValid = false) : ∃ found, schema.Checks found := by
  unfold check at checked
  simp only [strict, Bool.false_eq_true, if_false, bind, Except.bind] at checked
  split at checked
  · cases checked
  · split at checked
    · cases checked
    · next query =>
        split at checked
        · cases checked
        · next mutation =>
            split at checked
            · cases checked
            · next subscription =>
                split at checked
                · cases checked
                · next found reached =>
                    split at checked
                    · cases checked
                    · next definitions =>
                        split at checked
                        · cases checked
                        · refine ⟨found, ⟨reached, fun entry member =>
                            Except.all_of_forM _ found definitions entry member⟩,
                            fun kind operation named => ?_, checked⟩
                          cases kind with
                          | query => exact object_of_checkRoot query operation named
                          | mutation => exact object_of_checkRoot mutation operation named
                          | subscription => exact object_of_checkRoot subscription operation named

theorem Vetted.definition {schema : Schema} {found : TypeMap} (vetted : schema.Vetted found)
    {id : TypeId} (knows : schema.Knows id) :
    schema.checkDefinition (schema.definition id) = .ok () := by
  rcases knows with ⟨other, name, reached, member⟩
  cases vetted.reached.symm.trans reached
  exact vetted.definitions _ member

theorem checkDefinition_of_knows {schema : Schema} (checked : schema.check = .ok ())
    (strict : schema.assumeValid = false) {id : TypeId} (knows : schema.Knows id) :
    schema.checkDefinition (schema.definition id) = .ok () := by
  rcases checks_of_check checked strict with ⟨found, checks⟩
  exact checks.definition knows

theorem text_of_checkNameOf {owner : Option String} {name : Value}
    (passes : checkNameOf owner name = .ok ()) : ∃ text, name = .str text := by
  unfold checkNameOf at passes
  split at passes
  · next fine =>
      cases name with
      | str text => exact ⟨text, rfl⟩
      | _ => cases fine
  · cases passes

theorem name_of_checkDefinition {schema : Schema} {type : TypeDef}
    (passes : schema.checkDefinition type = .ok ()) : ∃ text, type.name = .str text := by
  unfold Layout.checkDefinition at passes
  simp only [bind, Except.bind] at passes
  split at passes
  · cases passes
  · next named => exact text_of_checkNameOf named

theorem walked_of_reached {schema : Schema} {found : TypeMap}
    (reached : schema.reached = .ok found) :
    ∃ origins, schema.origins = .ok origins ∧ schema.Walked origins [] found := by
  rw [schema.reached_eq] at reached
  unfold Layout.typeMap at reached
  simp only [bind, Except.bind] at reached
  split at reached
  · cases reached
  · next origins starts =>
      split at reached
      · cases reached
      · next walked walks =>
          split at reached
          · cases reached
          · cases reached
            exact ⟨origins, starts, schema.walked_of_walk origins [] _ walks⟩

theorem settled_of_reached {schema : Schema} {found : TypeMap}
    (reached : schema.reached = .ok found) : ∀ entry ∈ found, schema.Settled found entry := by
  rcases walked_of_reached reached with ⟨origins, _, walked⟩
  intro entry member
  rcases walked.settled entry member with before | settled
  · cases before
  · exact settled

theorem known_of_contribution {schema : Schema} {found : TypeMap} {name : Value}
    {entry : Value × TypeId} {candidates : List Candidate} {id : TypeId}
    (settled : schema.Settled found entry) (inside : entry ∈ found)
    (contributed : schema.contribution name entry.2 = .ok candidates)
    (member : Candidate.named id ∈ candidates) (object : schema.kindOf id = .object) :
    ∃ name, (name, id) ∈ found := by
  rcases settled with ⟨_, references, refers, covers⟩
  unfold contribution at contributed
  unfold TypeDef.references at refers
  cases body : (schema.definition entry.2).body with
  | union members resolveType =>
      rw [body] at contributed refers
      simp only at contributed refers
      split at contributed
      · rw [contributed] at refers
        cases refers
        rcases covers _ member (.named id) rfl with ⟨inner, innerName, denotes, reached⟩
        cases denotes
        cases id with
        | declared index => exact ⟨innerName, reached⟩
        | standard scalar => cases object
      · cases contributed
        cases member
  | object fields interfaces isTypeOf =>
      rw [body] at contributed
      simp only [bind, Except.bind] at contributed
      split at contributed
      · cases contributed
      · cases contributed
        rcases List.mem_map.1 member with ⟨interface, _, same⟩
        cases same
        exact ⟨entry.1, inside⟩
  | _ =>
      rw [body] at contributed
      cases contributed
      cases member

theorem known_of_possible {schema : Schema} {found : TypeMap} (reached : schema.reached = .ok found)
    {abstract id : TypeId} (possible : schema.isPossible abstract id = .ok true)
    (object : schema.kindOf id = .object) : ∃ name, (name, id) ∈ found := by
  unfold isPossible possibleTypes at possible
  simp only [reached, bind, Except.bind] at possible
  split at possible
  · cases possible
  · next candidates listed =>
      split at listed
      · cases listed
      · next lists each =>
          cases listed
          have held := List.any_eq_true.1 (Except.ok.inj possible)
          rcases held with ⟨candidate, member, named⟩
          rcases List.mem_flatten.1 member with ⟨list, inside, member⟩
          rcases Except.mem_of_mapM_result _ _ _ each list inside with ⟨entry, here, contributed⟩
          have denoted : candidate = .named id := by
            cases candidate with
            | other value => cases named
            | type ref =>
                cases ref with
                | named other => rw [show other = id by simpa [Candidate.named?] using named]; rfl
                | _ => cases named
          rw [denoted] at member
          exact known_of_contribution (settled_of_reached reached entry here) here contributed member
            object

theorem same_of_names {found : TypeMap}
    (distinct : found.Pairwise fun earlier later => earlier.1.isKey later.1 = false) {text : String}
    {left right : TypeId} (leftMember : (Value.str text, left) ∈ found)
    (rightMember : (Value.str text, right) ∈ found) : left = right := by
  have shared : (Value.str text).isKey (.str text) = true := by
    rw [Value.isKey, (Value.equals_str text text).2 rfl, Bool.or_true]
  induction found with
  | nil => cases leftMember
  | cons first rest ih =>
      have apart := List.pairwise_cons.1 distinct
      rcases List.mem_cons.1 leftMember with rfl | leftLater
      · rcases List.mem_cons.1 rightMember with same | rightLater
        · cases same
          rfl
        · rw [apart.1 _ rightLater] at shared
          cases shared
      · rcases List.mem_cons.1 rightMember with rfl | rightLater
        · rw [apart.1 _ leftLater] at shared
          cases shared
        · exact ih apart.2 leftLater rightLater

theorem Vetted.sound {schema : Schema} {found : TypeMap} (vetted : schema.Vetted found) :
    Sound schema schema.Knows := by
  rcases vetted with ⟨reached, definitions⟩
  have settled := settled_of_reached reached
  rcases walked_of_reached reached with ⟨origins, _, walked⟩
  have declared : ∀ parent name, schema.Knows parent → ∃ looked,
      schema.field? parent name = .ok looked
        ∧ ∀ field, looked = some field → ∃ type id, field.type = .ok type
          ∧ type.innermost = .ok id
          ∧ ((∃ name, (name, schema.leafInEffect id) ∈ found) ∨ id = .standard .string) := by
    rintro parent name ⟨other, entryName, reached', member⟩
    cases reached.symm.trans reached'
    exact schema.declared_of_settled found parent entryName (settled _ member) name
  have named : ∀ id, schema.Knows id → ∃ text,
      (schema.definition id).name = .str text ∧ (Value.str text, id) ∈ found := by
    rintro id ⟨other, entryName, reached', member⟩
    cases reached.symm.trans reached'
    rcases name_of_checkDefinition (definitions _ member) with ⟨text, textual⟩
    refine ⟨text, textual, ?_⟩
    rw [← textual, ← (settled _ member).1]
    exact member
  -- a field leads to a type of the map, except that of the name of a type
  have referred : ∀ parent name field type id, schema.Knows parent →
      schema.field? parent name = .ok (some field) → field.type = .ok type →
      type.innermost = .ok id →
        schema.Knows (schema.leafInEffect id) ∨ id = .standard .string := by
    intro parent name field type id known looked typed denotes
    rcases declared parent name known with ⟨looked', same, each⟩
    cases looked.symm.trans same
    rcases each field rfl with ⟨type', id', typed', denotes', inside⟩
    cases typed.symm.trans typed'
    cases denotes.symm.trans denotes'
    exact inside.imp_left fun ⟨entryName, member⟩ => ⟨found, entryName, reached, member⟩
  refine ⟨⟨?_, ?_⟩, ?_, ?_, ?_, ?_⟩
  · intro parent name field type id known looked typed denotes object
    cases id with
    | standard scalar => cases object
    | declared index =>
        rcases referred parent name field type _ known looked typed denotes with inside | same
        · exact inside
        · cases same
  · intro abstract id possible object
    rcases known_of_possible reached possible object with ⟨entryName, member⟩
    exact ⟨found, entryName, reached, member⟩
  · intro type known
    rcases named type known with ⟨text, textual, _⟩
    exact ⟨text, textual⟩
  · intro parent name known
    rcases declared parent name known with ⟨looked, same, each⟩
    refine ⟨looked, same, fun field here => ?_⟩
    rcases each field here with ⟨type, id, typed, denotes, _⟩
    exact ⟨type, id, typed, denotes⟩
  · intro parent name field type id known looked typed denotes
    exact (referred parent name field type id known looked typed denotes).imp_right fun same =>
      by rw [same]
  · intro left right knownLeft knownRight same
    rcases named left knownLeft with ⟨leftText, leftNamed, leftMember⟩
    rcases named right knownRight with ⟨rightText, rightNamed, rightMember⟩
    rw [leftNamed, rightNamed] at same
    have texts : leftText = rightText := (Value.equals_str leftText rightText).1 same
    subst texts
    exact same_of_names (walked.distinct .nil) leftMember rightMember

/-- The types of an accepted schema's map are sound to execute on. -/
theorem sound_of_check {schema : Schema} (checked : schema.check = .ok ())
    (strict : schema.assumeValid = false) : Sound schema schema.Knows := by
  rcases checks_of_check checked strict with ⟨found, checks⟩
  exact checks.sound

theorem mem_origins {schema : Schema} {origins : List Candidate}
    (starts : schema.origins = .ok origins) {kind : OperationKind} {candidate : Candidate}
    (standing : schema.root kind = some candidate) : candidate ∈ origins := by
  unfold Layout.origins at starts
  simp only [bind, Except.bind] at starts
  split at starts
  · cases starts
  · cases starts
    refine List.mem_append_left _ (List.mem_append_left _ (List.mem_filterMap.2 ?_))
    refine ⟨some candidate, ?_, rfl⟩
    rw [← standing]
    cases kind <;> simp [Layout.root]

theorem knows_of_root {schema : Schema} (checked : schema.check = .ok ())
    (strict : schema.assumeValid = false) {kind : OperationKind} {root : TypeId}
    (named : (schema.root kind).bind Candidate.named? = some root) : schema.Knows root := by
  rcases checks_of_check checked strict with ⟨found, ⟨reached, _⟩, roots, _⟩
  rcases walked_of_reached reached with ⟨origins, starts, walked⟩
  have object := roots _ _ named
  rcases Option.bind_eq_some_iff.1 named with ⟨candidate, standing, denotes⟩
  have pending := mem_origins starts standing
  cases candidate with
  | other value => cases denotes
  | type ref =>
      cases ref with
      | named inner =>
          rcases walked.covers _ pending (.named inner) rfl with ⟨id, name, same, member⟩
          cases same
          cases denotes
          cases root with
          | declared index => exact ⟨found, name, reached, member⟩
          | standard scalar => cases object
      | _ => cases denotes

theorem knows_root {schema : Schema} (checked : schema.check = .ok ())
    (strict : schema.assumeValid = false) {operation : Operation} {root : TypeId}
    (rooted : Request.rootType schema operation = .ok root) : schema.Knows root := by
  unfold Request.rootType at rooted
  split at rooted
  · next named =>
      cases rooted
      exact knows_of_root checked strict named
  · cases rooted

end Schema

end GraphQL
