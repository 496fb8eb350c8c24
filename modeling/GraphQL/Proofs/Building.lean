import GraphQL.Proofs.AcceptedInputs
import GraphQL.Schema.Declaration

/-!
What holds of every schema that is built from a declaration: only leaf types take the place of
specified scalars, each under the name of the scalar, and the values of an enum go by the names that
they stand under.
-/

namespace GraphQL

/-- Leaf types take the place of specified scalars, and no specified scalar that of another. -/
structure Layout.OverridesLeaves (layout : Layout) : Prop where
  leaf : ∀ entry ∈ layout.overrides, (layout.kindOf entry.2).isLeaf = true
  own : ∀ entry ∈ layout.overrides, ∀ scalar, entry.2 = .standard scalar → scalar = entry.1

namespace Layout

variable {layout : Layout}

/-- What a specified scalar stands for is the scalar itself, or one of the overrides. -/
theorem leafInEffect_standard (layout : Layout) (scalar : Standard) :
    layout.leafInEffect (.standard scalar) = .standard scalar
      ∨ (scalar, layout.leafInEffect (.standard scalar)) ∈ layout.overrides := by
  have stands : layout.leafInEffect (.standard scalar)
      = (layout.overrides.lookup scalar).getD (.standard scalar) := rfl
  rw [stands]
  cases found : layout.overrides.lookup scalar with
  | none => exact .inl rfl
  | some id =>
      obtain ⟨before, after, parts, _⟩ := List.lookup_eq_some_iff.1 found
      refine .inr ?_
      rw [parts]
      exact List.mem_append_right _ List.mem_cons_self

theorem OverridesLeaves.leafInEffect (overrides : layout.OverridesLeaves) {id : TypeId}
    (leaf : (layout.kindOf id).isLeaf = true) :
    (layout.kindOf (layout.leafInEffect id)).isLeaf = true := by
  cases id with
  | declared index => exact leaf
  | standard scalar =>
      obtain same | member := layout.leafInEffect_standard scalar
      · rw [same]
        rfl
      · exact overrides.leaf _ member

theorem OverridesLeaves.idempotent (overrides : layout.OverridesLeaves) (id : TypeId) :
    layout.leafInEffect (layout.leafInEffect id) = layout.leafInEffect id := by
  cases id with
  | declared index => rfl
  | standard scalar =>
      obtain same | member := layout.leafInEffect_standard scalar
      · rw [same, same]
      · cases stands : layout.leafInEffect (.standard scalar) with
        | declared index => rfl
        | standard other =>
            have same : other = scalar := overrides.own _ member other stands
            rw [same] at stands ⊢
            exact stands

end Layout

/-- The values of an enum go by the names that they stand under. -/
def Layout.NamesValues (layout : Layout) : Prop :=
  ∀ leaf values, (layout.definition leaf).body = .enum (.ok values) →
    ∀ entry ∈ values.entries, entry.2.name = entry.1 ∨ entry.1.isKey entry.2.name = true

namespace Table

variable {α : Type}

/-- An entry that was put takes the place of one under an equal name, or comes last. -/
theorem mem_put {table : Table α} {name : Value} {item : α} {entry : Value × α}
    (member : entry ∈ (table.put name item).entries) :
    entry ∈ table.entries ∨ (entry.1.isKey name = true ∧ entry.2 = item)
      ∨ entry = (name, item) := by
  have inside : ∀ entries : List (Value × α), entry ∈ Value.putEntry entries name item →
      entry ∈ entries ∨ (entry.1.isKey name = true ∧ entry.2 = item) ∨ entry = (name, item) := by
    intro entries member
    induction entries with
    | nil => exact .inr (.inr (List.mem_singleton.1 member))
    | cons head rest ih =>
        obtain ⟨key, old⟩ := head
        simp only [Value.putEntry] at member
        split at member
        · next same =>
            rcases List.mem_cons.1 member with rfl | later
            · exact .inr (.inl ⟨same, rfl⟩)
            · exact .inl (List.mem_cons_of_mem _ later)
        · rcases List.mem_cons.1 member with rfl | later
          · exact .inl List.mem_cons_self
          · exact (ih later).imp_left (List.mem_cons_of_mem _)
  exact inside table.entries member

theorem forall_ofList (good : Value → α → Prop) (entries : List (Value × α))
    (each : ∀ entry ∈ entries, good entry.1 entry.2)
    (moved : ∀ entry ∈ entries, ∀ name : Value, name.isKey entry.1 = true → good name entry.2) :
    ∀ entry ∈ (ofList entries).entries, good entry.1 entry.2 := by
  have folded : ∀ (rest : List (Value × α)) (table : Table α), rest ⊆ entries →
      (∀ entry ∈ table.entries, good entry.1 entry.2) →
      ∀ entry ∈ (rest.foldl (fun table entry => table.put entry.1 entry.2) table).entries,
        good entry.1 entry.2 := by
    intro rest
    induction rest with
    | nil => exact fun table _ before => before
    | cons first rest ih =>
        intro table inside before
        refine ih _ (List.subset_of_cons_subset inside) fun entry member => ?_
        have here := inside List.mem_cons_self
        obtain old | ⟨same, given⟩ | rfl := mem_put member
        · exact before entry old
        · rw [given]
          exact moved first here entry.1 same
        · exact each first here
  exact folded entries empty (List.Subset.refl _) fun entry member => by cases member

end Table

namespace Declaration

theorem kind_typeDef (catalog : Catalog) (declared : TypeDeclaration) :
    (typeDef catalog declared).kind = declared.body.kind := by
  unfold typeDef TypeDef.kind
  cases declared.body <;> rfl

theorem kind_ofDeclarations {layout : Layout} (types : List TypeDeclaration)
    (made : layout.types = (types.map (typeDef (.ofDeclarations types))).toArray) (id : TypeId) :
    (Catalog.ofDeclarations types).kind id = layout.kindOf id := by
  cases id with
  | standard scalar => rfl
  | declared index =>
      simp only [Catalog.kind, Catalog.ofDeclarations, Layout.kindOf, Layout.definition, made,
        List.getElem?_toArray, List.getElem?_map]
      cases types[index]? with
      | none => rfl
      | some declared => exact (kind_typeDef _ declared).symm

theorem override_eq_ok {catalog : Catalog} {candidate : Candidate} {scalar : Standard} {id : TypeId}
    (overrides : override catalog candidate = .ok (scalar, id)) :
    (catalog.kind id).isLeaf = true ∧ (catalog.name id).equals (.str scalar.name) = true := by
  unfold override at overrides
  split at overrides
  · cases overrides
  · next named found =>
      simp only at overrides
      split at overrides
      · cases overrides
      · split at overrides
        · next specified looked =>
            cases overrides
            have named := List.find?_some looked
            exact ⟨(Option.filter_eq_some_iff.1 found).2, named⟩
        · cases overrides

theorem standard_of_name {left right : Standard} (same : left.name = right.name) : left = right := by
  cases left <;> cases right <;> first | rfl | exact absurd same (by decide)

theorem name_enumValue (name : Value) (entry : EnumEntry) : (enumValue name entry).name = name := by
  cases entry with
  | bare value => rfl
  | declared value deprecated => cases value <;> rfl

/-- Whether all entries go by the names that they stand under. -/
def NamesOwn (values : Table EnumValue) : Prop :=
  ∀ entry ∈ values.entries, entry.2.name = entry.1 ∨ entry.1.isKey entry.2.name = true

theorem namesOwn_ofList (entries : List (Value × EnumValue))
    (own : ∀ entry ∈ entries, entry.2.name = entry.1) : NamesOwn (.ofList entries) :=
  Table.forall_ofList
    (fun (name : Value) (value : EnumValue) => value.name = name ∨ name.isKey value.name = true)
    entries (fun entry member => .inl (own entry member))
    fun entry member name same => .inr (by rw [own entry member]; exact same)

theorem namesOwn_enumMapping {entries : List (Value × EnumEntry)} {values : Table EnumValue}
    (made : enumMapping entries = .ok values) : NamesOwn values := by
  obtain ⟨listed, each, made⟩ := Checked.ok_of_bind made
  cases made
  refine namesOwn_ofList listed fun entry member => ?_
  obtain ⟨source, _, made⟩ := Except.mem_of_mapM_result _ _ _ each entry member
  obtain ⟨_, _, made⟩ := Checked.ok_of_bind made
  cases made
  exact name_enumValue _ _

theorem namesOwn_enumNames {type : String} {names : List Value} {values : Table EnumValue}
    (made : enumNames type names = .ok values) : NamesOwn values := by
  obtain ⟨listed, each, made⟩ := Checked.ok_of_bind made
  cases made
  refine namesOwn_ofList listed fun entry member => ?_
  obtain ⟨name, _, made⟩ := Except.mem_of_mapM_result _ _ _ each entry member
  split at made
  · cases made
    rfl
  · cases made

theorem namesOwn_enumValues {type : String} {declared : EnumDeclaration} {values : Table EnumValue}
    (made : enumValues type declared = .ok values) : NamesOwn values := by
  unfold enumValues at made
  split at made
  · exact namesOwn_enumMapping made
  · exact namesOwn_enumNames made
  · exact namesOwn_enumMapping made
  · split at made
    · exact namesOwn_enumNames made
    · cases made

end Declaration

/-- What is known of a schema that was built from a declaration. -/
structure Schema.Built (declared : SchemaDeclaration) (schema : Schema) : Prop where
  types : schema.types
    = (declared.types.map (Declaration.typeDef (.ofDeclarations declared.types))).toArray
  overrides : ∀ entry ∈ schema.overrides, ∃ candidate,
    Declaration.override (.ofDeclarations declared.types) candidate = .ok entry
  assumeValid : schema.assumeValid = declared.assumeValid

namespace Schema

variable {declared : SchemaDeclaration} {schema : Schema}

theorem built_of_schema (made : declared.schema = .ok schema) : schema.Built declared := by
  obtain ⟨query, _, made⟩ := Checked.ok_of_bind made
  obtain ⟨mutation, _, made⟩ := Checked.ok_of_bind made
  obtain ⟨subscription, _, made⟩ := Checked.ok_of_bind made
  obtain ⟨extra, _, made⟩ := Checked.ok_of_bind made
  obtain ⟨directives, _, made⟩ := Checked.ok_of_bind made
  obtain ⟨overriding, _, made⟩ := Checked.ok_of_bind made
  obtain ⟨overrides, each, made⟩ := Checked.ok_of_bind made
  cases made
  refine ⟨rfl, fun entry member => ?_, rfl⟩
  obtain ⟨candidate, _, made⟩ :=
    Except.mem_of_mapM_result _ _ _ each entry (List.mem_reverse.1 member)
  exact ⟨candidate, made⟩

theorem Built.overridesLeaves (built : schema.Built declared) : schema.OverridesLeaves where
  leaf entry member := by
    obtain ⟨candidate, made⟩ := built.overrides entry member
    rw [← Declaration.kind_ofDeclarations declared.types built.types]
    exact (Declaration.override_eq_ok made).1
  own entry member scalar same := by
    obtain ⟨candidate, made⟩ := built.overrides entry member
    have named := (Declaration.override_eq_ok made).2
    rw [same] at named
    exact Declaration.standard_of_name ((Value.equals_str _ _).1 named)

theorem Built.namesValues (built : schema.Built declared) : schema.NamesValues := by
  intro leaf values body
  cases leaf with
  | standard scalar => cases body
  | declared index =>
      simp only [Layout.definition, built.types, List.getElem?_toArray, List.getElem?_map] at body
      cases found : declared.types[index]? with
      | none =>
          rw [found] at body
          cases body
      | some type =>
          rw [found] at body
          simp only [Option.map_some, Option.getD_some, Declaration.typeDef] at body
          cases shape : type.body with
          | enum entries =>
              rw [shape] at body
              simp only [Declaration.body, TypeBody.enum.injEq] at body
              exact Declaration.namesOwn_enumValues body
          | _ =>
              rw [shape] at body
              cases body

end Schema

end GraphQL
