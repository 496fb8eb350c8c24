import GraphQL.Proofs.DepthLimit
import GraphQL.Proofs.Simulation

/-!
The complexity of an operation and what is executed. Every field that is resolved stands at the end of
a branch on which every node takes part, and each such branch is counted. So no more different places
are resolved than the complexity says, as long as no field costs less than one more than what is
selected within it, and the same nodes take part when the operation is executed.
-/

namespace GraphQL

open GraphQL.Action

/-- The calls that decide whether a node takes part. -/
def Schema.Decides (schema : Schema) (asked : Call) : Prop :=
  ∃ serialize parseValue function literal vars,
    (schema.definition (schema.leafInEffect (.standard .boolean))).body
        = .scalar (.custom serialize parseValue (.function function))
      ∧ asked = .parseLiteral function literal vars

/-- Whether a field of the schema is priced by a function. -/
def Schema.Prices (schema : Schema) (function : Nat) : Prop :=
  ∃ parent name field, schema.field? parent name = .ok (some field)
    ∧ field.complexity = .function function

/-- No field costs less than one more than what is selected within it. -/
def Schema.CostsRise {σ : Type} (schema : Schema) (answer : Call → σ → Reply × σ) : Prop :=
  ∀ function, schema.Prices function → ∀ (child : Int) given state value,
    (answer (.complexity function (.int child) given) state).1 = .ok value →
      ∃ cost, value.int? = some cost ∧ child + 1 ≤ cost

section Decisions

variable {schema : Schema} {vars : Variables}

theorem within_readBoolean (schema : Schema) (vars : Variables) (literal : Literal) :
    (Input.readLeaf schema.toLayout vars literal (.standard .boolean)).Within schema.Decides
      fun _ => True := by
  have failed : ∀ {α : Type} (result : Except Failure α), Except.FailsWell (fun _ => True) result :=
    fun _ _ _ => trivial
  have parsed : (schema.parseLiteral (schema.leafInEffect (.standard .boolean)) literal vars).Within
      schema.Decides fun _ => True := by
    unfold Layout.parseLiteral
    split
    · exact failed _
    · exact within_lift _ (failed _)
    · next serialize parseValue parse _ body =>
        cases parse with
        | function id => exact within_ask _ ⟨_, _, id, literal, vars, body, rfl⟩
        | other value => exact within_fail _ trivial
        | absent => exact within_fail _ trivial
    · exact within_bind _ _ (within_checked _ fun _ _ => trivial) fun _ => within_lift _ (failed _)
    · exact within_fail _ trivial
  refine within_andThen _ _ parsed fun result _ => ?_
  cases result with
  | ok value => exact within_pure _
  | error failure =>
      simp only
      split
      · exact within_pure _
      · exact within_fail _ trivial

/-- The type of what a node says about its taking part. -/
def decisionType : TypeRef := .nonNull (.named (.standard .boolean))

theorem within_readDecision (schema : Schema) (vars : Variables) (literal : Literal) :
    (Input.readLiteral schema.toLayout vars literal decisionType).Within schema.Decides
      fun _ => True := by
  have through : ∀ parts, (Input.readThrough schema.toLayout vars literal parts
      decisionType).Within schema.Decides fun _ => True := by
    intro parts
    unfold decisionType Input.readThrough
    split
    · exact within_pure _
    · unfold Input.readThrough
      split
      · exact within_pure _
      · exact within_readBoolean schema vars literal
  cases literal with
  | reference _ name => exact Input.within_readReference name _
  | _ => exact through _

theorem within_bindDecision (schema : Schema) (vars : Variables) (place : Nat)
    (given : List ArgumentNode) (name : Value) :
    (Input.bindArgument schema.toLayout vars place given name
      ⟨name, .ok decisionType, .undefined⟩).Within schema.Decides fun _ => True := by
  have refused : ∀ (place : Nat) (problem : String → Input.ArgumentProblem) (type : TypeRef),
      (do Input.refuseArgument place name (problem (← schema.text type)) :
        Action (Option Value)).Within schema.Decides fun _ => True := fun _ _ _ =>
    within_bind _ _ (within_lift _ fun _ _ => trivial) fun _ => within_fail _ trivial
  have omitted : ∀ (place : Nat) (problem : String → Input.ArgumentProblem),
      (Input.omitted ⟨name, .ok decisionType, .undefined⟩ fun type => do
        Input.refuseArgument place name (problem (← schema.text type))).Within schema.Decides
          fun _ => True := by
    intro place problem
    unfold Input.omitted
    split
    · exact within_pure _
    · refine within_worked _ _ (fun _ _ => trivial) fun type _ => ?_
      split
      · exact refused _ _ _
      · exact within_pure _
  unfold Input.bindArgument
  refine within_worked _ _ (fun _ _ => trivial) fun type typed => ?_
  cases typed
  split
  · exact omitted _ _
  · split
    · exact omitted _ _
    · unfold Input.readArgument
      split
      · exact refused _ _ _
      · refine within_bind _ _ (within_readDecision schema vars _) fun value => ?_
        split
        · exact within_fail _ trivial
        · exact within_pure _

theorem Scope.decides_isIncluded (scope : Scope) (directives : List DirectiveNode) :
    (scope.isIncluded directives).Within scope.schema.Decides fun _ => True := by
  have condition : ∀ directive : Directive, directive.arguments
        = .ok (.ofList [(.str "if", ⟨.str "if", .ok decisionType, .undefined⟩)]) →
      (scope.condition directive directives).Within scope.schema.Decides fun _ => True := by
    intro directive takes
    refine within_bind _ _ ?_ fun _ => within_pure _
    unfold Input.directiveArguments
    split
    · exact within_pure _
    · next node _ =>
        rw [takes]
        refine within_bind _ _ ?_ fun _ => within_pure _
        have bound := within_bindDecision scope.schema scope.vars node.start node.arguments
          (.str "if")
        refine within_worked _ _ (fun _ _ => trivial) fun table worked => ?_
        cases worked
        refine within_bind _ _ bound fun found => ?_
        cases found with
        | some value => exact within_pure _
        | none => exact within_pure _
  unfold isIncluded
  refine within_bind _ _ (condition _ rfl) fun skipped => ?_
  split
  · exact within_pure _
  · refine within_bind _ _ (condition _ rfl) fun included => ?_
    split
    · exact within_pure _
    · exact within_pure _

end Decisions

/-- Whether directives let a node take part, when that is asked in a state. -/
def Scope.lets {σ : Type} (scope : Scope) (answer : Call → σ → Reply × σ) (state : σ)
    (directives : List DirectiveNode) : Bool :=
  match ((scope.isIncluded directives).run answer state).1 with
  | .ok included => included
  | .error _ => false

namespace Selection

mutual

/-- The response keys that lead to the fields of a selection, given those of the fragments that it
spreads. What does not take part is left out. -/
def keyPaths (lets : List DirectiveNode → Bool) (spreadPaths : String → List (List String)) :
    Selection → List (List String)
  | field _ alias_ name _ directives selections =>
    if lets directives then
      [alias_.getD name] :: (keyPathsOfAll lets spreadPaths selections).map (alias_.getD name :: ·)
    else []
  | inlineFragment _ _ directives selections =>
    if lets directives then keyPathsOfAll lets spreadPaths selections else []
  | spread _ name directives => if lets directives then spreadPaths name else []

def keyPathsOfAll (lets : List DirectiveNode → Bool) (spreadPaths : String → List (List String)) :
    List Selection → List (List String)
  | [] => []
  | selection :: rest => keyPaths lets spreadPaths selection ++ keyPathsOfAll lets spreadPaths rest

end

/-- The same with fragments nested up to a number of levels. A fragment within itself is left out. -/
def keyPathsWithin (lets : List DirectiveNode → Bool) (fragments : List Fragment) :
    (levels : Nat) → List String → List Selection → List (List String)
  | 0, _ => keyPathsOfAll lets fun _ => []
  | levels + 1, within => keyPathsOfAll lets fun name =>
    match fragment? fragments name with
    | some fragment =>
      if within.contains name then []
      else keyPathsWithin lets fragments levels (name :: within) fragment.selections
    | none => []

/-- The keys that a spread adds. -/
def spreadPaths (lets : List DirectiveNode → Bool) (fragments : List Fragment) :
    (levels : Nat) → List String → String → List (List String)
  | 0, _, _ => []
  | levels + 1, within, name =>
    match fragment? fragments name with
    | some fragment =>
      if within.contains name then []
      else keyPathsWithin lets fragments levels (name :: within) fragment.selections
    | none => []

variable {lets : List DirectiveNode → Bool} {fragments : List Fragment}

theorem keyPathsWithin_eq (levels : Nat) (within : List String) (selections : List Selection) :
    keyPathsWithin lets fragments levels within selections
      = keyPathsOfAll lets (spreadPaths lets fragments levels within) selections := by
  cases levels with
  | zero => rfl
  | succ levels => rfl

theorem keyPaths_subset (spread : String → List (List String)) {selections : List Selection}
    {selection : Selection} (member : selection ∈ selections) :
    keyPaths lets spread selection ⊆ keyPathsOfAll lets spread selections := by
  induction selections with
  | nil => cases member
  | cons first rest ih =>
      rw [keyPathsOfAll]
      rcases List.mem_cons.1 member with rfl | later
      · exact List.subset_append_left _ _
      · exact List.Subset.trans (ih later) (List.subset_append_right _ _)

/-- A branch on which every node takes part is found among the keys, if it expands every fragment at
most once and none that it stands in. -/
theorem mem_keyPathsWithin {selections : List Selection} {spreads keys : List String}
    {node : FieldNode}
    (taken : Taken fragments (fun directives => lets directives = true) selections spreads keys node)
    (levels : Nat) (within : List String) (distinct : spreads.Nodup)
    (outside : ∀ name ∈ spreads, name ∉ within) (bound : spreads.length ≤ levels) :
    keys ∈ keyPathsWithin lets fragments levels within selections := by
  induction taken generalizing levels within with
  | field node member part =>
      rw [keyPathsWithin_eq]
      apply keyPaths_subset _ member
      rw [FieldNode.selection, keyPaths, if_pos part]
      exact List.mem_cons_self
  | nested outer member part _ ih =>
      have below := ih levels within distinct outside bound
      rw [keyPathsWithin_eq] at below ⊢
      apply keyPaths_subset _ member
      rw [FieldNode.selection, keyPaths, if_pos part]
      exact List.mem_cons_of_mem _ (List.mem_map_of_mem below)
  | inline member part _ ih =>
      have below := ih levels within distinct outside bound
      rw [keyPathsWithin_eq] at below ⊢
      apply keyPaths_subset _ member
      rwa [keyPaths, if_pos part]
  | @spread selections _ name _ fragment spreads _ _ member part found _ ih =>
      rw [List.length_cons] at bound
      rw [List.nodup_cons] at distinct
      cases levels with
      | zero => omega
      | succ levels =>
          have fresh : name ∉ within := outside name List.mem_cons_self
          have later : ∀ other ∈ spreads, other ∉ name :: within := by
            intro other inside again
            rcases List.mem_cons.1 again with rfl | before
            · exact distinct.1 inside
            · exact outside other (List.mem_cons_of_mem _ inside) before
          have below := ih levels (name :: within) distinct.2 later (by omega)
          rw [keyPathsWithin_eq (levels + 1)]
          apply keyPaths_subset _ member
          rw [keyPaths, if_pos part]
          simpa only [spreadPaths, found, List.contains_iff_mem, fresh, if_false] using below

end Selection

namespace Action

variable {σ α : Type} {answer : Call → σ → Reply × σ} {state : σ} {value : α}

theorem ok_of_run_checked {result : Checked α}
    (ran : ((liftM result : Action α).run answer state).1 = .ok value) : result = .ok value := by
  cases result with
  | ok found => exact congrArg Except.ok (Except.ok.inj ran)
  | error fault => cases ran

theorem ok_of_run_valued {result : Except ValueFault α}
    (ran : ((liftM result : Action α).run answer state).1 = .ok value) : result = .ok value := by
  cases result with
  | ok found => exact congrArg Except.ok (Except.ok.inj ran)
  | error fault => cases ran

/-- What an action comes to is a number, and none below a bound. -/
def AtLeast (answer : Call → σ → Reply × σ) (action : Action Value) (bound : Int) : Prop :=
  ∀ state value, (action.run answer state).1 = .ok value →
    ∃ cost, value = .int cost ∧ bound ≤ cost

end Action

theorem Value.raisedBy_of_int? {total number : Int} {more : Value} (size : more.int? = some number) :
    (Value.int total).raisedBy more = .ok (.int (total + number)) := by
  have sum : (Value.int total).plus more = .ok (.int (total + number)) := by
    rw [plus, size]
    rfl
  rw [raisedBy, sum]
  rfl

namespace Selection

variable {σ : Type} {scope : Scope} {answer : Call → σ → Reply × σ}

theorem lets_of_run (alike : AnswersAlike answer scope.schema.Decides)
    {directives : List DirectiveNode} {state : σ} {included : Bool}
    (ran : ((scope.isIncluded directives).run answer state).1 = .ok included) (base : σ) :
    scope.lets answer base directives = included := by
  have same := run_of_answersAlike alike _ (scope.decides_isIncluded directives) base state
  rw [Scope.lets, same, ran]

theorem atLeast_fieldCost (rise : scope.schema.CostsRise answer) {parent : Option TypeId}
    {name : String} {definition : Option Field} (found : scope.fieldOn? parent name = .ok definition)
    (start : Nat) (given : List ArgumentNode) (child : Int) (state : σ) (value : Value)
    (ran : ((scope.fieldCost definition start given (.int child)).run answer state).1 = .ok value) :
    ∃ cost, value.int? = some cost ∧ child + 1 ≤ cost := by
  have plain : ∀ {value : Value},
      ((liftM ((Value.int child).plus (.int 1)) : Action Value).run answer state).1 = .ok value →
        ∃ cost, value.int? = some cost ∧ child + 1 ≤ cost := by
    intro value ran
    cases ok_of_run_valued ran
    exact ⟨child + 1, rfl, le_refl _⟩
  unfold Scope.fieldCost at ran
  cases definition with
  | none =>
      exact plain ran
  | some field =>
      simp only at ran
      split at ran
      · exact plain ran
      · obtain ⟨bound, _, ran⟩ := ok_of_run_bind ran
        cases slot : field.complexity with
        | function id =>
            have priced : scope.schema.Prices id := by
              unfold Scope.fieldOn? at found
              split at found
              · exact ⟨_, name, field, found, slot⟩
              · cases found
            rw [slot] at ran
            exact rise id priced child _ _ value ran
        | other value =>
            rw [slot] at ran
            cases ran
        | absent =>
            rw [slot] at ran
            cases ran

/-- The costs of spreads cover the keys that they add. -/
structure SpreadsCosted (answer : Call → σ → Reply × σ)
    (spreadCost : String → Option (Action Value)) (spread : String → List (List String)) :
    Prop where
  costed : ∀ name cost, spreadCost name = some cost → cost.AtLeast answer (spread name).length
  free : ∀ name, spreadCost name = none → spread name = []

variable {spreadCost : String → Option (Action Value)} {spread : String → List (List String)}

mutual

theorem atLeast_addCost (alike : AnswersAlike answer scope.schema.Decides)
    (rise : scope.schema.CostsRise answer) (spreads : SpreadsCosted answer spreadCost spread)
    (base : σ) (parent : Option TypeId) (selection : Selection) (total : Int) :
    (addCost scope spreadCost parent selection (.int total)).AtLeast answer
      (total + (keyPaths (scope.lets answer base) spread selection).length) := by
  intro state value ran
  match selection with
  | field start alias_ name arguments directives selections =>
      simp only [addCost] at ran
      obtain ⟨included, part, ran⟩ := ok_of_run_bind ran
      have lets := lets_of_run alike part base
      cases included with
      | false =>
          cases ran
          rw [keyPaths, lets]
          exact ⟨total, rfl, by simp⟩
      | true =>
          obtain ⟨definition, looked, ran⟩ := ok_of_run_bind ran
          obtain ⟨type, _, ran⟩ := ok_of_run_bind ran
          obtain ⟨child, below, ran⟩ := ok_of_run_bind ran
          obtain ⟨cost, priced, ran⟩ := ok_of_run_bind ran
          obtain ⟨within, rfl, few⟩ :=
            atLeast_costOfAll alike rise spreads base type selections 0 _ _ below
          obtain ⟨size, number, more⟩ :=
            atLeast_fieldCost rise (ok_of_run_checked looked) start arguments within _ _ priced
          rw [Value.raisedBy_of_int? number] at ran
          cases ok_of_run_valued ran
          refine ⟨total + size, rfl, ?_⟩
          -- one for the field itself, and its cost covers what is selected within it
          rw [keyPaths, if_pos lets, List.length_cons, List.length_map]
          omega
  | inlineFragment start condition directives selections =>
      simp only [addCost] at ran
      obtain ⟨included, part, ran⟩ := ok_of_run_bind ran
      have lets := lets_of_run alike part base
      cases included with
      | false =>
          cases ran
          rw [keyPaths, lets]
          exact ⟨total, rfl, by simp⟩
      | true =>
          obtain ⟨type, _, ran⟩ := ok_of_run_bind ran
          obtain ⟨child, below, ran⟩ := ok_of_run_bind ran
          obtain ⟨within, rfl, few⟩ :=
            atLeast_costOfAll alike rise spreads base type selections 0 _ _ below
          cases ok_of_run_valued ran
          refine ⟨total + within, rfl, ?_⟩
          rw [keyPaths, if_pos lets]
          omega
  | .spread start name directives =>
      simp only [addCost] at ran
      obtain ⟨included, part, ran⟩ := ok_of_run_bind ran
      have lets := lets_of_run alike part base
      cases included with
      | false =>
          cases ran
          rw [keyPaths, lets]
          exact ⟨total, rfl, by simp⟩
      | true =>
          rw [keyPaths, if_pos lets]
          simp only [if_true] at ran
          cases found : spreadCost name with
          | none =>
              rw [found] at ran
              cases ran
              rw [spreads.free name found]
              exact ⟨total, rfl, by simp⟩
          | some cost =>
              rw [found] at ran
              obtain ⟨child, below, ran⟩ := ok_of_run_bind ran
              obtain ⟨within, rfl, few⟩ := spreads.costed name cost found _ _ below
              cases ok_of_run_valued ran
              exact ⟨total + within, rfl, by omega⟩

theorem atLeast_costOfAll (alike : AnswersAlike answer scope.schema.Decides)
    (rise : scope.schema.CostsRise answer) (spreads : SpreadsCosted answer spreadCost spread)
    (base : σ) (parent : Option TypeId) (selections : List Selection) (total : Int) :
    (costOfAll scope spreadCost parent selections (.int total)).AtLeast answer
      (total + (keyPathsOfAll (scope.lets answer base) spread selections).length) := by
  intro state value ran
  match selections with
  | [] =>
      cases ran
      exact ⟨total, rfl, by simp [keyPathsOfAll]⟩
  | selection :: rest =>
      simp only [costOfAll] at ran
      obtain ⟨middle, first, ran⟩ := ok_of_run_bind ran
      obtain ⟨before, rfl, few⟩ :=
        atLeast_addCost alike rise spreads base parent selection total _ _ first
      obtain ⟨after, rfl, more⟩ :=
        atLeast_costOfAll alike rise spreads base parent rest before _ _ ran
      refine ⟨after, rfl, ?_⟩
      rw [keyPathsOfAll, List.length_append]
      omega

end

/-- The cost with nested fragments covers the keys with nested fragments. -/
theorem atLeast_costWithin (alike : AnswersAlike answer scope.schema.Decides)
    (rise : scope.schema.CostsRise answer) (base : σ) (levels : Nat) (within : List String)
    (parent : Option TypeId) (selections : List Selection) :
    (costWithin scope levels within parent selections).AtLeast answer
      (keyPathsWithin (scope.lets answer base) scope.fragments levels within selections).length := by
  induction levels generalizing within parent selections with
  | zero =>
      have nothing : SpreadsCosted answer (fun _ => none) fun _ => [] :=
        ⟨(fun _ _ found => by cases found), fun _ _ => rfl⟩
      have covers := atLeast_costOfAll alike rise nothing base parent selections 0
      rwa [zero_add] at covers
  | succ levels ih =>
      rw [keyPathsWithin_eq, costWithin, ← zero_add (List.length _ : Int)]
      refine atLeast_costOfAll alike rise ⟨fun name cost found => ?_, fun name free => ?_⟩ base
        parent selections 0
      · obtain ⟨fragment, named, found⟩ := Option.bind_eq_some_iff.1 found
        obtain ⟨_, outside, same⟩ := Option.bind_eq_some_iff.1 found
        cases same
        intro state value ran
        obtain ⟨type, _, ran⟩ := ok_of_run_bind ran
        have covers := ih (name :: within) type fragment.selections _ _ ran
        have apart : within.contains name = false := by
          simpa [guard, failure] using outside
        simpa only [spreadPaths, named, apart, Bool.false_eq_true, if_false] using covers
      · simp only [spreadPaths]
        cases named : fragment? scope.fragments name with
        | none => rfl
        | some fragment =>
            simp only
            cases inside : within.contains name with
            | true => rfl
            | false =>
                have member : name ∈ within := by simpa [named, guard] using free
                rw [List.contains_iff_mem.2 member] at inside
                cases inside

end Selection

/-- The complexity of an operation covers the keys that lead to its fields. -/
theorem Cost.atLeast_complexity {σ : Type} {scope : Scope} {answer : Call → σ → Reply × σ}
    (alike : AnswersAlike answer scope.schema.Decides) (rise : scope.schema.CostsRise answer)
    (base : σ) (operation : Operation) :
    (complexity scope operation).AtLeast answer
      (Selection.keyPathsWithin (scope.lets answer base) scope.fragments scope.fragments.length []
        operation.selections).length :=
  Selection.atLeast_costWithin alike rise base _ _ _ _

namespace World

variable {σ : Type} {application : Application σ}

/-- Every reply came from the application, in some state. -/
def Answered (application : Application σ) (world : World σ) : Prop :=
  ∀ asked reply, world.Saw (.called asked reply) → ∃ state, reply = (application.answer asked state).1

theorem Answered.of_past {world after : World σ} (answered : world.Answered application)
    (past : after.past = world.past) : after.Answered application := by
  intro asked reply saw
  obtain ⟨time, member⟩ := saw
  rw [past] at member
  exact answered asked reply ⟨time, member⟩

theorem Answered.of_cons {world after : World σ} {time : Nat} {event : Event}
    (answered : world.Answered application) (past : after.past = (time, event) :: world.past)
    (other : ∀ asked reply, event ≠ .called asked reply) : after.Answered application := by
  intro asked reply saw
  rcases (saw_cons_iff past _).1 saw with same | before
  · exact absurd same.symm (other asked reply)
  · exact answered asked reply before

theorem Answered.closeAll {world : World σ} (answered : world.Answered application)
    (tickets : List Nat) : (tickets.foldl close world).Answered application := by
  induction tickets generalizing world with
  | nil => exact answered
  | cons ticket rest ih =>
      rw [List.foldl_cons]
      apply ih
      unfold close
      split
      · exact answered.of_cons rfl fun _ _ same => by cases same
      · exact answered

theorem invariant_answered (application : Application σ) :
    Invariant application (Answered application) where
  ask := by
    intro world answered asked found reply saw
    rcases (saw_cons_iff rfl _).1 saw with same | before
    · cases same
      exact ⟨world.state, rfl⟩
    · exact answered found reply before
  drain answered handle := answered.of_cons rfl fun _ _ same => by cases same
  perform := by
    intro world answered effect
    cases effect with
    | resolving path => exact answered.of_cons rfl fun _ _ same => by cases same
    | resolved path value => exact answered.of_cons rfl fun _ _ same => by cases same
    | listed path items => exact answered.of_cons rfl fun _ _ same => by cases same
    | record error =>
        simp only [perform, record]
        split
        · exact answered
        · exact answered.of_cons rfl fun _ _ same => by cases same
    | close tickets => exact answered.closeAll tickets
    | remember key fields => exact answered.of_past rfl
  launch := by
    intro world answered ticket
    obtain ⟨_, _, _, past⟩ := launch_timers application ticket world
    exact answered.of_cons past fun _ _ same => by cases same
  fire := by
    intro world answered timer _
    unfold fire
    cases timer.wake with
    | refuse fault => exact answered.of_cons rfl fun _ _ same => by cases same
    | finish ticket =>
        intro asked reply saw
        rw [saw_cons_iff rfl, saw_cons_iff rfl] at saw
        rcases saw with same | same | before
        · cases same
        · cases same
        · exact answered asked reply before

end World

/-- What an action yields by such replies it comes to in every state. -/
theorem Action.run_of_yields {σ α : Type} {application : Application σ} {world : World σ}
    (answered : world.Answered application) {calls : Call → Prop}
    (alike : AnswersAlike application.answer calls) (action : Action α)
    (within : action.Within calls fun _ => True) {result : Except Failure α}
    (yields : action.Yields world.account result) (state : σ) :
    (action.run application.answer state).1 = result := by
  induction action generalizing state with
  | done found => exact yields.symm
  | call asked next ih =>
      obtain ⟨reply, called, rest⟩ := yields
      obtain ⟨other, rfl⟩ := answered asked reply called
      have same := alike asked within.1 state other
      simp only [run]
      rw [same]
      exact ih _ (within.2 _ fun _ _ => trivial) rest _

theorem Taken.imp {fragments : List Fragment} {included others : List DirectiveNode → Prop}
    {selections : List Selection} {spreads keys : List String} {node : FieldNode}
    (taken : Taken fragments included selections spreads keys node)
    (each : ∀ directives, included directives → others directives) :
    Taken fragments others selections spreads keys node := by
  induction taken with
  | field node member part => exact .field node member (each _ part)
  | nested outer member part _ ih => exact .nested outer member (each _ part) ih
  | inline member part _ ih => exact .inline member (each _ part) ih
  | spread member part found _ ih => exact .spread member (each _ part) found ih

/-- The position whose field an event resolves. -/
def Event.resolves? : Event → Option ResponsePath
  | .resolving path => some path
  | .called asked _ => if asked.resolves then asked.info?.map (·.path) else none
  | _ => none

namespace World

variable {σ : Type}

/-- The different places that were resolved. All items of a list are one place. -/
def resolvedKeys (world : World σ) : List (List String) :=
  (world.past.filterMap fun moment => moment.2.resolves?.map (·.names)).dedup

theorem located_of_resolves {setting : Setting} {account : Account} {root : TypeId}
    {known : TypeId → Prop} {world : World σ}
    (keeps : world.Keeps (setting.policy account root known)) {time : Nat} {event : Event}
    (member : (time, event) ∈ world.past) {path : ResponsePath}
    (resolves : event.resolves? = some path) :
    ∃ nodes, Located setting account root path nodes := by
  cases event with
  | resolving place =>
      cases resolves
      exact keeps.resolving path ⟨time, member⟩
  | called asked reply =>
      simp only [Event.resolves?] at resolves
      split at resolves
      · next asks =>
          obtain ⟨info, found, rfl⟩ := Option.map_eq_some_iff.1 resolves
          exact ⟨_, (keeps.called asked reply ⟨time, member⟩ info found).1⟩
      · cases resolves
  | _ => cases resolves

end World

theorem names_of_located {σ : Type} {application : Application σ} (setting : Setting)
    {world : World σ} (acyclic : Fragment.Acyclic setting.environment.fragments)
    (answered : world.Answered application)
    (alike : AnswersAlike application.answer setting.schema.Decides) (base : σ) {root : TypeId}
    {path : ResponsePath} {nodes : List FieldNode}
    (located : Located setting world.account root path nodes) :
    path.names ∈ Selection.keyPathsWithin (setting.scope.lets application.answer base)
      setting.environment.fragments setting.environment.fragments.length []
      setting.environment.operation.selections := by
  obtain ⟨node, member⟩ := List.exists_mem_of_ne_nil nodes located.nodes_ne_nil
  obtain ⟨spreads, taken⟩ := taken_of_located located node member
  have distinct := taken.branch.nodup_spreads acyclic
  have few := (List.subperm_of_subset distinct taken.branch.spreads_subset).length_le
  rw [List.length_map] at few
  refine Selection.mem_keyPathsWithin (taken.imp fun directives part => ?_) _ [] distinct
    (fun _ _ => List.not_mem_nil) few
  have ran := Action.run_of_yields answered alike _ (setting.scope.decides_isIncluded directives)
    part base
  exact Selection.lets_of_run alike ran base

namespace Request

variable {σ : Type}

/-- The complexity of an operation is a number, and no run of the operation with the same variables
resolves more different places, where fragments do not spread each other in a cycle, no field costs
less than one more than what is selected within it, and what stands for Boolean reads a literal alike
whenever it is asked. -/
theorem complexity_bounds_execution (application : Application σ) (request : Request)
    (schema : Schema) (document : Document) (operation : Operation)
    (chosen : document.choose request.operationName = .ok operation)
    (acyclic : Fragment.Acyclic document.fragments)
    (rise : schema.CostsRise application.answer)
    (alike : AnswersAlike application.answer schema.Decides) (vars : Variables) (base : σ)
    (complexity : Value)
    (cost : ((Cost.complexity ⟨schema, document.fragments, vars⟩ operation).run application.answer
      base).1 = .ok complexity) :
    ∃ bound : Int, complexity = .int bound ∧ ∀ synchronous state,
      ((request.executeWith application schema document vars synchronous
        { state }).world.resolvedKeys.length : Int) ≤ bound := by
  obtain ⟨bound, number, covers⟩ := Cost.atLeast_complexity alike rise base operation _ _ cost
  refine ⟨bound, number, fun synchronous state => ?_⟩
  have nothing : (({ state } : World σ).resolvedKeys.length : Int) ≤ bound := by
    have none_ : ({ state } : World σ).resolvedKeys = [] := rfl
    rw [none_, List.length_nil]
    omega
  unfold executeWith
  split
  · exact nothing
  · rw [chosen]
    simp only
    split
    · exact nothing
    · next root _ =>
        let setting : Setting := ⟨request.environment schema document operation vars, synchronous⟩
        let program := Execution.operation setting root
        let final := (carryOut application synchronous program { state }).world
        have answered : final.Answered application := by
          have fresh : ({ state } : World σ).Answered application := fun _ _ saw => by
            obtain ⟨_, member⟩ := saw
            cases member
          have kept := (World.invariant_answered application).complete program fresh
          show (carryOut application synchronous program { state }).world.Answered application
          rw [carryOut_eq, respond_world]
          exact kept
        have obeys : program.Obeys (setting.policy final.account root fun _ => True)
            final.account :=
          Execution.obeys_operationIn (closed_all setting.schema) _ trivial
        have keeps : final.Keeps (setting.policy final.account root fun _ => True) :=
          keeps_of_carryOut application synchronous program _ obeys (World.keeps_new _ state)
        -- whatever is resolved has its keys among those that were counted
        have counted : final.resolvedKeys ⊆ Selection.keyPathsWithin
            ((⟨schema, document.fragments, vars⟩ : Scope).lets application.answer base)
            document.fragments document.fragments.length [] operation.selections := by
          intro keys member
          obtain ⟨⟨time, event⟩, happened, found⟩ :=
            List.mem_filterMap.1 (List.mem_dedup.1 member)
          obtain ⟨path, resolves, rfl⟩ := Option.map_eq_some_iff.1 found
          obtain ⟨nodes, located⟩ := World.located_of_resolves keeps happened resolves
          exact names_of_located setting acyclic answered alike base located
        have few : final.resolvedKeys.length ≤ _ :=
          (List.subperm_of_subset (List.nodup_dedup _) counted).length_le
        exact (Int.ofNat_le.2 few).trans covers

end Request

/-- A schema whose only field leads back to its type and has its cost worked out by a function, with a
Boolean of its own. -/
def Schema.tolled : Schema := .ofLayout
  { types := #[⟨.str "Query", .object
        (.ok (.ofList [(.str "a",
          { name := .str "a", type := .ok (.named (.declared 0)), arguments := .ok .empty
            resolve := .function 0, complexity := .function 1, deprecated := none })]))
        (.ok []) .absent⟩,
      ⟨.str "Boolean", .scalar (.custom (.function 2) (.function 3) (.function 4))⟩]
    query := some (.named (.declared 0))
    mutation := none
    subscription := none
    extra := []
    directives := Directive.specified
    overrides := [(.boolean, .declared 1)]
    assumeValid := true }

/-- A toll of two for each field. The first so many times that a decision is asked for it is yes, and
from then on no. -/
def Application.toll : Application Nat where
  answer
    | .complexity _ (.int child) _, left => (.ok (.int (child + 2)), left)
    | .parseLiteral .., left => (.ok (.bool (decide (0 < left))), left - 1)
    | _, left => (.ok (.map []), left)
  drain _ left := (([], none), left)
  delay _ _ := 0
  finish _ left := (.ok .null, left)

/-- The same, with decisions as they are written. -/
def Application.evenToll : Application Nat where
  answer
    | .parseLiteral _ (.boolean _ value) _, left => (.ok (.bool value), left)
    | .parseLiteral .., left => (.ok (.bool false), left)
    | asked, left => Application.toll.answer asked left
  drain := Application.toll.drain
  delay := Application.toll.delay
  finish := Application.toll.finish

theorem Schema.costsRise_toll : tolled.CostsRise Application.toll.answer := by
  intro function _ child given state value answered
  cases answered
  exact ⟨child + 2, rfl, by omega⟩

theorem Schema.costsRise_evenToll : tolled.CostsRise Application.evenToll.answer := by
  intro function _ child given state value answered
  cases answered
  exact ⟨child + 2, rfl, by omega⟩

theorem Schema.decided_evenToll : AnswersAlike Application.evenToll.answer tolled.Decides := by
  rintro _ ⟨_, _, function, literal, vars, _, rfl⟩ state other
  cases literal <;> rfl

/-- A field on which a fragment is spread twice beside one that is skipped. -/
def Document.repeating : Document where
  source := []
  definitions := [
    .operation ⟨0, .query, none, [], [], [
      .field 2 none "a" [] [] [
        .spread 6 "F" [],
        .spread 11 "F" [],
        .field 16 (some "b") "a" [] [⟨21, "skip", [⟨27, "if", .boolean 31 true⟩]⟩] []]]⟩,
    .fragment ⟨40, "F", "Query", [], [.field 61 none "a" [] [] []]⟩]

/-- A field that is skipped. -/
def Document.skipping : Document where
  source := []
  definitions := [.operation ⟨0, .query, none, [], [],
    [.field 2 none "a" [] [⟨4, "skip", [⟨10, "if", .boolean 14 true⟩]⟩] []]⟩]

theorem Fragment.acyclic_of_plain {fragments : List Fragment}
    (plain : ∀ fragment ∈ fragments, Selection.spreadsOfAll fragment.selections = []) :
    Acyclic fragments := by
  intro name reaches
  obtain ⟨_, fragment, found, inside⟩ := Relation.TransGen.tail'_iff.1 reaches |>.imp fun _ => And.right
  rw [plain fragment (List.mem_of_find?_eq_some found)] at inside
  cases inside

namespace Request

set_option maxRecDepth 10000 in
theorem repeated_field_is_within_toll :
    ∃ operation, Document.repeating.choose none = .ok operation
      ∧ Fragment.Acyclic Document.repeating.fragments
      ∧ Schema.tolled.CostsRise Application.evenToll.answer
      ∧ AnswersAlike Application.evenToll.answer Schema.tolled.Decides
      ∧ ((Cost.complexity ⟨.tolled, Document.repeating.fragments, []⟩ operation).run
        Application.evenToll.answer 0).1 = .ok (.int 6)
      ∧ ∃ bound : Int, Value.int 6 = .int bound ∧ ∀ synchronous state,
        (((({} : Request).executeWith Application.evenToll .tolled Document.repeating [] synchronous
          { state }).world.resolvedKeys.length : Int)) ≤ bound := by
  have acyclic : Fragment.Acyclic Document.repeating.fragments := by
    apply Fragment.acyclic_of_plain
    intro fragment member
    cases List.mem_singleton.1 member
    rfl
  have cost : ((Cost.complexity ⟨.tolled, Document.repeating.fragments, []⟩
      Document.repeating.operations.head!).run Application.evenToll.answer 0).1
        = .ok (.int 6) := by
    cbv
  exact ⟨_, rfl, acyclic, Schema.costsRise_evenToll, Schema.decided_evenToll, cost,
    complexity_bounds_execution Application.evenToll {} .tolled Document.repeating _ rfl acyclic
      Schema.costsRise_evenToll Schema.decided_evenToll [] 0 _ cost⟩

set_option maxRecDepth 10000 in
/-- A decision that is not made again in the same way lets a field be resolved that was not counted. -/
theorem fickle_decision_exceeds_toll :
    ∃ operation, Document.skipping.choose none = .ok operation
      ∧ Fragment.Acyclic Document.skipping.fragments
      ∧ Schema.tolled.CostsRise Application.toll.answer
      ∧ ((Cost.complexity ⟨.tolled, Document.skipping.fragments, []⟩ operation).run
        Application.toll.answer 1).1 = .ok (.int 0)
      ∧ ¬ ((({} : Request).executeWith Application.toll .tolled Document.skipping [] false
        { state := 0 }).world.resolvedKeys.length : Int) ≤ 0 := by
  have acyclic : Fragment.Acyclic Document.skipping.fragments := by
    apply Fragment.acyclic_of_plain
    intro fragment member
    cases member
  have resolved : (({} : Request).executeWith Application.toll .tolled Document.skipping [] false
      { state := 0 }).world.resolvedKeys = [["a"]] := by
    cbv
  refine ⟨_, rfl, acyclic, Schema.costsRise_toll, by cbv, ?_⟩
  rw [resolved]
  decide

end Request

end GraphQL
