import GraphQL.Proofs.Stopping

/-!
Executions that must not wait. They come to what the same execution comes to that may wait, as long as
nothing has to be waited for; else they end at the first thing that would have to be.
-/

namespace GraphQL

/-- What a slot is yet to be waited for. -/
def Pending.ticket? : Pending → Option Nat
  | .ticket awaited => some awaited
  | _ => none

theorem Failure.urgent_of_stops {failure : Failure} (stops : failure.kind = .asynchronous) :
    failure.isUrgent = true := by
  cases failure with
  | response error => cases stops
  | _ => rfl

namespace Process

variable {σ : Type}

mutual

/-- What has to be waited for first, in the order of the response. -/
def first? : Process → Option (List Nat)
  | finished _ => none
  | waiting slots _ => some (slots.filterMap Pending.ticket?)
  | joining children _ => firstOf children

def firstOf : List Process → Option (List Nat)
  | [] => none
  | process :: rest => process.first?.or (firstOf rest)

end

theorem outcomes?_of_firstOf {processes : List Process} {tickets : List Nat}
    (found : firstOf processes = some tickets) : outcomes? processes = none := by
  induction processes with
  | nil => cases found
  | cons process rest ih =>
      cases process with
      | finished outcome =>
          simp only [firstOf, first?, Option.none_or] at found
          simp only [outcomes?, ih found, Option.map_none]
      | waiting slots next => rfl
      | joining children next => rfl

theorem past_launch (application : Application σ) (process : Process) (world : World σ) :
    ∃ more, (launch application process world).2.past = more ++ world.past := by
  obtain ⟨_, later⟩ := alike_launch (World.simulation_onto application world.past) process
    { world with past := [] } world rfl
  exact ⟨_, congrArg World.past later⟩

theorem past_run (application : Application σ) (process : Process) (world : World σ) :
    ∃ more, (run application process world).2.past = more ++ world.past := by
  have longer : world = World.onto world.past { world with past := [] } := rfl
  obtain ⟨_, later⟩ := alike_run (World.simulation_onto application world.past) process longer
  exact ⟨_, congrArg World.past later⟩

theorem past_startAll (application : Application σ) (programs : List Program) (world : World σ) :
    ∃ more, (startAll application programs world).2.past = more ++ world.past := by
  obtain ⟨_, later⟩ := alike_startAll (World.simulation_onto application world.past) programs
    { world with past := [] } world rfl
  exact ⟨_, congrArg World.past later⟩

/-- Where a program that must not wait has stopped: at a moment of the other program, with something
to wait for, which it gives up. -/
structure Stopped (tickets : List Nat) (found strict full : World σ) : Prop where
  some_ : tickets ≠ []
  closed : strict = found.perform (.close tickets)
  later : ∃ more, full.past = more ++ found.past

/-- How a program that must not wait starts beside one that may. -/
inductive Beside : Process × World σ → Process × World σ → Prop where
  /-- Nothing has to be waited for. -/
  | same (outcome : Outcome) (world : World σ) : Beside (finished outcome, world)
    (finished outcome, world)
  | stopped {process : Process} {tickets : List Nat} {found strict full : World σ} :
    Stopped tickets found strict full → process.first? = some tickets →
    Beside (finished (.error .asynchronous), strict) (process, full)
  /-- The other program is stopped later on by the application. -/
  | both {failure : Failure} {strict full : World σ} : failure.kind = .asynchronous →
    Beside (finished (.error .asynchronous), strict) (finished (.error failure), full)

inductive BesideEach : Except Failure (List Process) × World σ →
    Except Failure (List Process) × World σ → Prop where
  | same (processes : List Process) (outcomes : List Outcome) (world : World σ) :
    outcomes? processes = some outcomes → BesideEach (.ok processes, world) (.ok processes, world)
  | failed (failure : Failure) (world : World σ) : BesideEach (.error failure, world)
    (.error failure, world)
  | stopped {processes : List Process} {tickets : List Nat} {found strict full : World σ} :
    Stopped tickets found strict full → firstOf processes = some tickets →
    BesideEach (.error .asynchronous, strict) (.ok processes, full)
  | both {failure : Failure} {strict full : World σ} : failure.kind = .asynchronous →
    BesideEach (.error .asynchronous, strict) (.error failure, full)

theorem CarriedTo.good {application : Application σ} {good : Outcome → Prop} {program : Program}
    {world after final : World σ} {outcome : Outcome}
    (carried : CarriedTo application program world (finished outcome) after)
    (leads : after.Leads final) (ends : program.Ends final.account good) : good outcome := by
  have ended : (finished outcome).Ends final outcome [] := by simp only [Ends, and_self]
  obtain ⟨encountered, comes, _⟩ := carried.comes leads ended
  exact ends outcome encountered comes

theorem calm_of_stopEach {account : Account} {strict full : List Program}
    (stops : Program.StopEach account strict full) :
    ∀ program ∈ full, program.Ends account Outcome.Calm := by
  induction strict generalizing full with
  | nil =>
      simp only [Program.StopEach] at stops
      subst stops
      intro program inside
      cases inside
  | cons program rest ih =>
      simp only [Program.StopEach] at stops
      obtain ⟨program', rest', rfl, _, calm, later⟩ := stops
      exact List.forall_mem_cons.2 ⟨calm, ih later⟩

/-- Siblings are never given up, unless the execution is stopped. -/
theorem BrokenBy.stops {application : Application σ} {programs : List Program}
    {world after final : World σ} {failure : Failure}
    (broken : BrokenBy application programs world failure after) (leads : after.Leads final)
    (calm : ∀ program ∈ programs, program.Ends final.account Outcome.Calm) :
    failure.kind = .asynchronous := by
  match broken with
  | .here head urgent =>
      obtain ⟨error, rfl⟩ | stops := head.good leads (calm _ List.mem_cons_self) _ rfl
      · cases urgent
      · exact stops
  | .later _ _ rest =>
      exact rest.stops leads fun other inside => calm other (List.mem_cons_of_mem _ inside)

theorem Stopped.trans {tickets : List Nat}
    {found strict full : World σ} (stopped : Stopped tickets found strict full) {later : World σ}
    (more : ∃ more, later.past = more ++ full.past) : Stopped tickets found strict later := by
  obtain ⟨since, before⟩ := stopped.later
  obtain ⟨more, after⟩ := more
  exact ⟨stopped.some_, stopped.closed, more ++ since, by rw [after, before, List.append_assoc]⟩

mutual

/-- A program that must not wait starts beside the one that may. -/
theorem beside_start (application : Application σ) (final : World σ) {strict full : Program}
    (world : World σ) (leads : (start application full world).2.Leads final)
    (stops : strict.Stops final.account full) :
    Beside (start application strict world) (start application full world) := by
  -- By recursion on the program that must not wait. The two stay together up to the first point at
  -- which the other one waits.
  match strict with
  | .done outcome =>
      simp only [Program.Stops] at stops
      subst stops
      simp only [start]
      exact .same outcome world
  | .call asked next =>
      simp only [Program.Stops] at stops
      obtain ⟨next', rfl, each⟩ := stops
      simp only [start] at leads ⊢
      have saw := ((leads_start application _ _).trans leads).saw
        (World.saw_ask application asked world)
      exact beside_start application final _ leads (each _ saw)
  | .perform effect next =>
      simp only [Program.Stops] at stops
      obtain ⟨next', rfl, later⟩ | ⟨tickets, next', some_, rfl, rfl, rfl⟩ := stops
      · simp only [start] at leads ⊢
        exact beside_start application final _ leads later
      · cases tickets with
        | nil => exact absurd rfl some_
        | cons ticket rest =>
            simp only [start, Program.fail]
            refine .stopped ⟨some_, rfl, [], rfl⟩ ?_
            simp only [first?, Option.some.injEq, List.filterMap_map]
            exact List.filterMap_some
  | .consult key next =>
      simp only [Program.Stops] at stops
      obtain ⟨next', rfl, each⟩ := stops
      simp only [start] at leads ⊢
      exact beside_start application final _ leads (each _)
  | .drain handle next =>
      simp only [Program.Stops] at stops
      obtain ⟨next', rfl, each⟩ := stops
      simp only [start] at leads ⊢
      have saw := ((leads_start application _ _).trans leads).saw
        (World.saw_drain application handle world)
      exact beside_start application final _ leads (each _ _ saw)
  | .wait tickets next =>
      simp only [Program.Stops] at stops
  | .join children next =>
      simp only [Program.Stops] at stops
      obtain ⟨children', next', rfl, each, rest, passes, passes'⟩ := stops
      have leadsAll := (leads_startAll_join application children' next' world).trans leads
      have joined := beside_startAll application final world leadsAll each
      simp only [start] at leads ⊢
      generalize startAll application children' world = right at *
      generalize startAll application children world = left at *
      cases joined with
      | same processes outcomes after settled =>
          simp only [settled] at leads ⊢
          exact beside_start application final after leads (rest _)
      | failed failure after => exact beside_start application final after leads (rest _)
      | stopped stopped first =>
          simp only [outcomes?_of_firstOf first, passes .asynchronous rfl, Program.fail, start]
          exact .stopped stopped (by simp only [first?, first])
      | both stops =>
          simp only [passes .asynchronous rfl, passes' _ stops, Program.fail, start]
          exact .both stops

theorem beside_startAll (application : Application σ) (final : World σ)
    {strict full : List Program} (world : World σ)
    (leads : (startAll application full world).2.Leads final)
    (stops : Program.StopEach final.account strict full) :
    BesideEach (startAll application strict world) (startAll application full world) := by
  match strict with
  | [] =>
      simp only [Program.StopEach] at stops
      subst stops
      simp only [startAll]
      exact .same [] [] world rfl
  | program :: rest =>
      simp only [Program.StopEach] at stops
      obtain ⟨program', rest', rfl, first, calm, later⟩ := stops
      have leadsHead := (leads_startAll_cons application program' rest' world).trans leads
      have head := beside_start application final world leadsHead first
      simp only [startAll] at leads ⊢
      generalize start application program' world = right at *
      generalize start application program world = left at *
      cases head with
      | same outcome after =>
          cases urgent : (finished outcome).urgent? with
          | some failure => exact .failed failure after
          | none =>
              simp only [urgent] at leads ⊢
              have tail := beside_startAll application final after leads later
              generalize startAll application rest' after = right at *
              generalize startAll application rest after = left at *
              cases tail with
              | same processes outcomes after settled =>
                  exact .same (finished outcome :: processes) (outcome :: outcomes) after
                    (by simp only [outcomes?, settled, Option.map_some])
              | failed failure after => exact .failed failure after
              | stopped stopped first =>
                  exact .stopped stopped (by simp only [firstOf, first?, Option.none_or, first])
              | both stops => exact .both stops
      -- the other run goes on to the siblings behind, one of which may stop it as well
      | @stopped process tickets found strict full stopped waits =>
          have quiet : process.urgent? = none := by
            cases process with
            | finished outcome => cases waits
            | _ => rfl
          simp only [quiet] at leads ⊢
          have more := past_startAll application rest' full
          have broken := (carriedTo_startAll application rest' full).1
          generalize startAll application rest' full = result at *
          obtain ⟨result, after⟩ := result
          cases result with
          | ok processes =>
              exact .stopped (stopped.trans more) (by simp only [firstOf, waits, Option.some_or])
          | error failure =>
              exact .both ((broken failure after rfl).stops leads (calm_of_stopEach later))
      | @both failure strict full stops =>
          have urgent : (finished (.error failure)).urgent? = some failure := by
            simp only [urgent?, Failure.urgent_of_stops stops, if_true]
          simp only [urgent]
          exact .both stops

end

end Process

/-- The call that an event is. -/
def Event.call? : Event → Option Call
  | .called asked _ => some asked
  | _ => none

namespace World

variable {σ : Type}

/-- The calls of the application, in their order. -/
def calls (world : World σ) : List Call := world.history.filterMap (·.2.call?)

theorem calls_close (world : World σ) (ticket : Nat) : (world.close ticket).calls = world.calls := by
  unfold close
  split
  · simp only [calls, history, note, setStatus, List.reverse_cons, List.filterMap_append,
      List.filterMap_cons, Event.call?, List.filterMap_nil, List.append_nil]
  · rfl

theorem calls_closeAll (tickets : List Nat) (world : World σ) :
    (tickets.foldl close world).calls = world.calls := by
  induction tickets generalizing world with
  | nil => rfl
  | cons ticket rest ih => rw [List.foldl_cons, ih, calls_close]

end World

namespace Process

variable {σ : Type}

theorem first?_launch (application : Application σ) {process : Process} {world : World σ}
    {tickets : List Nat} (waits : process.first? = some tickets) (outcome : Outcome) :
    (launch application process world).1 ≠ finished outcome := by
  cases process with
  | finished outcome => cases waits
  | waiting slots next =>
      rw [launch]
      rintro ⟨⟩
  | joining children next =>
      rw [launch]
      rintro ⟨⟩

end Process

namespace Request

open Process

variable {σ : Type}

/-- What comes of an operation that must not wait, beside what comes of it where it may: the same, if
nothing has to be waited for, or nothing but the calls up to the first thing that has to be. -/
structure Restricts (waited : List Nat → Prop) (strict full : Report σ) : Prop where
  answered : strict.awaited = false
  same : full.awaited = false → (∃ response, full.outcome = .ok response) → strict = full
  stopped : full.awaited = true → strict.outcome = .error .incomplete
    ∧ ∃ tickets found, waited tickets ∧ Stopped tickets found strict.world full.world
      ∧ strict.world.calls = found.calls ∧ strict.world.calls <+: full.world.calls

theorem awaited_respond (synchronous awaited : Bool) (outcome : Outcome) (world : World σ) :
    (respond synchronous awaited outcome world).awaited = awaited := by
  cases outcome with
  | ok data => rfl
  | error failure => cases failure <;> rfl

theorem carryOut_of_finished (application : Application σ) (synchronous : Bool) {program : Program}
    {world after : World σ} {outcome : Outcome}
    (started : start application program world = (finished outcome, after)) :
    carryOut application synchronous program world = respond synchronous false outcome after := by
  have begun : begin application program world = (finished outcome, after) := by
    simp only [begin, started, launch]
  rw [carryOut, begun]

theorem carryOut_of_unfinished (application : Application σ) (synchronous : Bool)
    {program : Program} {world : World σ}
    (waits : ∀ outcome, (begin application program world).1 ≠ finished outcome) :
    carryOut application synchronous program world
      = respond synchronous true (complete application program world).1
        (complete application program world).2 := by
  have deferred : defers application program world = true := by
    unfold defers
    split
    · next outcome begun => exact absurd begun (waits outcome)
    · rfl
  rw [carryOut_eq, deferred]

theorem restricts_of_beside (application : Application σ) {strict full : Program} {world : World σ}
    (beside : Beside (start application strict world) (start application full world)) :
    Restricts (fun tickets => (start application full world).1.first? = some tickets)
      (carryOut application true strict world) (carryOut application false full world) := by
  generalize started : start application full world = right at *
  generalize stopping : start application strict world = left at *
  cases beside with
  | same outcome after =>
      rw [carryOut_of_finished application true stopping,
        carryOut_of_finished application false started]
      refine ⟨awaited_respond _ _ outcome after, fun _ ⟨response, answered⟩ => ?_, fun waits => ?_⟩
      · cases outcome with
        | ok data => rfl
        | error failure =>
            rw [outcome_respond] at answered
            cases answered
      · rw [awaited_respond] at waits
        cases waits
  | @both failure strict full stops =>
      rw [carryOut_of_finished application true stopping,
        carryOut_of_finished application false started]
      refine ⟨rfl, fun _ ⟨response, answered⟩ => ?_, fun waits => ?_⟩
      · rw [outcome_respond] at answered
        cases answered
      · rw [awaited_respond] at waits
        cases waits
  | @stopped process tickets found strict whole stopped waits =>
      have begun : begin application full world = launch application process whole := by
        rw [begin, started]
      rw [carryOut_of_finished application true stopping, carryOut_of_unfinished application false
        (by rw [begun]; exact first?_launch application waits), complete, begun]
      -- the other run goes on from the very moment at which this one stopped
      obtain ⟨since, launched⟩ := past_launch application process whole
      obtain ⟨more, ran⟩ := past_run application (launch application process whole).1
        (launch application process whole).2
      have later := stopped.trans ⟨more ++ since, by rw [ran, launched, List.append_assoc]⟩
      obtain ⟨rest, past⟩ := later.later
      refine ⟨rfl, fun direct => ?_, fun _ => ⟨rfl, tickets, found, waits, ?_, ?_, ?_⟩⟩
      · rw [awaited_respond] at direct
        cases direct
      · rw [respond_world, respond_world]
        exact later
      · rw [respond_world, later.closed]
        exact World.calls_closeAll tickets found
      · rw [respond_world, respond_world, later.closed]
        simp only [World.perform, World.calls_closeAll]
        refine ⟨rest.reverse.filterMap (·.2.call?), ?_⟩
        rw [World.calls, World.calls, World.history, World.history, past, List.reverse_append,
          List.filterMap_append]

theorem restricts_refused {waited : List Nat → Prop} {world : World σ}
    {outcome : Except Refusal Response} {strict full : Report σ}
    (left : strict = report world false outcome) (right : full = report world false outcome) :
    Restricts waited strict full := by
  subst left right
  exact ⟨rfl, fun _ _ => rfl, fun waits => by cases waits⟩

/-- Executing an operation that must not wait is executing it as far as nothing has to be waited for.
It answers at once. If the operation is answered at once where it may wait, too, the answer and all
that happens are the same. If something is waited for there, there is no answer here, and the calls are
those that are made until the first thing is found that has to be waited for. -/
theorem synchronous_restricts_execution (application : Application σ) (request : Request)
    (schema : Schema) (document : Document) (vars : Variables) (world : World σ)
    (strict full : Report σ) (known : TypeId → Prop) (unbroken : Unbroken schema known)
    (knownRoot : ∀ operation root, rootType schema operation = .ok root → known root)
    (stopping : strict = request.executeWith application schema document vars true world)
    (executed : full = request.executeWith application schema document vars false world)
    (handled : full.world.account.Handled schema)
    (atOnce : full.world.account.WritesAtOnce schema) :
    Restricts (fun tickets => ∃ operation root, document.choose request.operationName = .ok operation
        ∧ rootType schema operation = .ok root
        ∧ (start application (Execution.operation
          ⟨request.environment schema document operation vars, false⟩ root) world).1.first?
            = some tickets)
      strict full := by
  cases checked : schema.check with
  | error fault =>
      rw [executeWith, checked] at stopping executed
      exact restricts_refused stopping executed
  | ok =>
      cases chosen : document.choose request.operationName with
      | error fault =>
          rw [executeWith, checked, chosen] at stopping executed
          exact restricts_refused stopping executed
      | ok operation =>
          cases rooted : rootType schema operation with
          | error error =>
              simp only [executeWith, checked, chosen, rooted] at stopping executed
              exact restricts_refused stopping executed
          | ok root =>
              rw [executeWith_eq application request vars _ world checked chosen rooted]
                at stopping executed
              have leads : (start application (Execution.operationIn
                  ⟨request.environment schema document operation vars, false⟩
                  operation.kind.rootOrder root) world).2.Leads full.world := by
                rw [executed, carryOut_eq, respond_world]
                exact (leads_launch application _ _).trans (leads_run application _ _)
              have stops := Execution.stops_operationIn
                (request.environment schema document operation vars) handled atOnce unbroken
                operation.kind.rootOrder (knownRoot operation root rooted)
              have restricts := restricts_of_beside application
                (beside_start application full.world world leads stops)
              rw [← stopping, ← executed] at restricts
              refine ⟨restricts.answered, restricts.same, fun waits => ?_⟩
              obtain ⟨incomplete, tickets, found, first, stopped⟩ := restricts.stopped waits
              exact ⟨incomplete, tickets, found, ⟨operation, root, rfl, rooted, first⟩, stopped⟩

end Request

/-- Resolvers of which the second one finds something that takes a while. -/
def Application.delaying : Application Nat where
  answer _ calls := (if calls = 1 then .ok (.deferred 0) else .ok (.map []), calls + 1)
  drain _ calls := (([], none), calls)
  delay _ _ := 5
  finish _ calls := (.ok (.map []), calls)

namespace Request

/-- The nested query, where it takes a while to find the inner object. -/
def delayed (synchronous : Bool) : Report Nat :=
  ({} : Request).executeWith Application.delaying Schema.guarded ⟨[], [.operation .nested]⟩ []
    synchronous { state := 0 }

theorem delayed_eq (synchronous : Bool) : delayed synchronous
    = carryOut Application.delaying synchronous
      (Execution.operationIn
        ⟨({} : Request).environment Schema.guarded ⟨[], [.operation .nested]⟩ .nested [], synchronous⟩
        .sideBySide (.declared 0)) { state := 0 } :=
  executeWith_eq _ _ _ _ _ Schema.check_guarded rfl rfl

set_option maxRecDepth 10000 in
theorem isCalm_delayed (event : Event) (saw : (delayed false).world.Saw event) :
    event.isCalm = true := by
  obtain ⟨time, member⟩ := saw
  have all : (delayed false).world.past.all (fun entry => entry.2.isCalm) = true := by
    rw [delayed_eq]
    exact carryOut_of_within 5 (fun report => report.world.past.all fun entry => entry.2.isCalm)
      (by cbv)
  exact List.all_eq_true.1 all _ member

set_option maxRecDepth 10000 in
theorem synchronous_stops_at_inner_object :
    Unbroken Schema.guarded Schema.guarded.Knows
      ∧ (delayed false).world.account.Handled Schema.guarded
      ∧ (delayed false).world.account.WritesAtOnce Schema.guarded
      ∧ (delayed true).awaited = false ∧ (delayed true).outcome = .error .incomplete
      ∧ (delayed true).world.calls <+: (delayed false).world.calls := by
  have unlisted : ∀ leaf values, (Schema.guarded.definition leaf).body ≠ .enum (.ok values) := by
    intro leaf values body
    rcases leaf with _ | _ | _ <;> cases body
  have handled := World.handled_of_isCalm _ isCalm_delayed unlisted
  have atOnce : (delayed false).world.account.WritesAtOnce Schema.guarded := by
    intro leaf value ticket yields
    cases World.forms_of_isCalm _ isCalm_delayed unlisted _ _ _ yields
  have unbroken := (Schema.sound_of_check Schema.check_guarded rfl).unbroken
  have restricts := synchronous_restricts_execution Application.delaying {} Schema.guarded
    ⟨[], [.operation .nested]⟩ [] { state := 0 } (delayed true) (delayed false) Schema.guarded.Knows
    unbroken (fun operation root rooted => Schema.knows_root Schema.check_guarded rfl rooted) rfl rfl
    handled atOnce
  have waited : (delayed false).awaited = true := by
    rw [delayed_eq]
    exact carryOut_of_within 5 (fun report => report.awaited) (by cbv)
  obtain ⟨incomplete, _, _, _, _, _, first⟩ := restricts.stopped waited
  exact ⟨unbroken, handled, atOnce, restricts.answered, incomplete, first⟩

end Request

/-- A schema with a scalar that a function writes. -/
def Schema.stamped : Schema := .ofLayout
  { types := #[⟨.str "Query", .object
      (.ok (.ofList [(.str "a", .plain "a" (.named (.declared 1)))])) (.ok []) .absent⟩,
      ⟨.str "Stamp", .scalar (.custom (.function 0) (.function 1) (.function 2))⟩]
    query := some (.named (.declared 0))
    mutation := none
    subscription := none
    extra := []
    directives := Directive.specified
    overrides := []
    assumeValid := false }

set_option maxRecDepth 10000 in
theorem Schema.check_stamped : stamped.check = .ok () := by
  have reached : stamped.reached = .ok [(.str "Query", .declared 0),
      (.str "Stamp", .declared 1), (.str "Boolean", .standard .boolean),
      (.str "String", .standard .string)] := by
    cbv
  unfold check
  rw [reached]
  decide +kernel

/-- A query for that scalar. -/
def Operation.stamped : Operation where
  start := 0
  kind := .query
  name := none
  variableNodes := []
  directives := []
  selections := [.field 2 none "a" [] [] []]

/-- Resolvers that find a number, and functions that take a while to write it. -/
def Application.stamping : Application Nat where
  answer asked calls :=
    (match asked with
      | .serialize .. => .ok (.deferred 0)
      | _ => .ok (.int 7), calls)
  drain _ calls := (([], none), calls)
  delay _ _ := 1
  finish _ calls := (.ok (.int 7), calls)

namespace Request

/-- The query, where nothing may be waited for. -/
def stamped : Report Nat :=
  ({} : Request).executeWith Application.stamping Schema.stamped ⟨[], [.operation .stamped]⟩ [] true
    { state := 0 }

theorem stamped_eq : stamped = carryOut Application.stamping true
    (Execution.operationIn
      ⟨({} : Request).environment Schema.stamped ⟨[], [.operation .stamped]⟩ .stamped [], true⟩
      .sideBySide (.declared 0)) { state := 0 } :=
  executeWith_eq _ _ _ _ _ Schema.check_stamped rfl rfl

set_option maxRecDepth 10000 in
/-- Something that takes a while to be written is waited for even where nothing may be. -/
theorem slow_leaf_is_awaited :
    Schema.stamped.check = .ok () ∧ Schema.stamped.assumeValid = false ∧ stamped.awaited = true := by
  refine ⟨Schema.check_stamped, rfl, ?_⟩
  rw [stamped_eq]
  exact carryOut_of_within 5 (fun report => report.awaited) (by cbv)

end Request

end GraphQL
