import GraphQL.Execution.Process

/-!
What a process can do. `Process.start` and `Process.resume` are restated as relations, with one rule
for each way in which they go on. What all runs keep is then proved rule by rule, by recursion over a
derivation, and the functions need not be unfolded again.
-/

namespace GraphQL

namespace Process

variable {σ : Type} {application : Application σ}

mutual

/-- A program that is carried out in a world comes to be a process, and leaves another world. -/
inductive CarriedTo (application : Application σ) :
    Program → World σ → Process → World σ → Prop where
  | done (outcome : Outcome) (world : World σ) :
    CarriedTo application (.done outcome) world (finished outcome) world
  | call (asked : Call) {next world process after} :
    CarriedTo application (next (world.ask application asked).1) (world.ask application asked).2
      process after →
    CarriedTo application (.call asked next) world process after
  | perform (effect : Effect) {next world process after} :
    CarriedTo application next (world.perform effect) process after →
    CarriedTo application (.perform effect next) world process after
  | consult (key : SubfieldKey) {next world process after} :
    CarriedTo application (next (world.consult key)) world process after →
    CarriedTo application (.consult key next) world process after
  | drain (handle : Nat) {next world process after} :
    CarriedTo application (next (world.drain application handle).1.1
      (world.drain application handle).1.2) (world.drain application handle).2 process after →
    CarriedTo application (.drain handle next) world process after
  | unawaited {next world process after} :
    CarriedTo application (next (.ok [])) world process after →
    CarriedTo application (.wait [] next) world process after
  | wait (ticket : Nat) (tickets : List Nat) (next : Except Failure (List Value) → Program)
    (world : World σ) :
    CarriedTo application (.wait (ticket :: tickets) next) world
      (waiting ((ticket :: tickets).map .ticket) next) world
  -- The failure is handed on from the world in which it came up: what stands behind it is not begun.
  | broken (middle : World σ) {children next world failure process after} :
    BrokenBy application children world failure middle →
    CarriedTo application (next (.error failure)) middle process after →
    CarriedTo application (.join children next) world process after
  | settled (outcomes : List Outcome) {children next world middle process after} :
    CarriedToEach application children world (outcomes.map finished) middle →
    CarriedTo application (next (.ok outcomes)) middle process after →
    CarriedTo application (.join children next) world process after
  | join {children next world processes after} :
    CarriedToEach application children world processes after → outcomes? processes = none →
    CarriedTo application (.join children next) world (joining processes next) after

/-- Programs that are carried out one after the other, none of which fails urgently. -/
inductive CarriedToEach (application : Application σ) :
    List Program → World σ → List Process → World σ → Prop where
  | nil (world : World σ) : CarriedToEach application [] world [] world
  | cons {program rest world process middle processes after} :
    CarriedTo application program world process middle → process.urgent? = none →
    CarriedToEach application rest middle processes after →
    CarriedToEach application (program :: rest) world (process :: processes) after

/-- The first of several programs that fails urgently. -/
inductive BrokenBy (application : Application σ) :
    List Program → World σ → Failure → World σ → Prop where
  | here {program rest world failure after} :
    CarriedTo application program world (finished (.error failure)) after →
    failure.isUrgent = true →
    BrokenBy application (program :: rest) world failure after
  | later {program rest world process middle failure after} :
    CarriedTo application program world process middle → process.urgent? = none →
    BrokenBy application rest middle failure after →
    BrokenBy application (program :: rest) world failure after

end

theorem outcomes?_map_finished (outcomes : List Outcome) :
    outcomes? (outcomes.map finished) = some outcomes := by
  induction outcomes with
  | nil => rfl
  | cons outcome rest ih => rw [List.map_cons, outcomes?, ih, Option.map_some]

theorem outcomes?_eq_some {processes : List Process} {outcomes : List Outcome}
    (all : outcomes? processes = some outcomes) : processes = outcomes.map finished := by
  induction processes generalizing outcomes with
  | nil =>
      cases all
      rfl
  | cons process rest ih =>
      cases process with
      | finished outcome =>
          rw [outcomes?, Option.map_eq_some_iff] at all
          obtain ⟨others, found, rfl⟩ := all
          rw [List.map_cons, ← ih found]
      | waiting slots next => cases all
      | joining children next => cases all

theorem urgent?_eq_some (process : Process) (failure : Failure)
    (found : process.urgent? = some failure) :
    process = finished (.error failure) ∧ failure.isUrgent = true := by
  unfold urgent? at found
  split at found
  · split at found
    · next urgent =>
        cases found
        exact ⟨rfl, urgent⟩
    · cases found
  · cases found

mutual

theorem carriedTo_start (application : Application σ) (program : Program) (world : World σ) :
    CarriedTo application program world (start application program world).1
      (start application program world).2 := by
  match program with
  | .done outcome =>
      simp only [start]
      exact .done outcome world
  | .call asked next =>
      simp only [start]
      exact .call asked (carriedTo_start application (next _) _)
  | .perform effect next =>
      simp only [start]
      exact .perform effect (carriedTo_start application next _)
  | .consult key next =>
      simp only [start]
      exact .consult key (carriedTo_start application (next _) world)
  | .drain handle next =>
      simp only [start]
      exact .drain handle (carriedTo_start application (next _ _) _)
  | .wait [] next =>
      simp only [start]
      exact .unawaited (carriedTo_start application (next _) world)
  | .wait (ticket :: tickets) next =>
      simp only [start]
      exact .wait ticket tickets next world
  | .join children next =>
      obtain ⟨broken, each⟩ := carriedTo_startAll application children world
      simp only [start]
      split
      · next failure after started =>
          exact .broken after (broken failure after started)
            (carriedTo_start application (next _) after)
      · next processes after started =>
          split
          · next outcomes all =>
              have settled := each processes after started
              rw [outcomes?_eq_some all] at settled
              exact .settled outcomes settled (carriedTo_start application (next _) after)
          · next pending => exact .join (each processes after started) pending

theorem carriedTo_startAll (application : Application σ) (programs : List Program)
    (world : World σ) :
    (∀ failure after, startAll application programs world = (.error failure, after) →
        BrokenBy application programs world failure after)
      ∧ ∀ processes after, startAll application programs world = (.ok processes, after) →
        CarriedToEach application programs world processes after := by
  match programs with
  | [] =>
      simp only [startAll]
      refine ⟨fun failure after same => (by cases same), fun processes after same => ?_⟩
      cases same
      exact .nil world
  | program :: rest =>
      have head := carriedTo_start application program world
      obtain ⟨broken, each⟩ := carriedTo_startAll application rest (start application program world).2
      simp only [startAll]
      cases urgent : (start application program world).1.urgent? with
      | some failure =>
          obtain ⟨ended, isUrgent⟩ := urgent?_eq_some _ _ urgent
          refine ⟨fun other after same => ?_, fun processes after same => (by cases same)⟩
          cases same
          exact .here (ended ▸ head) isUrgent
      | none =>
          generalize startAll application rest (start application program world).2 = started
            at broken each
          obtain ⟨result, after⟩ := started
          cases result with
          | error failure =>
              refine ⟨fun other later same => ?_, fun processes later same => (by cases same)⟩
              cases same
              exact .later head urgent (broken failure after rfl)
          | ok processes =>
              refine ⟨fun failure later same => (by cases same), fun all later same => ?_⟩
              cases same
              exact .cons head urgent (each processes after rfl)

end

mutual

theorem CarriedTo.eq {program : Program} {world after : World σ} {process : Process}
    (carried : CarriedTo application program world process after) :
    start application program world = (process, after) := by
  match carried with
  | .done outcome world => rw [start]
  | .call asked rest =>
      rw [start]
      exact rest.eq
  | .perform effect rest =>
      rw [start]
      exact rest.eq
  | .consult key rest =>
      rw [start]
      exact rest.eq
  | .drain handle rest =>
      rw [start]
      exact rest.eq
  | .unawaited rest =>
      rw [start]
      exact rest.eq
  | .wait ticket tickets next world => simp only [start]
  | .broken middle broken rest =>
      rw [start, broken.eq]
      exact rest.eq
  | .settled outcomes each rest =>
      rw [start, each.eq]
      simp only [outcomes?_map_finished]
      exact rest.eq
  | .join each pending =>
      rw [start, each.eq]
      simp only [pending]

theorem CarriedToEach.eq {programs : List Program} {world after : World σ}
    {processes : List Process} (each : CarriedToEach application programs world processes after) :
    startAll application programs world = (.ok processes, after) := by
  match each with
  | .nil world => rw [startAll]
  | .cons head calm rest =>
      rw [startAll, head.eq]
      simp only [calm, rest.eq]
      rfl

theorem BrokenBy.eq {programs : List Program} {world after : World σ} {failure : Failure}
    (broken : BrokenBy application programs world failure after) :
    startAll application programs world = (.error failure, after) := by
  match broken with
  | .here head urgent =>
      rw [startAll, head.eq]
      simp only [urgent?, urgent, if_true]
  | .later head calm rest =>
      rw [startAll, head.eq]
      simp only [calm, rest.eq]
      rfl

end

/-- The rules say all that starting a program can do, and nothing else. -/
theorem carriedTo_iff {program : Program} {world after : World σ} {process : Process} :
    CarriedTo application program world process after
      ↔ start application program world = (process, after) := by
  refine ⟨CarriedTo.eq, fun same => ?_⟩
  have carried := carriedTo_start application program world
  rwa [same] at carried

/-- What the slots of a process come to when one of them gets a reply. -/
inductive Answered (waiter : Nat) (slots : List Pending) :
    Reply → Except Failure (List Value) → Prop where
  | refused (failure : Failure) : Answered waiter slots (.error failure) (.error failure)
  | arrived {value : Value} {values : List Value} :
    arrivals? (fill waiter value slots) = some values →
    Answered waiter slots (.ok value) (.ok values)

mutual

/-- A process that a reply is handed to comes to be another process, and leaves another world. -/
inductive ResumedTo (application : Application σ) (waiter : Nat) (reply : Reply) :
    Process → World σ → Process → World σ → Prop where
  | woken {slots next world result} : slots.any (isWaiter waiter) = true →
    Answered waiter slots reply result →
    ResumedTo application waiter reply (waiting slots next) world
      (begin application (next result) world).1 (begin application (next result) world).2
  | filled {slots next world value} : slots.any (isWaiter waiter) = true → reply = .ok value →
    arrivals? (fill waiter value slots) = none →
    ResumedTo application waiter reply (waiting slots next) world
      (waiting (fill waiter value slots) next) world
  | settled (outcomes : List Outcome) {children next world middle} :
    OneResumedTo application waiter reply children world (outcomes.map finished) middle →
    ResumedTo application waiter reply (joining children next) world
      (begin application (next (.ok outcomes)) middle).1
      (begin application (next (.ok outcomes)) middle).2
  | join {children next world processes after} :
    OneResumedTo application waiter reply children world processes after →
    outcomes? processes = none →
    ResumedTo application waiter reply (joining children next) world (joining processes next) after

/-- One of several processes takes the reply. -/
inductive OneResumedTo (application : Application σ) (waiter : Nat) (reply : Reply) :
    List Process → World σ → List Process → World σ → Prop where
  | here (rest : List Process) {process world process' after} :
    ResumedTo application waiter reply process world process' after →
    OneResumedTo application waiter reply (process :: rest) world (process' :: rest) after
  | later (process : Process) {rest world rest' after} :
    resume application waiter reply process world = none →
    OneResumedTo application waiter reply rest world rest' after →
    OneResumedTo application waiter reply (process :: rest) world (process :: rest') after

end

mutual

theorem resumedTo_of_resume (application : Application σ) (waiter : Nat) (reply : Reply)
    (process : Process) (world : World σ) (after : Process × World σ)
    (resumed : resume application waiter reply process world = some after) :
    ResumedTo application waiter reply process world after.1 after.2 := by
  match process with
  | finished _ =>
      simp only [resume] at resumed
      cases resumed
  | waiting slots next =>
      simp only [resume] at resumed
      split at resumed
      · next found =>
          cases reply with
          | error failure =>
              cases resumed
              exact .woken found (.refused failure)
          | ok value =>
              simp only at resumed
              split at resumed
              · next values all =>
                  cases resumed
                  exact .woken found (.arrived all)
              · next pending =>
                  cases resumed
                  exact .filled found rfl pending
      · cases resumed
  | joining children next =>
      simp only [resume] at resumed
      split at resumed
      · cases resumed
      · next processes later found =>
          have one := oneResumedTo_of_resumeAny application waiter reply children world _ found
          split at resumed
          · next outcomes all =>
              cases resumed
              rw [outcomes?_eq_some all] at one
              exact .settled outcomes one
          · next pending =>
              cases resumed
              exact .join one pending

theorem oneResumedTo_of_resumeAny (application : Application σ) (waiter : Nat) (reply : Reply)
    (processes : List Process) (world : World σ) (after : List Process × World σ)
    (resumed : resumeAny application waiter reply processes world = some after) :
    OneResumedTo application waiter reply processes world after.1 after.2 := by
  match processes with
  | [] =>
      simp only [resumeAny] at resumed
      cases resumed
  | process :: rest =>
      simp only [resumeAny] at resumed
      split at resumed
      · next new changed found =>
          cases resumed
          exact .here rest (resumedTo_of_resume application waiter reply process world _ found)
      · next declined =>
          split at resumed
          · next others changed found =>
              cases resumed
              exact .later process declined
                (oneResumedTo_of_resumeAny application waiter reply rest world _ found)
          · cases resumed

end

mutual

theorem ResumedTo.eq {waiter : Nat} {reply : Reply} {process process' : Process}
    {world after : World σ}
    (resumed : ResumedTo application waiter reply process world process' after) :
    resume application waiter reply process world = some (process', after) := by
  match resumed with
  | .woken found answered =>
      cases answered with
      | refused failure => simp only [resume, found, if_true]
      | arrived all => simp only [resume, found, if_true, all]
  | .filled found same pending =>
      subst same
      simp only [resume, found, if_true, pending]
  | .settled outcomes one => simp only [resume, one.eq, outcomes?_map_finished]
  | .join one pending => simp only [resume, one.eq, pending]

theorem OneResumedTo.eq {waiter : Nat} {reply : Reply} {processes processes' : List Process}
    {world after : World σ}
    (resumed : OneResumedTo application waiter reply processes world processes' after) :
    resumeAny application waiter reply processes world = some (processes', after) := by
  match resumed with
  | .here rest one => simp only [resumeAny, one.eq]
  | .later process declined one => simp only [resumeAny, declined, one.eq]

end

/-- The rules say all that a reply can do to a process, and nothing else. -/
theorem resumedTo_iff {waiter : Nat} {reply : Reply} {process process' : Process}
    {world after : World σ} :
    ResumedTo application waiter reply process world process' after
      ↔ resume application waiter reply process world = some (process', after) :=
  ⟨ResumedTo.eq, resumedTo_of_resume application waiter reply process world (process', after)⟩

end Process

end GraphQL
