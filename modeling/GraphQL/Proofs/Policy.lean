import GraphQL.Proofs.Progress
import GraphQL.Request

/-!
What every run of a program keeps to. A policy says which calls and effects are allowed; a program
that obeys it on every path, whatever is answered, is run without a step that it does not allow.
-/

namespace GraphQL

structure Policy where
  calls : Call → Prop
  effects : Effect → Prop

namespace Program

mutual

/-- A program that takes only allowed steps. What it finds remembered was allowed to be so. -/
@[simp] def Obeys (policy : Policy) (account : Account) : Program → Prop
  | .done _ => True
  | .call asked next =>
    policy.calls asked ∧ ∀ reply, account.called asked reply → (next reply).Obeys policy account
  | .perform effect next => policy.effects effect ∧ next.Obeys policy account
  | .consult key next =>
    ∀ found, (∀ fields, found = some fields →
        ∃ known, policy.effects (.remember known fields) ∧ known.equals key = true) →
      (next found).Obeys policy account
  | .drain _ next => ∀ items fault, (next items fault).Obeys policy account
  | .wait _ next => ∀ result, (next result).Obeys policy account
  | .join children next =>
    ObeyEach policy account children ∧ ∀ settled, (next settled).Obeys policy account

@[simp] def ObeyEach (policy : Policy) (account : Account) : List Program → Prop
  | [] => True
  | program :: rest => program.Obeys policy account ∧ ObeyEach policy account rest

end

variable {policy : Policy} {account : Account}

theorem obeyEach_iff (programs : List Program) :
    ObeyEach policy account programs ↔ ∀ program ∈ programs, program.Obeys policy account := by
  induction programs with
  | nil => simp only [ObeyEach, List.not_mem_nil, false_imp_iff, implies_true]
  | cons program rest ih => simp only [ObeyEach, ih, List.forall_mem_cons]

theorem obeys_fail (failure : Failure) : (fail failure).Obeys policy account := by
  simp only [fail, Obeys]

theorem obeys_succeed (value : Value) : (succeed value).Obeys policy account := by
  simp only [succeed, Obeys]

theorem obeys_andThen (program : Program) (next : Outcome → Program)
    (first : program.Obeys policy account)
    (second : ∀ outcome, (next outcome).Obeys policy account) :
    (program.andThen next).Obeys policy account := by
  match program with
  | done outcome => exact second outcome
  | call asked reply =>
      simp only [andThen, Obeys] at first ⊢
      exact ⟨first.1, fun answer called =>
        obeys_andThen (reply answer) next (first.2 answer called) second⟩
  | perform effect rest =>
      simp only [andThen, Obeys] at first ⊢
      exact ⟨first.1, obeys_andThen rest next first.2 second⟩
  | consult key rest =>
      simp only [andThen, Obeys] at first ⊢
      exact fun found known => obeys_andThen (rest found) next (first found known) second
  | drain handle rest =>
      simp only [andThen, Obeys] at first ⊢
      exact fun items fault => obeys_andThen (rest items fault) next (first items fault) second
  | wait tickets rest =>
      simp only [andThen, Obeys] at first ⊢
      exact fun result => obeys_andThen (rest result) next (first result) second
  | join children rest =>
      simp only [andThen, Obeys] at first ⊢
      exact ⟨first.1, fun settled => obeys_andThen (rest settled) next (first.2 settled) second⟩

theorem obeys_onSuccess (next : Value → Program) (outcome : Outcome)
    (each : ∀ value, (next value).Obeys policy account) :
    (onSuccess next outcome).Obeys policy account := by
  cases outcome with
  | ok value => exact each value
  | error failure => exact obeys_fail failure

theorem obeys_await (ticket : Nat) (next : Outcome → Program)
    (each : ∀ outcome, (next outcome).Obeys policy account) :
    (await ticket next).Obeys policy account := by
  simp only [await, Obeys]
  intro result
  cases result with
  | ok values => exact each _
  | error failure => exact each _

end Program

/-- The events that a policy is about. -/
def Event.isStep : Event → Bool
  | .called .. | .resolving _ => true
  | _ => false

namespace World

variable {σ : Type}

/-- Whether everything that happened in a world was allowed. -/
structure Keeps (policy : Policy) (world : World σ) : Prop where
  called : ∀ asked reply, world.Saw (.called asked reply) → policy.calls asked
  resolving : ∀ path, world.Saw (.resolving path) → policy.effects (.resolving path)
  remembered : ∀ entry ∈ world.cache, policy.effects (.remember entry.1 entry.2)

variable {policy : Policy} {world : World σ}

theorem keeps_new (policy : Policy) (state : σ) : ({ state } : World σ).Keeps policy where
  called _ _ saw := by
    rcases saw with ⟨_, member⟩
    cases member
  resolving _ saw := by
    rcases saw with ⟨_, member⟩
    cases member
  remembered _ member := by cases member

theorem keeps_of_past (keeps : world.Keeps policy) {after : World σ}
    (cache : after.cache = world.cache)
    (past : ∀ event, after.Saw event → world.Saw event ∨ event.isStep = false) :
    after.Keeps policy := by
  refine ⟨?_, ?_, ?_⟩
  · intro asked reply saw
    rcases past _ saw with before | other
    · exact keeps.called asked reply before
    · cases other
  · intro path saw
    rcases past _ saw with before | other
    · exact keeps.resolving path before
    · cases other
  · rw [cache]
    exact keeps.remembered

theorem saw_cons {after : World σ} {time : Nat} {event other : Event}
    (past : after.past = (time, event) :: world.past) (saw : after.Saw other) :
    world.Saw other ∨ other = event := by
  rcases saw with ⟨moment, member⟩
  rw [past, List.mem_cons] at member
  rcases member with same | before
  · cases same
    exact .inr rfl
  · exact .inl ⟨moment, before⟩

theorem keeps_of_cons (keeps : world.Keeps policy) {after : World σ} {time : Nat} {event : Event}
    (cache : after.cache = world.cache) (past : after.past = (time, event) :: world.past)
    (other : event.isStep = false) :
    after.Keeps policy := by
  refine keeps_of_past keeps cache fun seen saw => ?_
  rcases saw_cons past saw with before | rfl
  · exact .inl before
  · exact .inr other

theorem keeps_of_same (keeps : world.Keeps policy) {after : World σ}
    (cache : after.cache = world.cache) (past : after.past = world.past) : after.Keeps policy := by
  refine keeps_of_past keeps cache fun event saw => .inl ?_
  rcases saw with ⟨time, member⟩
  exact ⟨time, past ▸ member⟩

theorem keeps_ask (application : Application σ) (asked : Call) (keeps : world.Keeps policy)
    (allowed : policy.calls asked) : (world.ask application asked).2.Keeps policy := by
  have past : (world.ask application asked).2.past
      = (world.clock, .called asked (world.ask application asked).1) :: world.past := rfl
  refine ⟨?_, ?_, keeps.remembered⟩
  · intro other reply saw
    rcases saw_cons past saw with before | same
    · exact keeps.called other reply before
    · cases same
      exact allowed
  · intro path saw
    rcases saw_cons past saw with before | same
    · exact keeps.resolving path before
    · cases same

theorem keeps_drain (application : Application σ) (handle : Nat) (keeps : world.Keeps policy) :
    (world.drain application handle).2.Keeps policy :=
  keeps_of_cons keeps rfl rfl rfl

theorem keeps_close (ticket : Nat) (keeps : world.Keeps policy) :
    (world.close ticket).Keeps policy := by
  unfold close
  split
  · exact keeps_of_cons keeps rfl rfl rfl
  · exact keeps

theorem keeps_closeAll (tickets : List Nat) (world : World σ) (keeps : world.Keeps policy) :
    (tickets.foldl close world).Keeps policy := by
  induction tickets generalizing world with
  | nil => exact keeps
  | cons ticket rest ih => exact ih _ (keeps_close ticket keeps)

theorem keeps_perform (effect : Effect) (keeps : world.Keeps policy)
    (allowed : policy.effects effect) : (world.perform effect).Keeps policy := by
  cases effect with
  | resolving path =>
      have past : (world.perform (.resolving path)).past
          = (world.clock, .resolving path) :: world.past := rfl
      refine ⟨?_, ?_, keeps.remembered⟩
      · intro asked reply saw
        rcases saw_cons past saw with before | same
        · exact keeps.called asked reply before
        · cases same
      · intro other saw
        rcases saw_cons past saw with before | same
        · exact keeps.resolving other before
        · cases same
          exact allowed
  | resolved path value => exact keeps_of_cons keeps rfl rfl rfl
  | listed path items => exact keeps_of_cons keeps rfl rfl rfl
  | record error =>
      simp only [perform, record]
      split
      · exact keeps
      · exact keeps_of_cons keeps rfl rfl rfl
  | close tickets => exact keeps_closeAll tickets world keeps
  | remember key fields =>
      refine ⟨keeps.called, keeps.resolving, ?_⟩
      intro entry member
      rcases List.mem_cons.1 member with rfl | before
      · exact allowed
      · exact keeps.remembered entry before

theorem keeps_launch (application : Application σ) (ticket : Nat) (keeps : world.Keeps policy) :
    (world.launch application ticket).2.Keeps policy := by
  unfold launch
  cases world.status? ticket with
  | none => exact keeps_of_cons keeps rfl rfl rfl
  | some status => cases status <;> exact keeps_of_cons keeps rfl rfl rfl

theorem keeps_fire (application : Application σ) (timer : Timer) (keeps : world.Keeps policy) :
    (world.fire application timer).2.Keeps policy := by
  unfold fire
  let earlier : World σ := { world with
    clock := max world.clock timer.due
    timers := world.timers.filter (·.waiter != timer.waiter) }
  have before : earlier.Keeps policy := keeps_of_same keeps rfl rfl
  cases timer.wake with
  | finish ticket =>
      let settled : World σ :=
        ({ earlier with state := (application.finish ticket world.state).2 }.setStatus ticket
          .settled).note (.settled ticket (application.finish ticket world.state).1)
      have middle : settled.Keeps policy := keeps_of_cons before rfl rfl rfl
      exact keeps_of_cons middle rfl rfl rfl
  | refuse fault =>
      exact keeps_of_cons before rfl rfl rfl

end World

namespace Process

variable {σ : Type} {policy : Policy} {account : Account}

mutual

/-- A process whose remaining steps are all allowed. -/
@[simp] def Obeys (policy : Policy) (account : Account) : Process → Prop
  | finished _ => True
  | waiting _ next => ∀ result, (next result).Obeys policy account
  | joining children next =>
    ObeyEach policy account children ∧ ∀ settled, (next settled).Obeys policy account

@[simp] def ObeyEach (policy : Policy) (account : Account) : List Process → Prop
  | [] => True
  | process :: rest => process.Obeys policy account ∧ ObeyEach policy account rest

end

variable {application : Application σ} {final : World σ}

mutual

theorem CarriedTo.obeys {program : Program} {world after : World σ} {process : Process}
    (carried : CarriedTo application program world process after) (leads : after.Leads final)
    (obeys : program.Obeys policy final.account) (keeps : world.Keeps policy) :
    process.Obeys policy final.account ∧ after.Keeps policy := by
  match carried with
  | .done _ _ =>
      simp only [Obeys, true_and]
      exact keeps
  | .call asked rest =>
      simp only [Program.Obeys] at obeys
      have saw := (rest.leads.trans leads).saw (World.saw_ask application asked world)
      exact rest.obeys leads (obeys.2 _ saw) (World.keeps_ask application asked keeps obeys.1)
  | .perform effect rest =>
      simp only [Program.Obeys] at obeys
      exact rest.obeys leads obeys.2 (World.keeps_perform effect keeps obeys.1)
  | .consult key rest =>
      simp only [Program.Obeys] at obeys
      refine rest.obeys leads (obeys _ ?_) keeps
      intro fields consulted
      rw [World.consult, Option.map_eq_some_iff] at consulted
      rcases consulted with ⟨entry, found, rfl⟩
      exact ⟨entry.1, keeps.remembered entry (List.mem_of_find?_eq_some found),
        by simpa using List.find?_some found⟩
  | .drain handle rest =>
      simp only [Program.Obeys] at obeys
      exact rest.obeys leads (obeys _ _) (World.keeps_drain application handle keeps)
  | .unawaited rest =>
      simp only [Program.Obeys] at obeys
      exact rest.obeys leads (obeys _) keeps
  | .wait _ _ _ _ =>
      simp only [Program.Obeys, Obeys] at obeys ⊢
      exact ⟨obeys, keeps⟩
  | .broken _ broken rest =>
      simp only [Program.Obeys] at obeys
      exact rest.obeys leads (obeys.2 _) (broken.keeps (rest.leads.trans leads) obeys.1 keeps)
  | .settled _ each rest =>
      simp only [Program.Obeys] at obeys
      exact rest.obeys leads (obeys.2 _) (each.obeys (rest.leads.trans leads) obeys.1 keeps).2
  | .join each _ =>
      simp only [Program.Obeys, Obeys] at obeys ⊢
      obtain ⟨obeyEach, keeps'⟩ := each.obeys leads obeys.1 keeps
      exact ⟨⟨obeyEach, obeys.2⟩, keeps'⟩

theorem CarriedToEach.obeys {programs : List Program} {world after : World σ}
    {processes : List Process} (each : CarriedToEach application programs world processes after)
    (leads : after.Leads final) (obeys : Program.ObeyEach policy final.account programs)
    (keeps : world.Keeps policy) :
    ObeyEach policy final.account processes ∧ after.Keeps policy := by
  match each with
  | .nil _ =>
      simp only [ObeyEach, true_and]
      exact keeps
  | .cons head _ rest =>
      simp only [Program.ObeyEach, ObeyEach] at obeys ⊢
      obtain ⟨here, keeps'⟩ := head.obeys (rest.leads.trans leads) obeys.1 keeps
      obtain ⟨there, keeps''⟩ := rest.obeys leads obeys.2 keeps'
      exact ⟨⟨here, there⟩, keeps''⟩

theorem BrokenBy.keeps {programs : List Program} {world after : World σ} {failure : Failure}
    (broken : BrokenBy application programs world failure after) (leads : after.Leads final)
    (obeys : Program.ObeyEach policy final.account programs) (keeps : world.Keeps policy) :
    after.Keeps policy := by
  match broken with
  | .here head _ =>
      simp only [Program.ObeyEach] at obeys
      exact (head.obeys leads obeys.1 keeps).2
  | .later head _ rest =>
      simp only [Program.ObeyEach] at obeys
      exact rest.keeps leads obeys.2 (head.obeys (rest.leads.trans leads) obeys.1 keeps).2

end

theorem keeps_launchSlots (application : Application σ) (slots : List Pending) (world : World σ)
    (keeps : world.Keeps policy) : (launchSlots application slots world).2.Keeps policy := by
  induction slots generalizing world with
  | nil => exact keeps
  | cons slot rest ih =>
      cases slot with
      | ticket ticket =>
          simp only [launchSlots]
          exact ih _ (World.keeps_launch application ticket keeps)
      | waiter waiter =>
          simp only [launchSlots]
          exact ih world keeps
      | arrived value =>
          simp only [launchSlots]
          exact ih world keeps

mutual

theorem obeys_launch (application : Application σ) (process : Process) (world : World σ)
    (obeys : process.Obeys policy account) (keeps : world.Keeps policy) :
    (launch application process world).1.Obeys policy account
      ∧ (launch application process world).2.Keeps policy := by
  match process with
  | finished outcome => simpa only [launch, Obeys, true_and] using keeps
  | waiting slots next =>
      simp only [launch, Obeys] at obeys ⊢
      exact ⟨obeys, keeps_launchSlots application slots world keeps⟩
  | joining children next =>
      simp only [launch, Obeys] at obeys ⊢
      rcases obeys_launchAll application children world obeys.1 keeps with ⟨each, keeps'⟩
      exact ⟨⟨each, obeys.2⟩, keeps'⟩

theorem obeys_launchAll (application : Application σ) (processes : List Process) (world : World σ)
    (obeys : ObeyEach policy account processes) (keeps : world.Keeps policy) :
    ObeyEach policy account (launchAll application processes world).1
      ∧ (launchAll application processes world).2.Keeps policy := by
  match processes with
  | [] => simpa only [launchAll, ObeyEach, true_and] using keeps
  | process :: rest =>
      simp only [launchAll, ObeyEach] at obeys ⊢
      rcases obeys_launch application process world obeys.1 keeps with ⟨head, keeps'⟩
      rcases obeys_launchAll application rest _ obeys.2 keeps' with ⟨tail, keeps''⟩
      exact ⟨⟨head, tail⟩, keeps''⟩

end

theorem obeys_begin (application : Application σ) (final : World σ) (program : Program)
    (world : World σ) (leads : (begin application program world).2.Leads final)
    (obeys : program.Obeys policy final.account) (keeps : world.Keeps policy) :
    (begin application program world).1.Obeys policy final.account
      ∧ (begin application program world).2.Keeps policy := by
  obtain ⟨obeys', keeps'⟩ := (carriedTo_start application program world).obeys
    ((leads_launch application _ _).trans leads) obeys keeps
  exact obeys_launch application _ _ obeys' keeps'

mutual

theorem ResumedTo.obeys {waiter : Nat} {reply : Reply} {process process' : Process}
    {world after : World σ}
    (resumed : ResumedTo application waiter reply process world process' after)
    (leads : after.Leads final) (obeys : process.Obeys policy final.account)
    (keeps : world.Keeps policy) : process'.Obeys policy final.account ∧ after.Keeps policy := by
  match resumed with
  | .woken _ _ =>
      simp only [Obeys] at obeys
      exact obeys_begin application final _ world leads (obeys _) keeps
  | .filled _ _ _ =>
      simp only [Obeys] at obeys ⊢
      exact ⟨obeys, keeps⟩
  | .settled _ one =>
      simp only [Obeys] at obeys
      obtain ⟨_, keeps'⟩ := one.obeys ((leads_begin application _ _).trans leads) obeys.1 keeps
      exact obeys_begin application final _ _ leads (obeys.2 _) keeps'
  | .join one _ =>
      simp only [Obeys] at obeys ⊢
      obtain ⟨each, keeps'⟩ := one.obeys leads obeys.1 keeps
      exact ⟨⟨each, obeys.2⟩, keeps'⟩

theorem OneResumedTo.obeys {waiter : Nat} {reply : Reply} {processes processes' : List Process}
    {world after : World σ}
    (resumed : OneResumedTo application waiter reply processes world processes' after)
    (leads : after.Leads final) (obeys : ObeyEach policy final.account processes)
    (keeps : world.Keeps policy) :
    ObeyEach policy final.account processes' ∧ after.Keeps policy := by
  match resumed with
  | .here _ one =>
      simp only [ObeyEach] at obeys ⊢
      obtain ⟨head, keeps'⟩ := one.obeys leads obeys.1 keeps
      exact ⟨⟨head, obeys.2⟩, keeps'⟩
  | .later _ _ one =>
      simp only [ObeyEach] at obeys ⊢
      obtain ⟨tail, keeps'⟩ := one.obeys leads obeys.2 keeps
      exact ⟨⟨obeys.1, tail⟩, keeps'⟩

end

theorem keeps_run (application : Application σ) (final : World σ) (process : Process)
    (world : World σ) (leads : (run application process world).2.Leads final)
    (obeys : process.Obeys policy final.account) (keeps : world.Keeps policy) :
    (run application process world).2.Keeps policy := by
  fun_induction run application process world with
  | case1 world outcome => exact keeps
  | case2 world process _ nothing => exact keeps
  | case3 world process _ timer found ignored ih =>
      exact ih leads obeys (World.keeps_fire application timer keeps)
  | case4 world process _ timer found after later resumed ih =>
      obtain ⟨obeys', keeps'⟩ := (resumedTo_of_resume application _ _ process _ _ resumed).obeys
        ((leads_run application after later).trans leads) obeys
        (World.keeps_fire application timer keeps)
      exact ih leads obeys' keeps'

end Process

namespace Request

variable {σ : Type}

theorem respond_world (synchronous awaited : Bool) (outcome : Outcome) (world : World σ) :
    (respond synchronous awaited outcome world).world = world := by
  unfold respond
  split <;> rfl

/-- What is carried out is a run of the program: its outcome is one that the program comes to under
the account of the run, and the errors are those recorded. -/
theorem comes_of_carryOut (application : Application σ) (synchronous : Bool) (program : Program)
    (world : World σ) :
    ∃ awaited outcome encountered,
      carryOut application synchronous program world
          = respond synchronous awaited outcome (carryOut application synchronous program world).world
        ∧ program.Comes (carryOut application synchronous program world).world.account outcome
          encountered
        ∧ world.Splits (carryOut application synchronous program world).world
          (Encounter.recordedIn encountered) [] := by
  have alive := Process.alive_begin application program world
  unfold carryOut
  split
  · next outcome after begun =>
      rcases Process.comes_of_begin application after program world
        (by rw [begun]; exact .refl after) outcome []
        (by rw [begun]; simp only [Process.Ends, and_self]) with ⟨encountered, comes, splits⟩
      rw [begun] at splits
      refine ⟨false, outcome, encountered, ?_⟩
      simp only [respond_world]
      exact ⟨trivial, comes, splits⟩
  · next process after unfinished begun =>
      rw [begun] at alive
      rcases Process.ends_of_run application process after alive with ⟨future, ends, splits⟩
      have leads := Process.leads_run application process after
      rcases Process.comes_of_begin application _ program world
        (by rw [begun]; exact leads) _ future (by rw [begun]; exact ends) with
        ⟨encountered, comes, splits'⟩
      rw [begun] at splits'
      refine ⟨true, (process.run application after).1, encountered, ?_⟩
      simp only [respond_world]
      exact ⟨trivial, comes, splits'.trans splits⟩

/-- What is carried out keeps to a policy that its program obeys. -/
theorem keeps_of_carryOut {policy : Policy} (application : Application σ) (synchronous : Bool)
    (program : Program) (world : World σ)
    (obeys : program.Obeys policy (carryOut application synchronous program world).world.account)
    (keeps : world.Keeps policy) :
    (carryOut application synchronous program world).world.Keeps policy := by
  unfold carryOut at obeys ⊢
  split at obeys
  · next outcome after begun =>
      rw [respond_world] at obeys ⊢
      have kept := Process.obeys_begin application after program world
        (by rw [begun]; exact .refl after) obeys keeps
      rw [begun] at kept
      exact kept.2
  · next process after unfinished begun =>
      simp only [respond_world] at obeys ⊢
      have leads := Process.leads_run application process after
      have kept := Process.obeys_begin application _ program world
        (by rw [begun]; exact leads) obeys keeps
      rw [begun] at kept
      exact Process.keeps_run application _ process after (.refl _) kept.1 kept.2

end Request

end GraphQL
