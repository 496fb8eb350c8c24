import GraphQL.Proofs.Owing

/-!
Runs of programs that pay. At every moment of such a run each deferred result that was handed over has
been waited for or given up, or it is still owed by what is under way. At the end nothing is owed.
-/

namespace GraphQL

namespace World

variable {σ : Type} {book : Book σ} {world after : World σ} {owed debt : Nat → Prop}

/-- A world in which more has happened, and more deferred results are attended to. -/
structure Onward (before after : World σ) : Prop where
  leads : before.Leads after
  attends : ∀ ticket, before.Attends ticket → after.Attends ticket

theorem Onward.trans {first second third : World σ} (left : first.Onward second)
    (right : second.Onward third) : first.Onward third :=
  ⟨left.leads.trans right.leads, fun ticket held => right.attends ticket (left.attends ticket held)⟩

/-- Whatever was handed over is attended to, unless it is excused or owed. -/
def Covered (world : World σ) (book : Book σ) (debt : Nat → Prop) : Prop :=
  ∀ ticket, world.HandedOver ticket →
    world.Attends ticket ∨ book.excused ticket ∨ debt ticket

theorem Covered.next (covered : world.Covered book debt)
    (attends : ∀ ticket, world.Attends ticket → after.Attends ticket)
    (handed : ∀ ticket, after.HandedOver ticket → world.HandedOver ticket ∨ owed ticket)
    (kept : ∀ ticket, debt ticket → after.Attends ticket ∨ book.excused ticket ∨ owed ticket) :
    after.Covered book owed := by
  intro ticket taken
  obtain before | new := handed ticket taken
  · obtain held | excused | owes := covered ticket before
    · exact .inl (attends ticket held)
    · exact .inr (.inl excused)
    · exact kept ticket owes
  · exact .inr (.inr new)

theorem Covered.mono (covered : world.Covered book debt)
    (more : ∀ ticket, debt ticket → book.excused ticket ∨ owed ticket) : world.Covered book owed :=
  covered.next (fun _ held => held) (fun _ taken => .inl taken) fun ticket owes =>
    .inr (more ticket owes)

/-- What is owed may be shared out between what comes first and what comes later. -/
theorem Covered.shared {here later rest : Nat → Prop}
    (covered : world.Covered book fun ticket => owed ticket ∨ rest ticket)
    (shared : ∀ ticket, owed ticket → book.excused ticket ∨ here ticket ∨ later ticket) :
    world.Covered book fun ticket => here ticket ∨ later ticket ∨ rest ticket :=
  covered.mono fun ticket owes => by
    obtain owes | other := owes
    · exact (shared ticket owes).imp_right fun owed => owed.imp_right .inl
    · exact .inr (.inr (.inr other))

theorem handedOver_cons {time : Nat} {event : Event}
    (past : after.past = (time, event) :: world.past) {ticket : Nat}
    (taken : after.HandedOver ticket) : world.HandedOver ticket ∨ ticket ∈ event.hands := by
  obtain ⟨other, saw, handed⟩ := taken
  obtain rfl | before := (saw_cons_iff past other).1 saw
  · exact .inr handed
  · exact .inl ⟨other, before, handed⟩

theorem handedOver_closeAll (tickets : List Nat) (world : World σ) {ticket : Nat}
    (taken : (tickets.foldl close world).HandedOver ticket) : world.HandedOver ticket := by
  induction tickets generalizing world with
  | nil => exact taken
  | cons first rest ih =>
      have before := ih _ taken
      unfold close at before
      split at before
      · exact (handedOver_cons rfl before).elim id fun none_ => by cases none_
      · exact before

theorem handedOver_launch (application : Application σ) (other : Nat) (world : World σ)
    {ticket : Nat} (taken : (world.launch application other).2.HandedOver ticket) :
    world.HandedOver ticket := by
  obtain ⟨_, _, _, past⟩ := launch_timers application other world
  exact (handedOver_cons past taken).elim id fun none_ => by cases none_

theorem handedOver_fire (application : Application σ) (timer : Timer) (world : World σ)
    {ticket : Nat} (taken : (world.fire application timer).2.HandedOver ticket) :
    world.HandedOver ticket := by
  unfold fire at taken
  cases wake : timer.wake with
  | finish other =>
      rw [wake] at taken
      obtain ⟨event, ⟨time, member⟩, handed⟩ := taken
      rcases List.mem_cons.1 member with same | member
      · cases same
        cases handed
      · rcases List.mem_cons.1 member with same | member
        · cases same
          cases handed
        · exact ⟨event, ⟨time, member⟩, handed⟩
  | refuse fault =>
      rw [wake] at taken
      obtain ⟨event, ⟨time, member⟩, handed⟩ := taken
      rcases List.mem_cons.1 member with same | member
      · cases same
        cases handed
      · exact ⟨event, ⟨time, member⟩, handed⟩

theorem covered_perform (effect : Effect)
    (covered : world.Covered book fun ticket => owed ticket ∨ debt ticket) :
    (world.perform effect).Covered book fun ticket => effect.owes owed ticket ∨ debt ticket := by
  have same : ∀ ticket, owed ticket ∨ debt ticket →
      world.Attends ticket ∨ book.excused ticket ∨ owed ticket ∨ debt ticket :=
    fun ticket owes => .inr (.inr owes)
  cases effect with
  | resolving path =>
      refine covered.next (fun _ held => held) (fun ticket taken => ?_) same
      exact (handedOver_cons rfl taken).imp_right fun none_ => by cases none_
  | resolved path value =>
      refine covered.next (fun _ held => held) (fun ticket taken => ?_) fun ticket owes => ?_
      · exact (handedOver_cons rfl taken).imp_right fun handed => .inl (.inr handed)
      · exact .inr (.inr (owes.imp_left .inl))
  | listed path items =>
      refine covered.next (fun _ held => held) (fun ticket taken => ?_) fun ticket owes => ?_
      · exact (handedOver_cons rfl taken).imp_right fun handed => .inl (.inr handed)
      · exact .inr (.inr (owes.imp_left .inl))
  | record error =>
      have attends : ∀ ticket, world.Attends ticket → (world.record error).Attends ticket :=
        fun ticket held => (attends_record world error ticket).2 held
      refine covered.next attends (fun ticket taken => ?_) fun ticket owes => .inr (.inr owes)
      simp only [perform, record] at taken
      split at taken
      · exact .inl taken
      · exact (handedOver_cons rfl taken).imp_right fun none_ => by cases none_
  | close tickets =>
      have attends := attends_closeAll tickets world
      refine covered.next (fun ticket held => (attends ticket).2 (.inr held))
        (fun ticket taken => .inl (handedOver_closeAll tickets world taken)) fun ticket owes => ?_
      obtain owes | rest := owes
      · by_cases given : ticket ∈ tickets
        · exact .inl ((attends ticket).2 (.inl given))
        · exact .inr (.inr (.inl ⟨owes, given⟩))
      · exact .inr (.inr (.inr rest))
  | remember key fields => exact covered.next (fun _ held => held) (fun _ taken => .inl taken) same

theorem shows_perform (effect : Effect) (onward : (world.perform effect).Onward after) :
    effect.Shows after := by
  cases effect with
  | resolved path value => exact onward.leads.saw (saw_note world _)
  | listed path items => exact onward.leads.saw (saw_note world _)
  | close tickets =>
      intro ticket given
      exact onward.attends ticket ((attends_closeAll tickets world ticket).2 (.inl given))
  | _ => exact trivial

end World

namespace Process

open World

variable {σ : Type}

theorem onward_start (application : Application σ) (program : Program) (world : World σ) :
    world.Onward (start application program world).2 where
  leads := leads_start application program world
  attends ticket held :=
    (alike_start (invariant_attends application ticket).simulation program world world
      ⟨rfl, held⟩).2.2

theorem onward_startAll (application : Application σ) (programs : List Program)
    (world : World σ) : world.Onward (startAll application programs world).2 where
  leads := leads_startAll application programs world
  attends ticket held :=
    (alike_startAll (invariant_attends application ticket).simulation programs world world
      ⟨rfl, held⟩).2.2

section Carried

variable {application : Application σ} {world after : World σ}

theorem CarriedTo.onward {program : Program} {process : Process}
    (carried : CarriedTo application program world process after) : world.Onward after := by
  have onward := onward_start application program world
  rwa [carried.eq] at onward

theorem CarriedToEach.onward {programs : List Program} {processes : List Process}
    (each : CarriedToEach application programs world processes after) : world.Onward after := by
  have onward := onward_startAll application programs world
  rwa [each.eq] at onward

theorem BrokenBy.onward {programs : List Program} {failure : Failure}
    (broken : BrokenBy application programs world failure after) : world.Onward after := by
  have onward := onward_startAll application programs world
  rwa [broken.eq] at onward

end Carried

theorem onward_launch (application : Application σ) (process : Process) (world : World σ) :
    world.Onward (launch application process world).2 where
  leads := leads_launch application process world
  attends ticket held :=
    (alike_launch (invariant_attends application ticket).simulation process world world
      ⟨rfl, held⟩).2.2

theorem onward_launchAll (application : Application σ) (processes : List Process)
    (world : World σ) : world.Onward (launchAll application processes world).2 where
  leads := leads_launchAll application processes world
  attends ticket held :=
    (alike_launchAll (invariant_attends application ticket).simulation processes world world
      ⟨rfl, held⟩).2.2

theorem onward_begin (application : Application σ) (program : Program) (world : World σ) :
    world.Onward (begin application program world).2 :=
  (onward_start application program world).trans (onward_launch application _ _)

theorem onward_run (application : Application σ) (process : Process) (world : World σ) :
    world.Onward (run application process world).2 where
  leads := leads_run application process world
  attends ticket held :=
    (alike_run (invariant_attends application ticket).simulation process ⟨rfl, held⟩).2.2

mutual

/-- A process that pays for whatever is handed over to it from now on. -/
def Pays (book : Book σ) : Process → Prop
  | finished outcome => book.Accepts outcome
  | waiting slots next =>
    ∀ result, Pending.AllGet book.final slots result → book.waited →
      (next result).Pays book fun _ => False
  | joining children next =>
    PayEach book children
      ∧ ∀ outcomes, (∀ outcome ∈ outcomes, book.Accepts outcome) →
        (next (.ok outcomes)).Pays book fun _ => False

def PayEach (book : Book σ) : List Process → Prop
  | [] => True
  | process :: rest => process.Pays book ∧ PayEach book rest

end

mutual

/-- What a process has not attended to yet: what it is about to wait for, and what was skipped. -/
def Owes (book : Book σ) : Process → Nat → Prop
  | finished outcome, ticket => book.leftAt outcome ticket
  | waiting slots _, ticket =>
    ticket ∈ slots.filterMap Pending.ticket? ∧ (book.Halted → book.skipped ticket)
  | joining children _, ticket => OweEach book children ticket

def OweEach (book : Book σ) : List Process → Nat → Prop
  | [], _ => False
  | process :: rest, ticket => process.Owes book ticket ∨ OweEach book rest ticket

end

variable {book : Book σ}

mutual

/-- An execution that stops leaves only what is skipped. -/
theorem skipped_of_owes (halted : book.Halted) {ticket : Nat} (process : Process)
    (owes : process.Owes book ticket) : book.skipped ticket := by
  match process with
  | finished outcome =>
      simp only [Owes] at owes
      exact owes.2
  | waiting slots next =>
      simp only [Owes] at owes
      exact owes.2 halted
  | joining children next =>
      simp only [Owes] at owes
      exact skipped_of_oweEach halted children owes

theorem skipped_of_oweEach (halted : book.Halted) {ticket : Nat} (processes : List Process)
    (owe : OweEach book processes ticket) : book.skipped ticket := by
  match processes with
  | [] =>
      simp only [OweEach] at owe
  | process :: rest =>
      simp only [OweEach] at owe
      obtain owes | owe := owe
      · exact skipped_of_owes halted process owes
      · exact skipped_of_oweEach halted rest owe

end

theorem skipped_of_finished {outcomes : List Outcome} {ticket : Nat}
    (owe : OweEach book (outcomes.map finished) ticket) :
    (∃ outcome ∈ outcomes, outcome.Stops) ∧ book.skipped ticket := by
  induction outcomes with
  | nil => simp only [List.map_nil, OweEach] at owe
  | cons outcome rest ih =>
      simp only [List.map_cons, OweEach, Owes] at owe
      obtain ⟨stops, skipped⟩ | owe := owe
      · exact ⟨⟨outcome, List.mem_cons_self, stops⟩, skipped⟩
      · obtain ⟨⟨found, member, stops⟩, skipped⟩ := ih owe
        exact ⟨⟨found, List.mem_cons_of_mem _ member, stops⟩, skipped⟩

theorem ticket?_of_launched (slots : List Pending)
    (launched : slots.all Pending.isLaunched = true) : slots.filterMap Pending.ticket? = [] := by
  rw [List.filterMap_eq_nil_iff]
  intro slot member
  have started := List.all_eq_true.1 launched slot member
  cases slot with
  | ticket ticket => cases started
  | waiter waiter => rfl
  | arrived value => rfl

theorem covered_of_launched {world : World σ} {slots : List Pending}
    {next : Except Failure (List Value) → Program} {rest : Nat → Prop}
    (launched : slots.all Pending.isLaunched = true)
    (covered : world.Covered book fun ticket => (waiting slots next).Owes book ticket ∨ rest ticket) :
    world.Covered book rest := by
  refine covered.mono fun ticket owes => .inr (owes.resolve_left fun owes => ?_)
  simp only [Owes, ticket?_of_launched slots launched, List.not_mem_nil, false_and] at owes

theorem filterMap_tickets (tickets : List Nat) :
    (tickets.map Pending.ticket).filterMap Pending.ticket? = tickets := by
  rw [List.filterMap_map]
  exact List.filterMap_some

theorem accepts_of_finished {outcomes : List Outcome} (pay : PayEach book (outcomes.map finished)) :
    ∀ outcome ∈ outcomes, book.Accepts outcome := by
  induction outcomes with
  | nil =>
      intro outcome member
      cases member
  | cons outcome rest ih =>
      simp only [List.map_cons, PayEach, Pays] at pay
      exact List.forall_mem_cons.2 ⟨pay.1, ih pay.2⟩

/-- None of the siblings that were started is stopped, if the next one was started after them. -/
def Running (processes : List Process) : Prop :=
  ∀ process ∈ processes, ∀ outcome, process = finished outcome → ¬ outcome.Stops

theorem not_stops_of_urgent? {process : Process} (calm : process.urgent? = none)
    (outcome : Outcome) (same : process = finished outcome) : ¬ outcome.Stops := by
  rintro ⟨failure, rfl, stops⟩
  subst same
  simp only [urgent?, Failure.urgent_of_stops stops, if_true] at calm
  cases calm

variable {application : Application σ}

mutual

/-- Starting a program that pays: what it owes is attended to, or owed by the process. -/
theorem CarriedTo.covered {owed rest : Nat → Prop} {program : Program} {world after : World σ}
    {process : Process} (carried : CarriedTo application program world process after)
    (onward : after.Onward book.final) (pays : program.Pays book owed)
    (covered : world.Covered book fun ticket => owed ticket ∨ rest ticket) :
    process.Pays book ∧ after.Covered book fun ticket => process.Owes book ticket ∨ rest ticket := by
  match carried with
  | .done _ _ =>
      simp only [Program.Pays] at pays
      simp only [Pays, Owes]
      refine ⟨pays.2, covered.mono fun ticket owes => ?_⟩
      obtain owes | other := owes
      · exact (pays.1 ticket owes).imp_right .inl
      · exact .inr (.inr other)
  | .call asked later =>
      simp only [Program.Pays] at pays
      have saw := (later.leads.trans onward.leads).saw (saw_ask application asked world)
      refine later.covered onward (pays _ saw) ?_
      refine covered.next (fun _ held => held) (fun ticket taken => ?_) fun ticket owes => ?_
      · exact (handedOver_cons rfl taken).imp_right fun handed => .inl (.inr handed)
      · exact .inr (.inr (owes.imp_left .inl))
  | .perform effect later =>
      simp only [Program.Pays] at pays
      have shows := shows_perform effect (later.onward.trans onward)
      exact later.covered onward (pays shows) (covered_perform effect covered)
  | .consult _ later =>
      simp only [Program.Pays] at pays
      exact later.covered onward (pays _) covered
  | .drain handle later =>
      simp only [Program.Pays] at pays
      have saw := (later.leads.trans onward.leads).saw (saw_drain application handle world)
      refine later.covered onward (pays _ _ saw) ?_
      refine covered.next (fun _ held => held) (fun ticket taken => ?_) fun ticket owes => ?_
      · exact (handedOver_cons rfl taken).imp_right fun handed => .inl (.inr handed)
      · exact .inr (.inr (owes.imp_left .inl))
  | .unawaited _ =>
      simp only [Program.Pays] at pays
      exact absurd rfl pays.1
  | .wait _ _ _ _ =>
      simp only [Program.Pays] at pays
      obtain ⟨_, awaited, later⟩ := pays
      simp only [Pays, Owes, filterMap_tickets]
      refine ⟨fun result gets => later result (Pending.allGet_tickets _ _ result gets), ?_⟩
      refine covered.mono fun other owes => ?_
      obtain owes | other := owes
      · exact (awaited other owes).imp_right .inl
      · exact .inr (.inr other)
  | .broken _ broken later =>
      simp only [Program.Pays] at pays
      obtain ⟨each, _, stopped⟩ := pays
      obtain ⟨stops, halted, covered⟩ := broken.covered (later.onward.trans onward) each covered
      exact later.covered onward (stopped _ stops halted) covered
  | .settled outcomes siblings later =>
      simp only [Program.Pays] at pays
      obtain ⟨each, settled, _⟩ := pays
      obtain ⟨pay, running, covered⟩ := siblings.covered (later.onward.trans onward) each covered
      refine later.covered onward (settled outcomes (accepts_of_finished pay)) ?_
      refine covered.mono fun ticket owes => owes.elim (fun owe => ?_) fun other => .inr (.inr other)
      -- whatever finished siblings still owe was skipped by one that stopped, but none of these did
      obtain ⟨⟨outcome, member, stops⟩, _⟩ := skipped_of_finished owe
      exact absurd stops (running _ (List.mem_map_of_mem member) outcome rfl)
  | .join siblings _ =>
      simp only [Program.Pays] at pays
      obtain ⟨each, settled, _⟩ := pays
      obtain ⟨pay, _, covered⟩ := siblings.covered onward each covered
      simp only [Pays, Owes]
      exact ⟨⟨pay, settled⟩, covered⟩

theorem CarriedToEach.covered {owed rest : Nat → Prop} {programs : List Program}
    {world after : World σ} {processes : List Process}
    (siblings : CarriedToEach application programs world processes after)
    (onward : after.Onward book.final) (pays : Program.PayEach book owed programs)
    (covered : world.Covered book fun ticket => owed ticket ∨ rest ticket) :
    PayEach book processes ∧ Running processes
      ∧ after.Covered book fun ticket => OweEach book processes ticket ∨ rest ticket := by
  match siblings with
  | .nil _ =>
      simp only [Program.PayEach] at pays
      refine ⟨by simp only [PayEach], fun process member => (by cases member), ?_⟩
      refine covered.mono fun ticket owes => ?_
      obtain owes | other := owes
      · exact .inl (pays ticket owes)
      · exact .inr (.inr other)
  | .cons head calm others =>
      simp only [Program.PayEach] at pays
      obtain ⟨here, later, shared, pays, _, _, payLater⟩ := pays
      obtain ⟨paid, covered⟩ := head.covered (others.onward.trans onward) pays
        (covered.shared shared)
      obtain ⟨pay, running, covered⟩ := others.covered onward payLater <| covered.mono
        fun ticket owes => .inr (or_left_comm.1 owes)
      simp only [PayEach, OweEach]
      refine ⟨⟨paid, pay⟩, ?_, covered.mono fun ticket owes => .inr (by tauto)⟩
      exact List.forall_mem_cons.2 ⟨not_stops_of_urgent? calm, running⟩

theorem BrokenBy.covered {owed rest : Nat → Prop} {programs : List Program} {world after : World σ}
    {failure : Failure} (broken : BrokenBy application programs world failure after)
    (onward : after.Onward book.final) (pays : Program.PayEach book owed programs)
    (covered : world.Covered book fun ticket => owed ticket ∨ rest ticket) :
    failure.kind = .asynchronous ∧ book.Halted
      ∧ after.Covered book fun ticket => book.skipped ticket ∨ rest ticket := by
  match broken with
  | .here head urgent =>
      simp only [Program.PayEach] at pays
      obtain ⟨here, later, shared, pays, calm, skips, _⟩ := pays
      obtain ⟨paid, covered⟩ := head.covered onward pays (covered.shared shared)
      have stops : failure.kind = .asynchronous := by
        obtain ⟨error, rfl⟩ | stops := head.good onward.leads calm failure rfl
        · cases urgent
        · exact stops
      simp only [Pays] at paid
      have halted : book.Halted := paid.halted ⟨failure, rfl, stops⟩
      refine ⟨stops, halted, covered.mono fun ticket owes => .inr ?_⟩
      obtain owes | afterwards | other := owes
      · exact .inl (skipped_of_owes halted _ owes)
      · exact .inl (skips halted ticket afterwards)
      · exact .inr other
  | .later head _ others =>
      simp only [Program.PayEach] at pays
      obtain ⟨here, later, shared, pays, _, _, payLater⟩ := pays
      obtain ⟨_, covered⟩ := head.covered (others.onward.trans onward) pays (covered.shared shared)
      obtain ⟨stops, halted, covered⟩ := others.covered onward payLater <| covered.mono
        fun ticket owes => .inr (or_left_comm.1 owes)
      refine ⟨stops, halted, covered.mono fun ticket owes => .inr ?_⟩
      obtain skipped | owes | other := owes
      · exact .inl skipped
      · exact .inl (skipped_of_owes halted _ owes)
      · exact .inr other

end

theorem covered_launchSlots (application : Application σ) (slots : List Pending)
    (rest : Nat → Prop) (world : World σ)
    (covered : world.Covered book fun ticket =>
      ticket ∈ slots.filterMap Pending.ticket? ∨ rest ticket) :
    (launchSlots application slots world).2.Covered book rest := by
  induction slots generalizing world with
  | nil =>
      refine covered.mono fun ticket owes => .inr ?_
      simpa using owes
  | cons slot others ih =>
      cases slot with
      | ticket ticket =>
          simp only [launchSlots]
          have attends := attends_launch application ticket world
          refine ih _ (covered.next (fun other held => (attends other).2 (.inr held))
            (fun other taken => .inl (handedOver_launch application ticket world taken))
            fun other owes => ?_)
          obtain owes | later := owes
          · obtain rfl | owes := List.mem_cons.1 owes
            · exact .inl ((attends other).2 (.inl rfl))
            · exact .inr (.inr (.inl owes))
          · exact .inr (.inr (.inr later))
      | waiter waiter => exact ih world covered
      | arrived value => exact ih world covered

mutual

theorem covered_launch (application : Application σ) (process : Process) (rest : Nat → Prop)
    (world : World σ) (onward : (launch application process world).2.Onward book.final)
    (pays : process.Pays book)
    (covered : world.Covered book fun ticket => process.Owes book ticket ∨ rest ticket) :
    (launch application process world).1.Pays book
      ∧ (launch application process world).2.Covered book fun ticket =>
        (launch application process world).1.Owes book ticket ∨ rest ticket := by
  match process with
  | finished outcome =>
      simp only [launch]
      exact ⟨pays, covered⟩
  | waiting slots next =>
      simp only [launch, Pays, Owes] at pays covered onward ⊢
      refine ⟨fun result gets => pays result (allGet_of_forall₂ book.final
        (gets_of_launchSlots application book.final slots world onward.leads) result gets), ?_⟩
      have launched := covered_launchSlots application slots rest world <| covered.mono
        fun ticket owes => .inr (owes.imp_left And.left)
      exact launched.mono fun ticket other => .inr (.inr other)
  | joining children next =>
      simp only [launch, Pays, Owes] at pays covered onward ⊢
      obtain ⟨each, covered⟩ := covered_launchAll application children rest world onward pays.1 covered
      exact ⟨⟨each, pays.2⟩, covered⟩

theorem covered_launchAll (application : Application σ) (processes : List Process)
    (rest : Nat → Prop) (world : World σ)
    (onward : (launchAll application processes world).2.Onward book.final)
    (pays : PayEach book processes)
    (covered : world.Covered book fun ticket => OweEach book processes ticket ∨ rest ticket) :
    PayEach book (launchAll application processes world).1
      ∧ (launchAll application processes world).2.Covered book fun ticket =>
        OweEach book (launchAll application processes world).1 ticket ∨ rest ticket := by
  match processes with
  | [] =>
      simp only [launchAll]
      exact ⟨pays, covered⟩
  | process :: others =>
      simp only [launchAll, PayEach, OweEach] at pays covered onward ⊢
      have middle : (launch application process world).2.Onward
          (launchAll application others (launch application process world).2).2 :=
        onward_launchAll application others _
      obtain ⟨head, covered⟩ := covered_launch application process
        (fun ticket => OweEach book others ticket ∨ rest ticket) world (middle.trans onward) pays.1
        (covered.mono fun ticket owes => .inr (by tauto))
      obtain ⟨tail, covered⟩ := covered_launchAll application others
        (fun ticket => (launch application process world).1.Owes book ticket ∨ rest ticket) _ onward
        pays.2 (covered.mono fun ticket owes => .inr (by tauto))
      exact ⟨⟨head, tail⟩, covered.mono fun ticket owes => .inr (by tauto)⟩

end

theorem covered_begin (application : Application σ) (program : Program) (rest : Nat → Prop)
    (world : World σ) (onward : (begin application program world).2.Onward book.final)
    (pays : program.Pays book fun _ => False) (covered : world.Covered book rest) :
    (begin application program world).1.Pays book
      ∧ (begin application program world).2.Covered book fun ticket =>
        (begin application program world).1.Owes book ticket ∨ rest ticket := by
  obtain ⟨paid, started⟩ := (carriedTo_start application program world).covered
    ((onward_launch application _ _).trans onward) pays
    (covered.mono fun ticket other => .inr (.inr other))
  exact covered_launch application _ rest _ onward paid started

mutual

theorem ResumedTo.covered {rest : Nat → Prop} {waiter : Nat} {reply : Reply}
    {process process' : Process} {world after : World σ}
    (resumed : ResumedTo application waiter reply process world process' after)
    (onward : after.Onward book.final) (delivered : book.final.Saw (.delivered waiter reply))
    (waited : book.waited) (lenient : ∀ ticket, book.skipped ticket → book.excused ticket)
    (launched : process.Launched) (pays : process.Pays book)
    (covered : world.Covered book fun ticket => process.Owes book ticket ∨ rest ticket) :
    process'.Pays book
      ∧ after.Covered book fun ticket => process'.Owes book ticket ∨ rest ticket := by
  match resumed with
  | .woken found answered =>
      simp only [Pays, Launched] at pays launched
      exact covered_begin application _ rest world onward
        (pays _ (answered.allGet found delivered) waited) (covered_of_launched launched covered)
  | .filled found same _ =>
      subst same
      simp only [Pays, Launched] at pays launched
      simp only [Pays, Owes]
      refine ⟨fun result gets => pays result (allGet_of_fill delivered gets), ?_⟩
      exact (covered_of_launched launched covered).mono fun ticket other => .inr (.inr other)
  | .settled outcomes one =>
      simp only [Pays, Owes, Launched] at pays covered launched
      obtain ⟨pay, covered⟩ := one.covered ((onward_begin application _ _).trans onward) delivered
        waited lenient launched pays.1 covered
      refine covered_begin application _ rest _ onward (pays.2 outcomes (accepts_of_finished pay)) ?_
      refine covered.mono fun ticket owes => ?_
      obtain owe | other := owes
      · exact .inl (lenient ticket (skipped_of_finished owe).2)
      · exact .inr other
  | .join one _ =>
      simp only [Pays, Owes, Launched] at pays covered launched ⊢
      obtain ⟨each, covered⟩ := one.covered onward delivered waited lenient launched pays.1 covered
      exact ⟨⟨each, pays.2⟩, covered⟩

theorem OneResumedTo.covered {rest : Nat → Prop} {waiter : Nat} {reply : Reply}
    {processes processes' : List Process} {world after : World σ}
    (resumed : OneResumedTo application waiter reply processes world processes' after)
    (onward : after.Onward book.final) (delivered : book.final.Saw (.delivered waiter reply))
    (waited : book.waited) (lenient : ∀ ticket, book.skipped ticket → book.excused ticket)
    (launched : LaunchedEach processes) (pays : PayEach book processes)
    (covered : world.Covered book fun ticket => OweEach book processes ticket ∨ rest ticket) :
    PayEach book processes'
      ∧ after.Covered book fun ticket => OweEach book processes' ticket ∨ rest ticket := by
  match resumed with
  | .here others one =>
      simp only [PayEach, OweEach, LaunchedEach] at pays covered launched ⊢
      obtain ⟨head, covered⟩ := one.covered onward delivered waited lenient launched.1 pays.1 <|
        covered.mono fun ticket owes => .inr (or_assoc.1 owes)
      exact ⟨⟨head, pays.2⟩, covered.mono fun ticket owes => .inr (or_assoc.2 owes)⟩
  | .later process _ one =>
      simp only [PayEach, OweEach, LaunchedEach] at pays covered launched ⊢
      obtain ⟨tail, covered⟩ := one.covered onward delivered waited lenient launched.2 pays.2 <|
        covered.mono fun ticket owes => .inr (or_left_comm.1 (or_assoc.1 owes))
      exact ⟨⟨pays.1, tail⟩, covered.mono fun ticket owes => .inr (or_assoc.2 (or_left_comm.1 owes))⟩

end

theorem covered_fire (application : Application σ) (timer : Timer) {world : World σ}
    {debt : Nat → Prop} (covered : world.Covered book debt) (pending : timer ∈ world.timers) :
    (world.fire application timer).2.Covered book debt :=
  covered.next
    (fun ticket held => (invariant_attends application ticket).fire held timer pending)
    (fun _ taken => .inl (handedOver_fire application timer world taken))
    fun _ owes => .inr (.inr owes)

/-- A run of a process that pays ends without debts, unless it stops. -/
theorem covered_run (application : Application σ) (process : Process) (world : World σ)
    (onward : (run application process world).2.Onward book.final) (alive : Alive process world)
    (waits : (∀ outcome, process ≠ finished outcome) → book.waited)
    (lenient : book.waited → ∀ ticket, book.skipped ticket → book.excused ticket)
    (pays : process.Pays book) (covered : world.Covered book (process.Owes book)) :
    book.Accepts (run application process world).1
      ∧ (run application process world).2.Covered book
        (book.leftAt (run application process world).1) := by
  fun_induction run application process world with
  | case1 world outcome =>
      simp only [Pays] at pays
      refine ⟨pays, covered.mono fun ticket owes => .inr ?_⟩
      simpa only [Owes] using owes
  | case2 world process unfinished nothing => exact absurd nothing (exists_earliest alive unfinished)
  | case3 world process unfinished timer found ignored ih =>
      have pending := earliest_mem found
      exact ih onward (alive_of_ignored application timer _ alive ignored) waits pays
        (covered_fire application timer covered pending)
  | case4 world process unfinished timer found after later resumed ih =>
      have pending := earliest_mem found
      have waited := waits unfinished
      have step := resumedTo_of_resume application _ _ process _ _ resumed
      have ended := (onward_run application after later).trans onward
      have delivered := (step.leads.trans ended.leads).saw (saw_fire application timer world)
      have fired := covered_fire application timer covered pending
      obtain ⟨paid, kept⟩ := step.covered ended delivered waited (lenient waited) alive.launched pays <|
        fired.mono fun ticket owes => .inr (.inl owes : _ ∨ False)
      refine ih onward (alive_of_resumed application timer _ alive _ resumed) (fun _ => waited) paid ?_
      exact kept.mono fun ticket owes => .inr (owes.resolve_right id)

/-- What is handed over in the run of a program that pays is attended to by the end of the run, unless
it is excused, or skipped by an execution that stops. -/
theorem covered_complete (application : Application σ) (program : Program) (world : World σ)
    (fresh : ∀ ticket, ¬ world.HandedOver ticket)
    (ended : book.final = (complete application program world).2)
    (waits : defers application program world = true → book.waited)
    (lenient : book.waited → ∀ ticket, book.skipped ticket → book.excused ticket)
    (pays : program.Pays book fun _ => False) :
    book.Accepts (complete application program world).1
      ∧ (complete application program world).2.Covered book
        (book.leftAt (complete application program world).1) := by
  have onward : (complete application program world).2.Onward book.final := by
    rw [ended]
    exact ⟨.refl _, fun _ held => held⟩
  have ran : (begin application program world).2.Onward (complete application program world).2 :=
    onward_run application _ _
  have nothing : world.Covered book fun _ => False := fun ticket taken => absurd taken (fresh ticket)
  obtain ⟨paid, covered⟩ := covered_begin application program (fun _ => False) world
    (ran.trans onward) pays nothing
  refine covered_run application _ _ onward (alive_begin application program world)
    (fun unfinished => waits ?_) lenient paid
    (covered.mono fun ticket owes => .inr (owes.resolve_right id))
  unfold defers
  split
  · next outcome same => exact absurd same (unfinished outcome)
  · rfl

end Process

end GraphQL
