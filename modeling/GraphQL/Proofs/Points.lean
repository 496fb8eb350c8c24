import GraphQL.Proofs.Moments

/-!
The points that a run comes upon: every program that is carried out on the way, with the world that it
is carried out in. What is seen in such a world is still seen when the run is over.
-/

namespace GraphQL

namespace Process

variable {σ : Type}

/-- When programs are started in turn, it is the turn of one of them in a world. -/
inductive TakesTurn (application : Application σ) :
    List Program → World σ → Program → World σ → Prop where
  | now (program : Program) (rest : List Program) (world : World σ) :
    TakesTurn application (program :: rest) world program world
  | later {program found : Program} {rest : List Program} {world moment : World σ} :
    (start application program world).1.urgent? = none →
    TakesTurn application rest (start application program world).2 found moment →
    TakesTurn application (program :: rest) world found moment

/-- The points that starting a program comes upon, up to where the program has to wait. -/
inductive Passes (application : Application σ) :
    Program → World σ → Program → World σ → Prop where
  | here (program : Program) (world : World σ) : Passes application program world program world
  | call {asked next world point moment} :
    Passes application (next (world.ask application asked).1) (world.ask application asked).2 point
      moment →
    Passes application (.call asked next) world point moment
  | perform {effect next world point moment} :
    Passes application next (world.perform effect) point moment →
    Passes application (.perform effect next) world point moment
  | consult {key next world point moment} :
    Passes application (next (world.consult key)) world point moment →
    Passes application (.consult key next) world point moment
  | drain {handle next world point moment} :
    Passes application (next (world.drain application handle).1.1 (world.drain application handle).1.2)
      (world.drain application handle).2 point moment →
    Passes application (.drain handle next) world point moment
  | unawaited {next world point moment} :
    Passes application (next (.ok [])) world point moment →
    Passes application (.wait [] next) world point moment
  | child {children next world program begun point moment} :
    TakesTurn application children world program begun →
    Passes application program begun point moment →
    Passes application (.join children next) world point moment
  | broken {children next world failure after point moment} :
    startAll application children world = (.error failure, after) →
    Passes application (next (.error failure)) after point moment →
    Passes application (.join children next) world point moment
  | settled {children next world processes outcomes after point moment} :
    startAll application children world = (.ok processes, after) →
    outcomes? processes = some outcomes →
    Passes application (next (.ok outcomes)) after point moment →
    Passes application (.join children next) world point moment

/-- The programs that are begun when a reply is handed to a process. -/
inductive Resumes (application : Application σ) (waiter : Nat) (reply : Reply) :
    Process → World σ → Program → World σ → Prop where
  | failed {slots next failure world} : slots.any (isWaiter waiter) = true →
    reply = .error failure →
    Resumes application waiter reply (waiting slots next) world (next (.error failure)) world
  | arrived {slots next value values world} : slots.any (isWaiter waiter) = true →
    reply = .ok value → arrivals? (fill waiter value slots) = some values →
    Resumes application waiter reply (waiting slots next) world (next (.ok values)) world
  | child {front process back next world program begun} :
    (∀ earlier ∈ front, resume application waiter reply earlier world = none) →
    Resumes application waiter reply process world program begun →
    Resumes application waiter reply (joining (front ++ process :: back) next) world program begun
  | settled {children next world processes outcomes after} :
    resumeAny application waiter reply children world = some (processes, after) →
    outcomes? processes = some outcomes →
    Resumes application waiter reply (joining children next) world (next (.ok outcomes)) after

/-- The programs that are begun in the run of a process. -/
inductive Begins (application : Application σ) :
    Process → World σ → Program → World σ → Prop where
  | now {process world timer program begun} : World.earliest world.timers = some timer →
    Resumes application timer.waiter (world.fire application timer).1 process
      (world.fire application timer).2 program begun →
    Begins application process world program begun
  | later {process world after next program begun} :
    step? application process world = some (after, next) →
    Begins application after next program begun →
    Begins application process world program begun

/-- The points that carrying a program out to its end comes upon. -/
inductive ComesUpon (application : Application σ) :
    Program → World σ → Program → World σ → Prop where
  | start {program world point moment} : Passes application program world point moment →
    ComesUpon application program world point moment
  | run {program world resumed begun point moment} :
    Begins application (begin application program world).1 (begin application program world).2
      resumed begun →
    Passes application resumed begun point moment →
    ComesUpon application program world point moment

section Worlds

variable {application : Application σ} {program point : Program} {world moment : World σ}

theorem TakesTurn.mem {children : List Program}
    (turn : TakesTurn application children world program moment) : program ∈ children := by
  induction turn with
  | now program rest world => exact List.mem_cons_self
  | later _ _ ih => exact List.mem_cons_of_mem _ ih

theorem TakesTurn.leads {children : List Program}
    (turn : TakesTurn application children world program moment) :
    (start application program moment).2.Leads (startAll application children world).2 := by
  induction turn with
  | now program rest world => exact leads_startAll_cons application program rest world
  | later calm _ ih =>
      simp only [startAll, calm]
      exact ih

theorem Passes.leads (passes : Passes application program world point moment) :
    (start application point moment).2.Leads (start application program world).2 := by
  induction passes with
  | here program world => exact .refl _
  | call _ ih => rwa [start]
  | perform _ ih => rwa [start]
  | consult _ ih => rwa [start]
  | drain _ ih => rwa [start]
  | unawaited _ ih => rwa [start]
  | child turn _ ih => exact (ih.trans turn.leads).trans (leads_startAll_join application _ _ _)
  | broken started _ ih =>
      rw [start, started]
      exact ih
  | settled started all _ ih =>
      rw [start, started]
      simp only [all]
      exact ih

theorem resumeAny_of_front {waiter : Nat} {reply : Reply} {front back : List Process}
    {process : Process} {after : Process × World σ}
    (declined : ∀ earlier ∈ front, resume application waiter reply earlier world = none)
    (resumed : resume application waiter reply process world = some after) :
    resumeAny application waiter reply (front ++ process :: back) world
      = some (front ++ after.1 :: back, after.2) := by
  induction front with
  | nil => rw [List.nil_append, resumeAny, resumed]; rfl
  | cons first rest ih =>
      rw [List.cons_append, resumeAny, declined first List.mem_cons_self,
        ih fun earlier member => declined earlier (List.mem_cons_of_mem _ member)]
      rfl

theorem Resumes.leads {waiter : Nat} {reply : Reply} {process : Process}
    (resumes : Resumes application waiter reply process world program moment) :
    ∃ after, resume application waiter reply process world = some after
      ∧ (begin application program moment).2.Leads after.2 := by
  induction resumes with
  | failed waits same =>
      refine ⟨_, ?_, .refl _⟩
      simp only [resume, waits, if_true, same]
  | arrived waits same all =>
      refine ⟨_, ?_, .refl _⟩
      simp only [resume, waits, if_true, same, all]
  | child declined _ ih =>
      obtain ⟨after, resumed, leads⟩ := ih
      rw [resume, resumeAny_of_front declined resumed]
      simp only
      split
      · exact ⟨_, rfl, leads.trans (leads_begin application _ _)⟩
      · exact ⟨_, rfl, leads⟩
  | settled resumed all =>
      refine ⟨_, ?_, .refl _⟩
      rw [resume, resumed]
      simp only [all]

theorem Resumes.unfinished {waiter : Nat} {reply : Reply} {process : Process}
    (resumes : Resumes application waiter reply process world program moment) :
    ∀ outcome, process ≠ finished outcome := by
  rintro outcome rfl
  cases resumes

theorem Begins.leads {process : Process}
    (begins : Begins application process world program moment) :
    (begin application program moment).2.Leads (run application process world).2 := by
  induction begins with
  | now found resumes =>
      obtain ⟨after, resumed, leads⟩ := resumes.leads
      rw [run_eq, step?_of_resumed resumes.unfinished found resumed]
      exact leads.trans (leads_run application _ _)
  | later step _ ih =>
      rw [run_eq, step]
      exact ih

/-- What a run comes upon leads to the end of the run. -/
theorem ComesUpon.leads (comes : ComesUpon application program world point moment) :
    moment.Leads (complete application program world).2 := by
  cases comes with
  | start passes =>
      exact ((leads_start application point moment).trans passes.leads).trans
        ((leads_launch application _ _).trans (leads_run application _ _))
  | run begins passes =>
      exact ((leads_start application point moment).trans passes.leads).trans
        ((leads_launch application _ _).trans begins.leads)

end Worlds

mutual

/-- Starts a program and stops where something is looked up, within the given one of the children at
each join on the way. -/
def lookUp? (application : Application σ) (within : List Nat) (program : Program)
    (world : World σ) : Option (SubfieldKey × World σ) :=
  match program with
  | .done _ => none
  | .call asked next =>
    lookUp? application within (next (world.ask application asked).1) (world.ask application asked).2
  | .perform effect next => lookUp? application within next (world.perform effect)
  | .consult key next =>
    if within.isEmpty then some (key, world)
    else lookUp? application within (next (world.consult key)) world
  | .drain handle next =>
    lookUp? application within
      (next (world.drain application handle).1.1 (world.drain application handle).1.2)
      (world.drain application handle).2
  | .wait [] next => lookUp? application within (next (.ok [])) world
  | .wait (_ :: _) _ => none
  | .join children _ =>
    match within with
    | [] => none
    | child :: deeper => lookUpIn? application deeper child children world

def lookUpIn? (application : Application σ) (within : List Nat) (child : Nat)
    (programs : List Program) (world : World σ) : Option (SubfieldKey × World σ) :=
  match programs, child with
  | [], _ => none
  | program :: _, 0 => lookUp? application within program world
  | program :: rest, later + 1 =>
    match (start application program world).1.urgent? with
    | some _ => none
    | none => lookUpIn? application within later rest (start application program world).2

end

mutual

theorem passes_of_lookUp? (application : Application σ) (within : List Nat) (program : Program)
    (world moment : World σ) (key : SubfieldKey)
    (found : lookUp? application within program world = some (key, moment)) :
    ∃ next, Passes application program world (.consult key next) moment := by
  match program with
  | .done outcome =>
      simp only [lookUp?] at found
      cases found
  | .call asked next =>
      simp only [lookUp?] at found
      obtain ⟨last, passes⟩ := passes_of_lookUp? application within _ _ moment key found
      exact ⟨last, .call passes⟩
  | .perform effect next =>
      simp only [lookUp?] at found
      obtain ⟨last, passes⟩ := passes_of_lookUp? application within _ _ moment key found
      exact ⟨last, .perform passes⟩
  | .consult other next =>
      simp only [lookUp?] at found
      split at found
      · cases found
        exact ⟨next, .here _ _⟩
      · obtain ⟨last, passes⟩ := passes_of_lookUp? application within _ _ moment key found
        exact ⟨last, .consult passes⟩
  | .drain handle next =>
      simp only [lookUp?] at found
      obtain ⟨last, passes⟩ := passes_of_lookUp? application within _ _ moment key found
      exact ⟨last, .drain passes⟩
  | .wait [] next =>
      simp only [lookUp?] at found
      obtain ⟨last, passes⟩ := passes_of_lookUp? application within _ _ moment key found
      exact ⟨last, .unawaited passes⟩
  | .wait (ticket :: tickets) next =>
      simp only [lookUp?] at found
      cases found
  | .join children next =>
      match within with
      | [] =>
          simp only [lookUp?] at found
          cases found
      | child :: deeper =>
          simp only [lookUp?] at found
          obtain ⟨entered, begun, last, turn, passes⟩ :=
            passes_of_lookUpIn? application deeper child children world moment key found
          exact ⟨last, .child turn passes⟩

theorem passes_of_lookUpIn? (application : Application σ) (within : List Nat) (child : Nat)
    (programs : List Program) (world moment : World σ) (key : SubfieldKey)
    (found : lookUpIn? application within child programs world = some (key, moment)) :
    ∃ program begun next, TakesTurn application programs world program begun
      ∧ Passes application program begun (.consult key next) moment := by
  match programs, child with
  | [], _ =>
      simp only [lookUpIn?] at found
      cases found
  | program :: rest, 0 =>
      simp only [lookUpIn?] at found
      obtain ⟨next, passes⟩ := passes_of_lookUp? application within program world moment key found
      exact ⟨program, world, next, .now program rest world, passes⟩
  | program :: rest, later + 1 =>
      simp only [lookUpIn?] at found
      split at found
      · cases found
      · next calm =>
          obtain ⟨entered, begun, next, turn, passes⟩ :=
            passes_of_lookUpIn? application within later rest _ moment key found
          exact ⟨entered, begun, next, .later calm turn, passes⟩

end

/-- A run comes upon what is found there, and a test of it holds. -/
theorem comesUpon_of_lookUp? (application : Application σ) (within : List Nat) (program : Program)
    (world : World σ) (test : SubfieldKey × World σ → Bool)
    (passed : (lookUp? application within program world).any test = true) :
    ∃ key next moment, ComesUpon application program world (.consult key next) moment
      ∧ test (key, moment) = true := by
  obtain ⟨⟨key, moment⟩, found, holds⟩ := (Option.any_eq_true _ _).1 passed
  obtain ⟨next, passes⟩ := passes_of_lookUp? application within program world moment key found
  exact ⟨key, next, moment, .start passes, holds⟩

end Process

end GraphQL
