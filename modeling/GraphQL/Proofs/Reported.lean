import GraphQL.Proofs.Accepted
import GraphQL.Proofs.Proper
import GraphQL.Proofs.Written

/-!
What a request reports. In whatever order things were waited for, the response shows the data of the
places of the operation, and its errors are those of the places that failed.
-/

namespace GraphQL

namespace ResponseError

/-- Errors of which no two are one. -/
def AllApart (errors : List ResponseError) : Prop :=
  errors.Pairwise fun earlier later => earlier.isSame later = false

theorem isSame_comm (left right : ResponseError) : left.isSame right = right.isSame left := by
  unfold isSame
  cases left.identity <;> cases right.identity <;> simp [eq_comm]

theorem AllApart.nodup {errors : List ResponseError} (apart : AllApart errors) : errors.Nodup := by
  refine apart.imp fun {earlier later} differ same => ?_
  rw [same, isSame_refl] at differ
  cases differ

theorem AllApart.eq_of_isSame {errors : List ResponseError} (apart : AllApart errors)
    {left right : ResponseError} (leftMember : left ∈ errors) (rightMember : right ∈ errors)
    (same : left.isSame right = true) : left = right := by
  induction errors with
  | nil => cases leftMember
  | cons first rest ih =>
      have parts := List.pairwise_cons.1 apart
      rcases List.mem_cons.1 leftMember with rfl | leftLater
      · rcases List.mem_cons.1 rightMember with rfl | rightLater
        · rfl
        · rw [parts.1 right rightLater] at same
          cases same
      · rcases List.mem_cons.1 rightMember with rfl | rightLater
        · rw [isSame_comm, parts.1 left leftLater] at same
          cases same
        · exact ih parts.2 leftLater rightLater

theorem allApart_of_fits (failures : List (List PathKey × ResponseError))
    (fits : ∀ failure ∈ failures, Fits failure) (distinct : (failures.map (·.1)).Nodup) :
    AllApart (failures.map (·.2)) := by
  rw [List.nodup_iff_pairwise_ne, List.pairwise_map] at distinct
  refine List.pairwise_map.2 (distinct.imp_of_mem fun {earlier later} first second differ => ?_)
  have left := fits earlier first
  have right := fits later second
  simp only [isSame, left.2, right.2, left.1, right.1, decide_eq_false_iff_not]
  exact differ

end ResponseError

open ResponseError

/-- Of errors that are apart, those that a run has recorded are what is left of them in the end. -/
theorem World.Splits.perm {σ : Type} {world after : World σ} {recorded errors : List ResponseError}
    (splits : world.Splits after recorded []) (fresh : world.errors = []) (unique : after.Apart)
    (same : ∀ error, error ∈ recorded ↔ error ∈ errors) (apart : AllApart errors) :
    after.errors.Perm errors := by
  have found : ∀ error ∈ after.errors, error ∈ errors := by
    intro error member
    rcases splits.sound error member with before | inside
    · rw [fresh] at before
      cases before
    · exact (same error).1 inside
  refine (List.perm_ext_iff_of_nodup (AllApart.nodup unique) apart.nodup).2 fun error =>
    ⟨found error, fun member => ?_⟩
  rcases splits.complete error ((same error).2 member) with ⟨other, kept, alike⟩ | future
  · rwa [apart.eq_of_isSame (found other kept) member alike] at kept
  · cases future

/-- Nothing has been executed in a world; at most variables were read. -/
structure World.Ready {σ : Type} (world : World σ) : Prop where
  errors : world.errors = []
  cache : world.cache = []
  aside : ∀ asked reply, world.Saw (.called asked reply) → asked.info? = none
  resolved : ∀ path, ¬ world.Saw (.resolving path)

namespace World.Ready

variable {σ : Type} {world : World σ}

theorem new (state : σ) : ({ state } : World σ).Ready :=
  ⟨rfl, rfl, fun _ _ ⟨_, member⟩ => (nomatch member), fun _ ⟨_, member⟩ => (nomatch member)⟩

theorem apart (ready : world.Ready) : world.Apart := by
  rw [World.Apart, ready.errors]
  exact .nil

theorem keeps {setting : Setting} {account : Account} {root : TypeId} {known : TypeId → Prop}
    (ready : world.Ready) : world.Keeps (setting.policy account root known) := by
  refine ⟨fun asked reply saw info found => ?_, fun path saw => absurd saw (ready.resolved path),
    fun entry member => ?_⟩
  · rw [ready.aside asked reply saw] at found
    cases found
  · rw [ready.cache] at member
    cases member

end World.Ready

namespace Request

variable {σ : Type}

theorem leads_of_start (application : Application σ) (synchronous : Bool) (program : Program)
    (world : World σ) :
    (Process.start application program world).2.Leads
      (carryOut application synchronous program world).world := by
  have launched : (Process.start application program world).2.Leads
      (Process.begin application program world).2 := Process.leads_launch application _ _
  unfold carryOut
  split
  · next outcome after begun =>
      rw [begun] at launched
      rw [respond_world]
      exact launched
  · next process after unfinished begun =>
      rw [begun] at launched
      simp only [respond_world]
      exact launched.trans (Process.leads_run application process after)

theorem leads_of_carryOut (application : Application σ) (synchronous : Bool) (program : Program)
    (world : World σ) : world.Leads (carryOut application synchronous program world).world :=
  (Process.leads_start application program world).trans
    (leads_of_start application synchronous program world)

end Request

namespace Reference

variable {setting : Setting} {account : Account} {root : TypeId}

theorem rising?_of_executed {place : Place} (executed : executed setting account root (.ok place)) :
    place.rising? = none := by
  rcases executed with ⟨error, _, rfl⟩ | ⟨content, _, rfl⟩ <;>
    simp only [Place.rising?, Bool.false_eq_true, if_false]

theorem raised_of_executed (sound : Sound setting.schema setting.schema.Knows)
    (knownRoot : setting.schema.Knows root)
    (ordinary : account.Ordinary setting.environment.root) (failure : Failure)
    (executed : executed setting account root (.error failure)) :
    (setting.synchronous = true ∧ failure = .asynchronous)
      ∨ ((setting.scope.collect root setting.environment.operation.selections).Yields account
          (.error failure) ∧ failure.isUrgent = true ∧ failure ≠ .asynchronous) := by
  rcases Results.bind_error executed.1 with failed | ⟨fields, collected, failed⟩
  · have safe := Results.safe_act setting ordinary _
      (setting.lenient_tolerates.within_collect setting.scope root
        setting.environment.operation.selections)
    rcases safe.fails failure failed with tolerated | stopped
    · refine .inr ⟨failed, executed.2, fun same => ?_⟩
      cases same ▸ tolerated.handled
    · exact .inl stopped
  · have distinct := Scope.distinct_collect _ fields collected
    have halts := halts_of_selected _ root _ none fields failure failed
    have safe := safe_selected ordinary sound (setting.environment.levels + 1) root _ none fields
      knownRoot ordinary.root distinct
    rcases safe.fails failure failed with tolerated | stopped
    · rw [tolerated.handled] at halts
      cases halts
    · exact .inl stopped

theorem proper_of_rootContent (sound : Sound setting.schema setting.schema.Knows)
    (knownRoot : setting.schema.Knows root)
    (ordinary : account.Ordinary setting.environment.root) (content : Content)
    (given : rootContent setting account root (.ok content)) : content.Proper [] := by
  rcases Results.bind_ok given with ⟨fields, collected, given⟩
  exact (safe_selected ordinary sound (setting.environment.levels + 1) root _ none fields knownRoot
    ordinary.root (Scope.distinct_collect _ fields collected)).gives content given

theorem keyed_of_executed (sound : Sound setting.schema setting.schema.Knows)
    (knownRoot : setting.schema.Knows root)
    (ordinary : account.Ordinary setting.environment.root) (place : Place)
    (executed : executed setting account root (.ok place)) : place.Keyed := by
  rcases executed with ⟨error, failed, rfl⟩ | ⟨content, given, rfl⟩
  · exact trivial
  · exact (proper_of_rootContent sound knownRoot ordinary content given).keyed

theorem apart_of_executed (sound : Sound setting.schema setting.schema.Knows)
    (knownRoot : setting.schema.Knows root)
    (ordinary : account.Ordinary setting.environment.root) (place : Place)
    (executed : executed setting account root (.ok place)) :
    (∀ failure ∈ place.failures [], failure.2.path = failure.1)
      ∧ ((place.failures []).map (·.1)).Nodup ∧ AllApart (place.errors []) := by
  rcases executed with ⟨error, failed, rfl⟩ | ⟨content, given, rfl⟩
  · refine ⟨fun failure member => ?_, List.nodup_singleton _, List.pairwise_singleton _ _⟩
    have pathless : error.path = [] := by
      rcases Results.bind_error failed with failed | ⟨fields, collected, failed⟩
      · have safe := Results.safe_act setting ordinary _
          (setting.lenient_tolerates.within_collect setting.scope root
            setting.environment.operation.selections)
        rcases safe.fails _ failed with tolerated | ⟨_, stopped⟩
        · exact tolerated.fresh error rfl
        · cases stopped
      · have halts := halts_of_selected _ root _ none fields _ failed
        cases halts
    rw [Place.failures, List.mem_singleton] at member
    rw [member]
    exact pathless
  · have proper := proper_of_rootContent sound knownRoot ordinary content given
    have paths := content.nodup_failures [] proper.keyed
    exact ⟨fun failure member => (proper.fits failure member).1, paths,
      allApart_of_fits _ proper.fits paths⟩

end Reference

namespace Request

variable {σ : Type} {setting : Setting}

/-- What is carried out for an operation agrees with its places: the response shows their data, and
its errors are theirs, none of them twice. -/
theorem agrees_of_carryOut (application : Application σ) (order : RootOrder) (root : TypeId)
    (sound : Sound setting.schema setting.schema.Knows) (knownRoot : setting.schema.Knows root)
    (world : World σ) (ready : world.Ready) (report : Report σ)
    (carried : report = carryOut application setting.synchronous
      (Execution.operationIn setting order root) world)
    (plain : setting.schema.WritesPlain report.world.account) :
    (∃ place data, Reference.executed setting report.world.account root (.ok place)
        ∧ place.data? = some data
        ∧ report.outcome = .ok ⟨data, report.world.errors⟩
        ∧ (AllApart (place.errors []) → report.world.errors.Perm (place.errors [])))
      ∨ ∃ failure awaited, Reference.executed setting report.world.account root (.error failure)
        ∧ report.outcome
          = (respond setting.synchronous awaited (.error failure) report.world).outcome := by
  have kept := keeps_of_carryOut application setting.synchronous _ world
    (Execution.obeys_operationIn sound.toClosed order knownRoot) ready.keeps
  have leads := leads_of_carryOut application setting.synchronous
    (Execution.operationIn setting order root) world
  rcases comes_of_carryOut application setting.synchronous
    (Execution.operationIn setting order root) world with
    ⟨awaited, outcome, encountered, responds, comes, splits⟩
  rw [← carried] at kept leads responds comes splits
  have faithful : Faithful setting report.world.account setting.schema.Knows :=
    ⟨plain, fun key fields remembered => kept.remembered (key, fields) remembered⟩
  rcases Execution.comes_operationIn sound faithful order root knownRoot comes with
    ⟨place, data, executed, shown, rfl, keeps⟩ | ⟨failure, executed, rfl⟩
  · have same : ∀ error, error ∈ Encounter.recordedIn encountered ↔ error ∈ place.errors [] := by
      intro error
      rw [keeps.recorded, Encounter.mem_recordedIn, place.mem_errors,
        Reference.rising?_of_executed executed]
      simp
    refine .inl ⟨place, data, executed, shown, ?_,
      splits.perm ready.errors (leads.apart ready.apart) same⟩
    rw [responds]
    rfl
  · refine .inr ⟨failure, awaited, executed, ?_⟩
    conv_lhs => rw [responds]

/-- A request for an operation that a schema can execute is executed. -/
theorem executeWith_eq (application : Application σ) (request : Request) {schema : Schema}
    {document : Document} {operation : Operation} {root : TypeId} (vars : Variables)
    (synchronous : Bool) (world : World σ) (checked : schema.check = .ok ())
    (chosen : document.choose request.operationName = .ok operation)
    (rooted : rootType schema operation = .ok root) :
    request.executeWith application schema document vars synchronous world
      = carryOut application synchronous (Execution.operationIn
          ⟨request.environment schema document operation vars, synchronous⟩
          operation.kind.rootOrder root) world := by
  simp only [executeWith, checked, chosen, rooted]
  rfl

end Request

end GraphQL
