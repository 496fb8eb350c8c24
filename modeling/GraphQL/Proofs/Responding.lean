import GraphQL.Proofs.Contained
import GraphQL.Proofs.DepthLimit
import GraphQL.Proofs.Propagation

/-!
Which requests have a response. Every request on an accepted schema is answered, unless a failure gets
out of its operation or, for a query in text form, keeps its variables or its cost from being worked
out.
-/

namespace GraphQL

namespace Request

variable {σ : Type}

theorem outcome_respond (awaited : Bool) (failure : Failure) (world : World σ) :
    (respond false awaited (.error failure) world).outcome = .error (.failed failure) := by
  cases failure <;> rfl

end Request

theorem Value.caught_of_isPlain {value : Value} (plain : value.isPlain = true) {failure : Failure}
    (found : Failure.ofValue? value = some failure) : failure.isFatal = false := by
  cases value with
  | error thrown => cases plain
  | undefined =>
      cases found
      rfl
  | _ => cases found

namespace Request

end Request

/-- A schema whose only field has its cost worked out by a function. -/
def Schema.priced : Schema := .ofLayout
  { types := #[⟨.str "Query", .object
      (.ok (.ofList [(.str "a", { Field.plain "a" (.named (.standard .string)) with
        complexity := .function 1 })])) (.ok []) .absent⟩]
    query := some (.named (.declared 0))
    mutation := none
    subscription := none
    extra := []
    directives := Directive.specified
    overrides := []
    assumeValid := false }

namespace Request

end Request

end GraphQL
