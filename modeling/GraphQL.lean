import GraphQL.Request
import GraphQL.Schema.Declaration
import GraphQL.Schema.Description
import GraphQL.Script
import GraphQL.Value.Enumeration
import GraphQL.Proofs.DepthLimit
import GraphQL.Proofs.Conforming
import GraphQL.Proofs.Vouching
import GraphQL.Proofs.Independence
import GraphQL.Proofs.LiteralBinding
import GraphQL.Proofs.ArgumentTypes
import GraphQL.Proofs.Responding
import GraphQL.Proofs.Synchronous
import GraphQL.Proofs.Names
import GraphQL.Proofs.Subtyping
import GraphQL.Proofs.Implementing
import GraphQL.Proofs.ComplexityBound
import GraphQL.Proofs.Disposal
import GraphQL.Proofs.Collecting
import GraphQL.Proofs.Spreading
import GraphQL.Proofs.Closure
import GraphQL.Proofs.Pinpointing
import GraphQL.Proofs.Membership
import GraphQL.Proofs.Associations
import GraphQL.Proofs.Omission
import GraphQL.Proofs.VariableCoercion
import GraphQL.Proofs.Choosing
import GraphQL.Proofs.EnumNames
import GraphQL.Proofs.WholeNumbers
import GraphQL.Proofs.KeyEquality
import GraphQL.Proofs.TextualScalars
import GraphQL.Proofs.Remembering
import GraphQL.Proofs.CoercionFaults
import GraphQL.Proofs.ErrorOrder
