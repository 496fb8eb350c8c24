import GraphQL.TypeRef
import GraphQL.Value

/-!
What messages say about the faults of a schema.
-/

namespace GraphQL

namespace SchemaFault

def kind : SchemaFault → FailureKind
  | possibleTypeForeign .. => .assertion
  | unorderedNames .. | unhashableName _ => .type
  | _ => .invariant

private def quoted (text : String) : String := "\"" ++ text ++ "\""

private def interfaceArgument (interface field argument : String) : String :=
  "Interface field argument " ++ interface ++ "." ++ field ++ "(" ++ argument ++ ":)"

private def functionMessage (type role found : String) : String :=
  type ++ " must provide " ++ quoted role ++ " as a function, but got: " ++ found ++ "."

def message : SchemaFault → String
  | nonNullOfNonNull inner =>
    "Cannot wrap a NonNullType in another NonNullType: " ++ inner ++ "!"
  | wrappedNotType wrapper found =>
    "Expected the type wrapped by " ++ wrapper ++ " to be a GraphQL type, but got: " ++ found ++ "."
  | fieldTypeNotType field found =>
    "Expected the type of field " ++ quoted field ++ " to be a GraphQL type, but got: " ++ found
      ++ "."
  | inputTypeNotType input found =>
    "Expected the type of input " ++ quoted input ++ " to be a GraphQL type, but got: " ++ found
      ++ "."
  | badName none problem => problem
  | badName (some owner) problem => owner ++ ": " ++ problem
  | noSerialize type =>
    type ++ " must provide \"serialize\" function. If this custom Scalar is also used as an input "
      ++ "type, ensure \"parse_value\" and \"parse_literal\" functions are also provided."
  | halfParsed type =>
    type ++ " must provide both \"parse_value\" and \"parse_literal\" functions."
  | enumValuesNotIterable type found =>
    type ++ " values must be a mapping or an iterable, got: " ++ found
  | enumNameNotText type found =>
    type ++ " values must be a mapping with value names as keys, or an iterable of value names, "
      ++ "but got: " ++ found ++ "."
  | noEnumValues type => type ++ " values must not be empty."
  | reservedEnumName type name =>
    type ++ "." ++ name ++ ": Name " ++ name ++ " can not be used as an Enum value."
  | inputsNotMapping owner found =>
    owner ++ " must be a mapping with names as keys, but got: " ++ found
  | inputNotType owner name role found =>
    owner ++ ": " ++ name ++ " must be a " ++ role ++ " or a GraphQL type, but got: " ++ found
  | inputMisnamed owner role declared name =>
    owner ++ ": " ++ role ++ " named " ++ quoted declared ++ " was declared under the name "
      ++ quoted name ++ "."
  | fieldsNotMapping type =>
    type ++ " fields must be a mapping or a callable which returns such a mapping."
  | fieldNotType type field found =>
    type ++ "." ++ field ++ " field config must be a Field or a GraphQL type, but got: " ++ found
  | fieldMisnamed type field declared =>
    type ++ "." ++ field ++ ": field named " ++ quoted declared ++ " was declared under the name "
      ++ quoted field ++ "."
  | noFields type => type ++ " fields must not be empty."
  | fieldNotOutput field type =>
    field ++ " field type must be Output Type but got: " ++ type ++ "."
  | resolverNotFunction field found =>
    field ++ " field resolver must be a function if provided, but got: " ++ found
  | complexityNotFunction field found =>
    field ++ " field complexity must be a function if provided, but got: " ++ found
  | argumentNotInput argument type =>
    argument ++ " argument type must be Input Type but got: " ++ type ++ "."
  | inputFieldNotInput field type =>
    field ++ " field type must be Input Type but got: " ++ type ++ "."
  | interfacesNotIterable type =>
    type ++ " interfaces must be an iterable or a callable which returns such an iterable."
  | notInterface type found =>
    type ++ " may only implement Interface types, it cannot implement: " ++ found ++ "."
  | interfaceTwice type interface =>
    type ++ " may declare it implements " ++ interface ++ " only once."
  | fieldMissing interface field type =>
    "Interface field " ++ interface ++ "." ++ field ++ " expected but " ++ type
      ++ " does not provide it."
  | fieldTypeMismatch interface field expected type found =>
    "Interface field " ++ interface ++ "." ++ field ++ " expects type " ++ expected ++ " but "
      ++ type ++ "." ++ field ++ " is type " ++ found ++ "."
  | argumentMissing interface field argument type =>
    interfaceArgument interface field argument ++ " expected but " ++ type ++ "." ++ field
      ++ " does not provide it."
  | argumentTypeMismatch interface field argument expected type found =>
    interfaceArgument interface field argument ++ " expects type " ++ expected ++ " but " ++ type
      ++ "." ++ field ++ "(" ++ argument ++ ":) is type " ++ found ++ "."
  | isTypeOfNotFunction type found => functionMessage type "is_type_of" found
  | resolveTypeNotFunction type found => functionMessage type "resolve_type" found
  | membersNotIterable union =>
    "Must provide iterable of types or a callable which returns such an iterable for Union "
      ++ union ++ "."
  | noMembers union => "Union type " ++ union ++ " must define one or more member types."
  | memberNotObject union found =>
    "Union type " ++ union ++ " can only include Object types, it cannot include " ++ found ++ "."
  | memberTwice union member =>
    "Union type " ++ union ++ " can include " ++ member ++ " type only once."
  | overrideNotLeaf found => "Expecting instance of a leaf type, got " ++ found
  | overrideNotStandard found =>
    "Expecting one of the following names for a standard type: "
      ++ ", ".intercalate (Standard.specified.map Standard.name) ++ "; got " ++ found
  | namedTwice name =>
    "Schema must contain unique named types but contains multiple types named " ++ quoted name
      ++ "."
  | notNamedType found => "Expected a named GraphQL type, but got: " ++ found ++ "."
  | noQuery => "Query root type must be provided."
  | rootNotObject operation found =>
    operation ++ " root type must be Object type, it cannot be " ++ found ++ "."
  | possibleTypeForeign interface implementation =>
    "Possible types of " ++ interface ++ " contain " ++ implementation
      ++ ", which does not implement it."
  | directiveWithoutLocation directive =>
    "@" ++ directive ++ " must declare at least one location."
  | directiveArgumentName argument problem => argument ++ ": " ++ problem
  | directiveArgumentNotInput argument type =>
    argument ++ " argument type must be Input Type but got: " ++ type ++ "."
  | directiveTwice directive =>
    "Schema must contain unique directives, but contains multiple directives named "
      ++ quoted ("@" ++ directive) ++ "."
  | unorderedNames left right =>
    "'<' not supported between instances of '" ++ left ++ "' and '" ++ right ++ "'"
  | unhashableName kind => "unhashable type: '" ++ kind ++ "'"

end SchemaFault

end GraphQL
