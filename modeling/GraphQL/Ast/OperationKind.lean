/-! The three kinds of operation. -/
namespace GraphQL

/-- What an operation does. -/
inductive OperationKind where
  | query
  | mutation
  | subscription
  deriving DecidableEq

namespace OperationKind

/-- The keyword that introduces an operation of this kind. -/
def keyword : OperationKind → String
  | .query => "query"
  | .mutation => "mutation"
  | .subscription => "subscription"

/-- The kind that a keyword introduces. -/
def ofKeyword? (word : String) : Option OperationKind :=
  [query, mutation, subscription].find? (·.keyword == word)

/-- The name of the root type for this kind where no schema definition says otherwise. -/
def defaultRoot : OperationKind → String
  | .query => "Query"
  | .mutation => "Mutation"
  | .subscription => "Subscription"

@[simp] theorem ofKeyword?_keyword (k : OperationKind) : ofKeyword? k.keyword = some k := by
  cases k <;> decide

end OperationKind
end GraphQL
