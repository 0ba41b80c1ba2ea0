import MetricBoard.Expression.Dialect
import MetricBoard.Expression.Parser.Query

/-!
# Transpiling

From an expression in either spelling to the SQL of one server.
-/

namespace MetricBoard.Expression

/-- The SQL of an expression in a dialect. -/
def transpile (d : Dialect) (source : String) : Except Rejection String := do
  (← parse source).sql d

/-- The texts met when an expression is transpiled for the first dialect, the result for the
second, and so on, up to the first rejection. -/
def transpileChain (source : String) : List Dialect → List (Except Rejection String)
  | [] => []
  | d :: ds =>
    match transpile d source with
    | .ok sql => .ok sql :: transpileChain sql ds
    | .error r => [.error r]

end MetricBoard.Expression
