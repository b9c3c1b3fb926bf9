/-!
# Faults of rules

A predicate or a path that cannot be compiled. Once compiled, no rule ever fails on a message.
-/

namespace FeedFiler

/-- Why a rule cannot be compiled. -/
inductive RuleError where
  | unknownTest (test : String)
  | invalidPath (path reason : String)
  | invalidFilter (reason : String)
deriving DecidableEq, Repr

/-- The text of a fault. -/
def RuleError.message : RuleError → String
  | .unknownTest test => "unknown filter test '" ++ test ++ "'"
  | .invalidPath path reason => "invalid path '" ++ path ++ "': " ++ reason
  | .invalidFilter reason => "invalid configuration: " ++ reason

end FeedFiler
