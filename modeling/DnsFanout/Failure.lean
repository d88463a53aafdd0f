/-! The ways in which answering a query fails. -/

namespace DnsFanout

inductive Failure
  | invalidName (detail : String)
  | invalidMessage (detail : String)
  | timeout
  | cancelled
  | transportTimeout (server : String)
  | connectionRefused (server : String)
  | connectionReset (server : String)
  | transport (server reason : String)
  /-- A cached connection turned out to be closed; the attempt may be repeated. -/
  | closedConnection
  | configuration (detail : String)
  | workerFailed (detail : String)
  | noHealthyResolver
  | noResolver
  | noNextHandler (handler : String)
deriving DecidableEq, Repr

def Failure.message : Failure → String
  | invalidName detail => "Invalid domain name: " ++ detail
  | invalidMessage detail => "Invalid DNS response: " ++ detail
  | timeout => "Query timeout"
  | cancelled => "Query cancelled by caller"
  | transportTimeout server => "Transport timeout talking to " ++ server
  | connectionRefused server => "Transport connection refused by " ++ server
  | connectionReset server => "Transport connection reset by " ++ server
  | transport server reason => "Transport error with " ++ server ++ ": " ++ reason
  | closedConnection => "Cached connection was closed by peer"
  | configuration detail => "Configuration error: " ++ detail
  | workerFailed detail => "Upstream worker failed: " ++ detail
  | noHealthyResolver => "No healthy upstream servers available"
  | noResolver => "No forwarder defined"
  | noNextHandler handler => "No next handler found after " ++ handler

end DnsFanout
