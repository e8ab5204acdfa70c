/-! Scripts: what a programmable collaborator does, as a list of actions run in order. -/
namespace ServletContainer

/-- Something that a script can read and write to the response body. -/
inductive Reading where
  | attribute (key : String)
  | header (name : String)
  | method
  | path
  | query
  | body
  | paths
  | view
  | resource (name : String)
  | realPath (name : String)
  | mime (name : String)
  /-- The number of the instance that runs. -/
  | instanceNumber
  /-- How many filters follow in the chain. -/
  | remaining
  deriving DecidableEq

inductive Action where
  | write (text : String)
  | tell (reading : Reading)
  | status (code : Nat)
  | sendError (code : Nat)
  | redirect (location : String)
  | resetBody
  | header (name value : String)
  | requestHeader (name value : String)
  | setAttribute (key value : String)
  | log (text : String)
  | logStatus
  /-- Passes the request on and gives way to an error. -/
  | proceed
  /-- Passes the request on and writes an error to the body. -/
  | proceedCatch
  | fail (kind : Option String) (message : String)
  | panic (message : String)
  deriving DecidableEq

abbrev Script := List Action

end ServletContainer
