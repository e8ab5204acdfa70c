/-! Reason phrases of the statuses that a server answers with. -/
namespace ServletContainer.Status

def reason : Nat → Option String
  | 200 => some "OK"
  | 302 => some "Found"
  | 403 => some "Forbidden"
  | 404 => some "Not Found"
  | 405 => some "Method Not Allowed"
  | 500 => some "Internal Server Error"
  | _ => none

def text (n : Nat) : String := toString n ++ " " ++ (reason n).getD "<unknown status code>"

end ServletContainer.Status
