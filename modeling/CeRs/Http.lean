/-!
# Answers of the node's HTTP API

What a request comes back with, and the helpers that turn it into a result.  A
parsed JSON body is kept as the text of the one field its reader looks at.
-/

namespace CeRs.Http

/-- A request fails in transport, or is answered with a status line and a body. -/
inductive Answer (Body : Type)
  | failed (message : String)
  | response (status : String) (success : Bool) (body : Body)

/-- A body's text, and the field read from it when it parses: `none` where the
field is missing or no string. -/
structure Json where
  text : String
  value : Except String (Option String)

/-- `ok`: expect a successful empty response. -/
def ok : Answer Json → Except String Unit
  | .failed message => .error message
  | .response status success body =>
      if success then .ok () else .error s!"CE API {status}: {body.text}"

/-- `json`, followed by `as_str().unwrap_or_default()` on the field. -/
def jsonText : Answer Json → Except String String
  | .failed message => .error message
  | .response status success body =>
      if success then
        match body.value with
        | .ok field => .ok (field.getD "")
        | .error problem => .error s!"decode {status} body: {problem}: {body.text}"
      else .error s!"CE API {status}: {body.text}"

end CeRs.Http
