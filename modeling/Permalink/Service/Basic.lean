import Permalink.Composition
import Permalink.Resolution
import Permalink.Service.MediaType

/-! The service: urls are read and written on request over HTTP. -/

namespace Permalink.Service

structure Request where
  method : String
  target : String
  headers : List (String × String)
  body : String

structure Response where
  status : Nat
  headers : List (String × String)
  /-- Whoever measures the time that an answer took adds it to the body. -/
  body : Option Json.Value

inductive Refusal where
  | unknownPath
  | wrongMethod
  | wrongMediaType
  | unreadable
  /-- The body is JSON of another shape than the endpoint asks for. -/
  | unfit
  deriving DecidableEq, Repr

def Refusal.status : Refusal → Nat
  | .unknownPath => 404
  | .wrongMethod => 405
  | .wrongMediaType => 415
  | .unreadable => 400
  | .unfit => 422

inductive Endpoint where
  | parse
  | construct
  deriving DecidableEq, Repr

def pathOf (target : List Char) : List Char :=
  let endsAuthority (c : Char) := c = '/' || c = '?' || c = '#'
  let path := match target.span fun c => c ≠ ':' && !endsAuthority c with
    | (_, ':' :: '/' :: '/' :: rest) => rest.dropWhile (!endsAuthority ·)
    | _ => target
  path.takeWhile fun c => c ≠ '?' && c ≠ '#'

def Endpoint.ofTarget? (target : String) : Option Endpoint :=
  match String.ofList (pathOf target.toList) with
  | "/v1/parse" => some .parse
  | "/v1/construct" => some .construct
  | _ => none

open Json

def parseRequest : Reader String :=
  Reader.record "" [⟨"url", true, Reader.map (fun url _ => url) Reader.string⟩]

def constructRequest : Reader State :=
  Reader.record {} [⟨"state", true, Reader.map (fun s _ => s) State.reader⟩]

/-- The document at the start of a body; what follows it is not looked at. -/
def readBody {α : Type} (reader : Reader α) (body : String) : Except Refusal α :=
  match reader.readLeading body.toList with
  | .ok a => .ok a
  | .error .text => .error .unreadable
  | .error .shape => .error .unfit

def Endpoint.answer (schema : Schema) (host : Host) (body : String) :
    Endpoint → Except Refusal Value
  | .parse => do
    let s := State.ofUrl schema host (← readBody parseRequest body)
    return .object [("state", s.toValue), ("url", .string (s.toUrl schema))]
  | .construct => do
    let s ← readBody constructRequest body
    return .object [("url", .string (s.toUrl schema))]

def Request.declaresJson (r : Request) : Bool :=
  let declared := r.headers.find? fun (name, _) => name.map Char.toLower = "content-type"
  (declared.bind fun (_, value) => MediaType.read? value.toList).any (·.isJson)

def answer (schema : Schema) (host : Host) (r : Request) : Except Refusal Value :=
  match Endpoint.ofTarget? r.target with
  | none => .error .unknownPath
  | some endpoint =>
    if r.method ≠ "POST" then .error .wrongMethod
    else if !r.declaresJson then .error .wrongMediaType
    else endpoint.answer schema host r.body

def anyOrigin : String × String := ("access-control-allow-origin", "*")

def preflight : Response where
  status := 200
  headers := [anyOrigin, ("access-control-allow-methods", "POST"),
    ("access-control-allow-headers", "*")]
  body := none

def respond (schema : Schema) (host : Host) (r : Request) : Response :=
  if r.method = "OPTIONS" then preflight
  else
    match answer schema host r with
    | .ok body => ⟨200, [anyOrigin], some body⟩
    | .error refusal => ⟨refusal.status, [anyOrigin], none⟩

end Permalink.Service
