import Upkeep.Admin.Bearer
import Upkeep.Admin.ErrorCode
import Upkeep.Caretaker
import Upkeep.Text.Percent

/-!
The admin interface: its routes, who may use them, and what each does. Requests that ask for
options are answered before anything else; all other requests need authorization, but for the
health of the caretaker.
-/

namespace Upkeep.Admin

structure Request where
  method : String
  /-- The path, with its query and fragment. -/
  target : String
  headers : List Header

inductive Body where
  | text (s : String)
  | json (v : Json)

structure Response where
  status : Nat
  headers : List (String × String)
  body : Body

namespace Response

def empty (status : Nat) : Response := ⟨status, [], .text ""⟩

def ofJson (status : Nat) (v : Json) : Response :=
  ⟨status, [("content-type", "application/json")], .json v⟩

def ofText (status : Nat) (s : String) : Response :=
  ⟨status, [("content-type", "text/plain; charset=utf-8")], .text s⟩

def ofCode (c : ErrorCode) (message : String) : Response := ofJson c.status (c.body message)

def addHeader (r : Response) (name value : String) : Response :=
  { r with headers := r.headers ++ [(name, value)] }

/-- The response without its body. -/
def bare (r : Response) : Response := { r with body := .text "" }

end Response

/-- The part of a target before its query or fragment. -/
def pathOf (target : String) : String :=
  String.ofList (target.toList.takeWhile fun c => c != '?' && c != '#')

inductive Route where
  | health
  | tracked
  /-- The last segment of the path, as it stands there. -/
  | register (segment : String)
  | sweep
  deriving DecidableEq, Repr

namespace Route

def healthPath : String := "/api/v1/health"

def refreshPath : String := "/api/v1/refresh"

def sweepPath : String := "/api/v1/expiry/sweep"

/-- The segment below a path, if there is exactly one and it is not empty. -/
def segmentBelow (base path : String) : Option String :=
  let start := base.toList ++ ['/']
  let rest := path.toList.drop start.length
  if start.isPrefixOf path.toList && !rest.isEmpty && !rest.contains '/' then some (String.ofList rest)
  else none

def ofPath (path : String) : Option Route :=
  if path = healthPath then some .health
  else if path = refreshPath then some .tracked
  else if path = sweepPath then some .sweep
  else (segmentBelow refreshPath path).map .register

/-- Whether a route is read, which can be done without its body too, and not acted on. -/
def isRead : Route → Bool
  | .health | .tracked => true
  | .register _ | .sweep => false

def fits (r : Route) (method : String) : Bool :=
  if r.isRead then method == "GET" || method == "HEAD" else method == "POST"

/-- The methods of a route, as a response names them. -/
def allowed (r : Route) : String := if r.isRead then "GET,HEAD" else "POST"

end Route

def textArray (ds : List Did) : Json := .array (ds.map fun d => .text d.text)

def count (n : Nat) : Json := .number (.natural (UInt64.ofNat n))

def reportJson {ε : Type} (describe : ε → String) (r : Sweep.Report ε) : Json :=
  .object
    [("failed", .array (r.failed.map fun (key, c) => .array [.text key, .text (c.message describe)])),
      ("scanned", count r.scanned), ("updated", count r.updated)]

/-- What the admin interface works with. -/
structure Site (ε : Type) where
  caretaker : Caretaker ε
  describe : ε → String
  handle : Handle
  authToken : Option String

namespace Site

variable {ε : Type}

def health (s : Site ε) : Work Response :=
  s.handle.tracked.bind fun ds =>
    .done (.ofJson 200 (.object [("status", .text "running"), ("tracked", count ds.length)]))

def tracked (s : Site ε) : Work Response :=
  s.handle.tracked.bind fun ds => .done (.ofJson 200 (.object [("dids", textArray ds)]))

/-- Marks an identifier and tracks it from now on. -/
def registerDid (s : Site ε) (d : Did) : Work Response :=
  (s.caretaker.markers.register d).bind fun
    | .error f => .done (.ofCode .internal f.message)
    | .ok registered =>
      (s.handle.track d .zero).bind fun _ =>
        (s.handle.isTracked d).bind fun tracked =>
          .done <| .ofJson 200 <| .object
            [("did", .text d.text), ("registered", .bool registered), ("tracked", .bool tracked)]

/-- Registers the identifier that a segment of a path spells. -/
def register (s : Site ε) (segment : String) : Work Response :=
  match Utf8.decode (Percent.decode (Utf8.encode segment)) with
  | none => .done (.ofText 400 "Invalid URL: Invalid UTF-8 in \x60did\x60")
  | some text =>
    match Did.parse text with
    | .error e => .done (.ofCode .badRequest e.message)
    | .ok d => s.registerDid d

def sweep (s : Site ε) : Work Response :=
  s.caretaker.sweep.bind fun
    | .error f => .done (.ofCode .internal f.message)
    | .ok report => .done (.ofJson 200 (reportJson s.describe report))

def handleRoute (s : Site ε) : Route → Work Response
  | .health => s.health
  | .tracked => s.tracked
  | .register segment => s.register segment
  | .sweep => s.sweep

/-- Answers a request that may pass. -/
def serve (s : Site ε) (method : String) : Option Route → Work Response
  | none => .done (.empty 404)
  | some r =>
    if r.fits method then
      (s.handleRoute r).bind fun response =>
        .done (if method = "HEAD" then response.bare else response)
    else .done (.empty 405)

/-- Whether a request may pass: the health of the caretaker is open to all. -/
def mayPass (s : Site ε) (req : Request) : Bool :=
  pathOf req.target == Route.healthPath || Bearer.permits s.authToken req.headers

/-- Names the methods of a known path in a response to any other method. -/
def withAllowed (route : Option Route) (method : String) (r : Response) : Response :=
  match route with
  | some route => if route.fits method then r else r.addHeader "allow" route.allowed
  | none => r

def anyOrigin (r : Response) : Response := r.addHeader "access-control-allow-origin" "*"

/-- The answer to a request for options, which lets any origin do anything. -/
def options : Response :=
  ((Response.empty 200).addHeader "access-control-allow-methods" "*").addHeader
    "access-control-allow-headers" "*"

def respond (s : Site ε) (req : Request) : Work Response :=
  let route := Route.ofPath (pathOf req.target)
  let finish (r : Response) : Response := anyOrigin (withAllowed route req.method r)
  if req.method = "OPTIONS" then .done (finish options)
  else if s.mayPass req then (s.serve req.method route).bind fun r => .done (finish r)
  else .done (finish (.ofCode .unauthorized "unauthorized"))

end Site

end Upkeep.Admin
