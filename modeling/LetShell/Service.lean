import LetShell.Config
import LetShell.Json.Basic
import LetShell.Shell.Basic

/-!
# The web service

The service keeps one session over a private table. A command is posted as a
JSON object and answered with its output. The command that ends the session
tears the engine down; from then on every command is answered alike and
nothing changes any more. The page and the status show the version of an open
session by running a command of the shell, which leaves it in the history.

The endpoints are modelled, and what brings requests to them is not: it is a
gateway, of which only the calls it makes are looked at. How it takes a method,
a path and a payload from a request, what it answers by itself, and how it sends
a result or reports a failure is its own affair.
-/

set_option autoImplicit false

namespace LetShell

structure Service where
  shell : Shell
  isOpen : Bool

namespace Service

inductive Content where
  | json (v : Json)
  | page (banner : Text)

structure Response where
  status : Nat
  content : Content

inductive PayloadError where
  | noMembers
  | noCommandText
  deriving DecidableEq, Repr

abbrev Result := Except (Failure PayloadError) Response

abbrev Outcome := Service × Result

def create (c : Config) (table : Table) : Except ConfigError Service :=
  (c.engine table []).map fun e => ⟨.ofEngine e.start, true⟩

/-- What a payload says about a command. Of the values without members, an
array or a string mentions a command by holding the word; a number or a truth
value cannot be asked. -/
inductive Demand where
  | missing
  | command (t : Text)
  | unusable
  | refused
  deriving DecidableEq, Repr

def commandField : Text := "command".toList

def Demand.ofJson : Option Json → Demand
  | none | some .null => .missing
  | some (.object ms) =>
    match Json.member? ms commandField with
    | none => .missing
    | some (.string points) => .command (Text.ofPoints points)
    | some _ => .unusable
  | some (.array vs) =>
    if vs.any fun v => match v with
      | .string points => points = Json.keyOf commandField
      | _ => false
    then .unusable
    else .missing
  | some (.string points) =>
    if Text.hasPart commandField (Text.ofPoints points) then .unusable else .missing
  | some _ => .refused

def answer (status : Nat) (members : List (Text × Json)) : Response :=
  ⟨status, .json (.object (members.map fun m => (Json.keyOf m.1, m.2)))⟩

def result (output : Text) (closed : Bool) : Response :=
  answer 200 [("output".toList, .ofText output), ("closed".toList, .bool closed)]

def closedText : Text := "Session closed.".toList

def missingField : Response :=
  answer 400 [("error".toList, .ofText "Missing 'command' field".toList)]

def command (s : Service) (t : Text) : Outcome :=
  match s.shell.execute t with
  | (shell, .error f) => ({ s with shell := shell }, .error (.fault f))
  | (shell, .ok out) =>
    if out = Shell.farewell then
      match shell.engine.teardown with
      | (e, .ok ()) => (⟨{ shell with engine := e }, false⟩, .ok (result closedText true))
      | (e, .error f) => ({ s with shell := { shell with engine := e } }, .error (.fault f))
    else ({ s with shell := shell }, .ok (result out false))

def post (s : Service) (t : Text) : Outcome :=
  if s.isOpen then s.command t else (s, .ok (result closedText true))

def execute (s : Service) (payload : Option Json) : Outcome :=
  match Demand.ofJson payload with
  | .missing => (s, .ok missingField)
  | .refused => (s, .error (.error .noMembers))
  | .unusable =>
    (s, if s.isOpen then .error (.error .noCommandText) else .ok (result closedText true))
  | .command t => s.post t

def view (s : Service) (shown : Text → Response) : Outcome :=
  let (shell, r) := s.shell.execute Command.version.word
  ({ s with shell := shell }, (Failure.ofFault r).map shown)

def page (s : Service) : Outcome := s.view fun t => ⟨200, .page t⟩

def statusOf (isOpen : Bool) (t : Text) : Response :=
  answer 200 [("open".toList, .bool isOpen), ("status".toList, .ofText t)]

def status (s : Service) : Outcome :=
  if s.isOpen then s.view (statusOf true) else (s, .ok (statusOf false closedText))

inductive Endpoint where
  | page
  | execute
  | status
  deriving DecidableEq, Repr

def Endpoint.path : Endpoint → Text
  | .page => "/".toList
  | .execute => "/api/execute".toList
  | .status => "/api/status".toList

/-- An endpoint that can be read is called for a request of the head as well. -/
def Endpoint.methods : Endpoint → List Text
  | .execute => ["POST".toList]
  | .page | .status => ["GET".toList, "HEAD".toList]

/-- A call of an endpoint. Only one takes something from the request: the JSON
value that its body holds, or none if it holds no such value. -/
inductive Call where
  | page
  | execute (payload : Option Json)
  | status

def Call.endpoint : Call → Endpoint
  | .page => .page
  | .execute _ => .execute
  | .status => .status

def serve (s : Service) : Call → Outcome
  | .page => s.page
  | .execute payload => s.execute payload
  | .status => s.status

/-- What brings requests to the endpoints. A request without a call is answered
by the gateway itself: there is no endpoint for it, or its body cannot be taken
apart. -/
structure Gateway (ρ : Type) where
  method : ρ → Text
  path : ρ → Text
  call? : ρ → Option Call

section
variable {ρ : Type}

/-- An endpoint is called for its own path only, and by its own methods. -/
structure Gateway.Lawful (g : Gateway ρ) : Prop where
  path_eq : ∀ {r c}, g.call? r = some c → g.path r = c.endpoint.path
  method_mem : ∀ {r c}, g.call? r = some c → g.method r ∈ c.endpoint.methods

def handle (g : Gateway ρ) (s : Service) (r : ρ) : Service × Option Result :=
  match g.call? r with
  | none => (s, none)
  | some c => ((s.serve c).1, some (s.serve c).2)

def handleAll (g : Gateway ρ) (s : Service) : List ρ → Service × List (Option Result)
  | [] => (s, [])
  | r :: rs =>
    let (s, a) := s.handle g r
    let (s, as) := handleAll g s rs
    (s, a :: as)

end

end Service

end LetShell
