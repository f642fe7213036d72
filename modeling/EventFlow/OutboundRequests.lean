/-
`services/executor_registry.py`: the outbound requests of `HttpExecutor` and
`WebhookExecutor`, and the check of their URL, `validate_outbound_url`.

The check looks the host up and examines every address of the answer. The client
then looks the same host up again and connects to an address of the second answer.
A resolver may answer each lookup differently, and which address is taken is the
client's choice.

`urlparse`, `ipaddress`, the resolver and the server are parameters of a
`Network`, and so are `lower` and `upper`, which go by the Unicode tables. The
lookups are numbered; the check makes the first one and the client the second.
-/
import EventFlow.Conditions

set_option autoImplicit false

namespace EventFlow

/-! ## The network -/

/-- What is read of `urlparse(url)`. -/
structure ParsedUrl where
  scheme : String
  hostname : Option String

/-- An address of `ipaddress`; `str` is its text. -/
structure IpAddress where
  str : String
  is_private : Bool := false
  is_loopback : Bool := false
  is_link_local : Bool := false
  is_reserved : Bool := false
  is_multicast : Bool := false
  is_unspecified : Bool := false

/-- The arguments of the client. -/
structure OutboundRequest where
  method : String
  url : Json
  headers : JsonObject
  params : Json
  json : Json
  timeout : Json

structure OutboundResponse where
  status_code : ℕ
  text : String
  /-- `response.json()`, if the text is JSON. -/
  json : Option Json

/-- What is outside of the backend. An error of a lookup or of a request is its
text. -/
structure Network where
  /-- `urlparse`, with the text of its `ValueError`. -/
  urlparse : String → Except String ParsedUrl
  lower : String → String
  upper : String → String
  /-- `ipaddress.ip_address`, `none` for a `ValueError`. -/
  ip_address : String → Option IpAddress
  /-- The answers of the resolver, lookup by lookup. -/
  resolve : ℕ → String → Except String (List String)
  /-- `dict(v)` of a value that is not a dict. -/
  dict_of : Json → Except PyError JsonObject
  /-- The answer to a request, or the text of an `httpx.HTTPError`. -/
  respond : OutboundRequest → String → Except String OutboundResponse

/-- An exception of an executor. -/
inductive OutboundError where
  | app (error : AppError)
  | value_error (message : String)
  | py (error : PyError)

/-! ## `validate_outbound_url` -/

/-- The long condition of the loop. -/
def IpAddress.forbidden (ip : IpAddress) : Bool :=
  ip.is_private || ip.is_loopback || ip.is_link_local || ip.is_reserved || ip.is_multicast ||
    ip.is_unspecified || ["169.254.169.254", "169.254.170.2"].contains ip.str

section Check

variable (net : Network)

/-- The loop over the answer. -/
def examine_addresses : List String → Except AppError Unit
  | [] => .ok ()
  | ip_str :: rest =>
    match net.ip_address ip_str with
    | none => .error
        { message := s!"Invalid IP address format: {ip_str}", code := "ssrf_blocked" }
    | some ip =>
      if ip.forbidden then .error
        { message := s!"Access to private/reserved IP address ({ip_str}) is forbidden " ++
            "(SSRF Protection)",
          code := "ssrf_blocked" }
      else examine_addresses rest

/-- The checks of a host name, and of its addresses. -/
def validate_hostname (hostname : String) : Except AppError Unit :=
  if ["localhost", "127.0.0.1", "::1", "0.0.0.0"].contains (net.lower hostname) then
    .error { message := "Access to local hostnames is forbidden (SSRF Protection)",
             code := "ssrf_blocked" }
  else
    match net.resolve 0 hostname with
    | .error e => .error
        { message := s!"Failed to resolve hostname '{hostname}': {e}", code := "ssrf_blocked" }
    | .ok addr_info => examine_addresses net addr_info

/-- `validate_outbound_url`. -/
def validate_outbound_url (url : Json) : Except OutboundError Unit :=
  match url with
  | .str text =>
    match net.urlparse text with
    | .error e => .error (.value_error e)
    | .ok parsed =>
      if ["http", "https"].contains parsed.scheme then
        match parsed.hostname with
        | some hostname =>
          if hostname = "" then
            .error (.app { message := "Invalid URL: missing hostname",
                           code := "invalid_executor_config" })
          else (validate_hostname net hostname).mapError .app
        | none => .error (.app { message := "Invalid URL: missing hostname",
                                 code := "invalid_executor_config" })
      else .error (.app { message := "URL scheme must be http or https",
                          code := "invalid_executor_config" })
  | _ => .error (.app { message := "URL must be a string", code := "invalid_executor_config" })

end Check

/-! ## The executors -/

/-- What an execution returns or raises, and the address it has sent a request
to. -/
structure Exchange where
  outcome : Except OutboundError ExecutorResult
  connected : Option String := none

section Executors

variable (net : Network)

/-- The host of a URL. -/
def Network.host (url : Json) : Option String :=
  match url with
  | .str text =>
    match net.urlparse text with
    | .ok parsed => parsed.hostname
    | .error _ => none
  | _ => none

/-- What is made of a response. -/
def read_response (output : OutboundResponse → JsonObject) (response : OutboundResponse) :
    ExecutorResult :=
  if 400 ≤ response.status_code then
    { success := false
      error := some
        s!"HTTP {response.status_code}: {String.ofList (response.text.toList.take 200)}" }
  else { success := true, output := output response }

/-- The request itself. The client looks the host up and connects to the address
at `choice` in the answer; nothing is sent where there is none. -/
def send_request (choice : ℕ) (output : OutboundResponse → JsonObject)
    (request : OutboundRequest) : Exchange :=
  match net.resolve 1 ((net.host request.url).getD "") with
  | .error e => { outcome := .ok { success := false, error := some e } }
  | .ok answer =>
    match answer[choice]? with
    | none =>
      { outcome := .ok { success := false, error := some "All connection attempts failed" } }
    | some address =>
      match net.respond request address with
      | .error e =>
        { outcome := .ok { success := false, error := some e }, connected := some address }
      | .ok response =>
        { outcome := .ok (read_response output response), connected := some address }

/-- `dict(config.get("headers") or {})` -/
def config_headers (config : JsonObject) : Except PyError JsonObject :=
  let headers := JsonObject.get config "headers"
  if headers.truthy then
    match headers with
    | .obj members => .ok members
    | v => net.dict_of v
  else .ok []

/-- The headers with the key of the attempt, where there is none yet. -/
def request_headers (context : ExecutionContext) : Except PyError JsonObject :=
  (config_headers net context.config).map fun headers =>
    if context.idempotency_key = "" ∨ headers.has "Idempotency-Key" then headers
    else headers.assign "Idempotency-Key" (.str context.idempotency_key)

/-- `config.get("timeout_seconds", 10)` -/
def request_timeout (config : JsonObject) : Json :=
  (config.lookup "timeout_seconds").getD (.int 10)

/-- `config.get("method", "GET").upper()` -/
def config_method (config : JsonObject) : Except PyError String :=
  match (config.lookup "method").getD (.str "GET") with
  | .str method => .ok (net.upper method)
  | v => .error (.attribute_error s!"'{v.type_name}' object has no attribute 'upper'")

/-- What both executors do: check the URL in a field of the configuration, and send
the request. -/
def checked_request (choice : ℕ) (url_field : String)
    (build : ExecutionContext → Json → Except PyError OutboundRequest)
    (output : OutboundResponse → JsonObject) (context : ExecutionContext) : Exchange :=
  match context.config.lookup url_field with
  | none => { outcome := .error (.py (.key_error url_field)) }
  | some url =>
    match validate_outbound_url net url with
    | .error (.app exc) =>
      { outcome := .ok { success := false, error := some s!"SSRF Blocked: {exc.message}" } }
    | .error e => { outcome := .error e }
    | .ok () =>
      match build context url with
      | .error e => { outcome := .error (.py e) }
      | .ok request => send_request net choice output request

namespace HttpExecutor

/-- The request of a node. -/
def build (context : ExecutionContext) (url : Json) : Except PyError OutboundRequest := do
  let headers ← request_headers net context
  let method ← config_method net context.config
  return { method, url, headers, params := JsonObject.get context.config "query",
           json := JsonObject.get context.config "body",
           timeout := request_timeout context.config }

/-- `{"status_code": response.status_code, "body": body}` -/
def output (response : OutboundResponse) : JsonObject :=
  [("status_code", .int response.status_code), ("body", response.json.getD (.str response.text))]

/-- `HttpExecutor.execute`. -/
def execute (choice : ℕ) : ExecutionContext → Exchange :=
  checked_request net choice "url" (build net) output

end HttpExecutor

namespace WebhookExecutor

/-- The request of a node: a `POST` of the template. -/
def build (context : ExecutionContext) (url : Json) : Except PyError OutboundRequest := do
  let headers ← request_headers net context
  return { method := "POST", url, headers, params := .null,
           json := JsonObject.get context.config "payload_template",
           timeout := request_timeout context.config }

/-- `{"status_code": response.status_code}` -/
def output (response : OutboundResponse) : JsonObject :=
  [("status_code", .int response.status_code)]

/-- `WebhookExecutor.execute`. -/
def execute (choice : ℕ) : ExecutionContext → Exchange :=
  checked_request net choice "target_url" (build net) output

end WebhookExecutor

end Executors

/-! ## What is connected to -/

/-- The addresses that the client may connect to: those of the second answer. -/
def Network.offered (net : Network) (url : Json) : List String :=
  match net.resolve 1 ((net.host url).getD "") with
  | .ok answer => answer
  | .error _ => []

section Connections

variable {net : Network} {url_field : String}
  {build : ExecutionContext → Json → Except PyError OutboundRequest}
  {output : OutboundResponse → JsonObject} {context : ExecutionContext} {choice : ℕ}

end Connections

end EventFlow
