import Colloquy.Model.Page
import Colloquy.Model.Resource
import Colloquy.Text.Base64
import Colloquy.Web.Url

/-! # Fetching model lists

How a provider is asked for its models. A list comes in pages; each page is asked for by one request and
read from one reply. Two shapes of lists are known: a plain one, which some providers page by the last
name seen, and one with resource names, paged by tokens.
-/

namespace Colloquy

/-- What is asked for: an address, and the headers that say who asks. -/
structure ModelRequest where
  url : Bytes
  /-- The key of the provider's own scheme. -/
  apiKey : Bytes
  /-- The version of the provider's interface. -/
  apiVersion : Bytes
  /-- The standard header. -/
  authorization : Bytes
  deriving Repr, DecidableEq

/-- What comes back. -/
inductive ModelReply
  /-- Nothing: the connection failed. -/
  | lost
  | answered (status : Nat) (contentType body : Bytes)
  deriving Repr, DecidableEq

/-- Why a list was not fetched. -/
inductive ListingFault
  | missingKey
  | status (code : Nat)
  /-- The connection failed, or the answer could not be read. -/
  | unreadable
  deriving Repr, DecidableEq

def reasonPhrases : List (Nat × String) :=
  [(400, "Bad Request"), (401, "Unauthorized"), (402, "Payment Required"), (403, "Forbidden"),
    (404, "Not Found"), (405, "Method Not Allowed"), (406, "Not Acceptable"),
    (407, "Proxy Authentication Required"), (408, "Request Timeout"), (409, "Conflict"), (410, "Gone"),
    (411, "Length Required"), (412, "Precondition Failed"), (413, "Request Entity Too Large"),
    (414, "Request URI Too Long"), (415, "Unsupported Media Type"),
    (416, "Requested Range Not Satisfiable"), (417, "Expectation Failed"), (418, "I'm a teapot"),
    (421, "Misdirected Request"), (422, "Unprocessable Entity"), (423, "Locked"),
    (424, "Failed Dependency"), (425, "Too Early"), (426, "Upgrade Required"),
    (428, "Precondition Required"), (429, "Too Many Requests"),
    (431, "Request Header Fields Too Large"), (451, "Unavailable For Legal Reasons"),
    (500, "Internal Server Error"), (501, "Not Implemented"), (502, "Bad Gateway"),
    (503, "Service Unavailable"), (504, "Gateway Timeout"), (505, "HTTP Version Not Supported"),
    (506, "Variant Also Negotiates"), (507, "Insufficient Storage"), (508, "Loop Detected"),
    (510, "Not Extended"), (511, "Network Authentication Required")]

def reasonPhrase (code : Nat) : String :=
  ((reasonPhrases.find? fun p => p.1 == code).map (·.2)).getD ""

def ListingFault.message : ListingFault → Bytes
  | .missingKey => utf8 "provider API key is not set"
  | .status code =>
    utf8 "GET /v1/models: " ++ Bytes.ofNat code ++ utf8 " " ++ utf8 (reasonPhrase code)
  | .unreadable => utf8 "the model list could not be read"

/-- Names or a failure, and the requests that were made, in order. -/
structure Listing where
  result : Except ListingFault (List Bytes)
  requests : List ModelRequest

namespace Listing

/-- The listing with a request made before it and names found before it. -/
def after (l : Listing) (request : ModelRequest) (names : List Bytes) : Listing :=
  ⟨l.result.map (names ++ ·), request :: l.requests⟩

def last (request : ModelRequest) (result : Except ListingFault (List Bytes)) : Listing := ⟨result, [request]⟩

/-- The page that a reply holds. There is none in a reply without content. -/
def pageOf : ModelReply → Except ListingFault Page
  | .lost => .error .unreadable
  | .answered status type body =>
    if status > 399 then .error (.status status)
    else if status < 200 || status > 299 || status == 204 then .ok {}
    else match Page.ofBody? type body with
      | some page => .ok page
      | none => .error .unreadable

/-- An address as a request uses it: without a scheme it starts with a slash. -/
def rooted? (t : Bytes) : Option Web.Url := do
  let url ← Web.Url.parse? t
  if !url.scheme.isEmpty then some url
  else
    let text := url.toBytes
    Web.Url.parse? (if text.isEmpty || text.head? == some 0x2F then text else 0x2F :: text)

/-- Put parameters behind those that an address has. -/
def withParameters (url : Web.Url) (parameters : List (String × Bytes)) : Web.Url :=
  let added := Bytes.join [0x26] (parameters.map fun p => utf8 p.1 ++ 0x3D :: Web.escape .query p.2)
  if parameters.isEmpty then url
  else { url with query := if Bytes.isBlank url.query then added else url.query ++ 0x26 :: added }

/-- A host without a colon at its end. -/
def withoutEmptyPort (host : Bytes) : Bytes :=
  if host.getLast? == some 0x3A then host.dropLast else host

def plainUrl? (base : Bytes) (parameters : List (String × Bytes)) : Option Web.Url := do
  let url ← rooted? (Bytes.trimEndWhile base (· == 0x2F) ++ utf8 "/v1/models")
  let url ← Web.Url.parse? (withParameters url parameters).toBytes
  return { url with host := withoutEmptyPort url.host }

def userHeader : Option Web.User → Bytes
  | none => []
  | some user => utf8 "Basic " ++ Base64.encode (user.name ++ 0x3A :: user.password.getD [])

/-- A provider with a plain list in one page, which takes a bearer token. -/
def single (base key : Bytes) (replies : List ModelReply) : Listing :=
  match plainUrl? (if base.isEmpty then utf8 "https://api.openai.com" else base) [] with
  | none => ⟨.error .unreadable, []⟩
  | some url =>
    last ⟨url.toBytes, [], [], utf8 "Bearer " ++ key⟩
      ((pageOf (replies.head?.getD .lost)).map fun page => page.names.items)

/-- The request for the page behind a name of a paged list. -/
def pageRequest? (base key behind : Bytes) : Option ModelRequest := do
  let parameters := (if behind.isEmpty then [] else [("after_id", behind)]) ++ [("limit", utf8 "1000")]
  let url ← plainUrl? base parameters
  return ⟨url.toBytes, key, utf8 "2023-06-01", userHeader url.user⟩

/-- The pages behind a name. When the replies end, the connection fails. -/
def pagesFrom (base key : Bytes) (behind : Bytes) (replies : List ModelReply) : Listing :=
  match pageRequest? base key behind, replies with
  | none, _ => ⟨.error .unreadable, []⟩
  | some request, [] => last request (.error .unreadable)
  | some request, reply :: replies =>
    match pageOf reply with
    | .error f => last request (.error f)
    | .ok page =>
      if page.hasMore && !page.lastId.isEmpty && page.lastId != behind then
        (pagesFrom base key page.lastId replies).after request page.names.items
      else last request (.ok page.names.items)

/-- A provider with a plain list in pages, which takes a key. -/
def paged (base key : Bytes) (replies : List ModelReply) : Listing :=
  pagesFrom (if base.isEmpty then utf8 "https://api.anthropic.com" else base) key [] replies

def resourcePages (request : ModelRequest) : List ModelReply → Listing
  | [] => last request (.error .unreadable)
  | .lost :: _ => last request (.error .unreadable)
  | .answered status _ body :: replies =>
    if status < 200 || status > 299 then last request (.error .unreadable)
    else match Resource.page? body with
      | none => last request (.error .unreadable)
      | some (names, token) =>
        if token.isEmpty then last request (.ok names)
        else (resourcePages request replies).after request names

/-- A provider with a list of resources. Without a key, or with an address that cannot be read, it is not
    asked. -/
def resources (base key : Bytes) (replies : List ModelReply) : Listing :=
  let base := if base.isEmpty then utf8 "https://generativelanguage.googleapis.com" else base
  if key.isEmpty then ⟨.error .missingKey, []⟩
  else match Web.Url.parse? (base ++ utf8 "/v1beta/models") with
    | none => ⟨.error .unreadable, []⟩
    | some url => resourcePages ⟨url.toBytes, key, [], []⟩ replies

def ofProvider (provider key : Bytes) (replies : List ModelReply) : Listing :=
  if provider == utf8 "anthropic" then paged [] key replies
  else if provider == utf8 "openrouter" then single (utf8 "https://openrouter.ai/api") key replies
  else if provider == utf8 "openai" then single [] key replies
  else resources [] key replies

end Listing

end Colloquy
