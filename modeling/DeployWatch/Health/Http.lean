/-
# Services behind HTTP

A service is known under the address of its host, and its health is asked for under a fixed
path.  The answer to that question depends on the network; what is said when there is no
answer depends on the address alone, and that is what this module holds.
-/

import DeployWatch.Health.Probe
import DeployWatch.Url.Reader

namespace DeployWatch.HttpService

/-- The path under which a service answers questions about itself. -/
def infoPath : String := "/api/v1/info"

/-- The address of a service: slashes at its end do not count. -/
def addressOf (text : String) : String :=
  String.ofList (text.toList.reverse.dropWhile (· = '/')).reverse

/-- The characters that a URL may have in its host and a request may not. -/
def refusedInHost : List Char := "\"`\x7b\x7d".toList

/-- A request for a URL can be sent: its scheme is one of two, and its host can be written
into the request. -/
def canBeSent (u : Url) : Bool :=
  (u.scheme = "http" || u.scheme = "https")
    && match u.authority with
      | some a => !a.host.text.toList.any refusedInHost.contains
      | none => false

/-- What is said of a request that gets no answer.  Without a URL, there is nothing to name;
with one that cannot be asked, no request is made at all. -/
def failureText (address : String) : String :=
  match Url.read? address with
  | none => "builder error"
  | some u =>
    let u := u.withoutCredentials
    if canBeSent u then "error sending request for url (" ++ u.text ++ ")"
    else "builder error for url (" ++ u.text ++ ")"

/-- The service under an address, seen from a place from which no request reaches it. -/
def unreachable (address : String) : Service Unit where
  endpoint := addressOf address
  ask _ s := (s, 0, .error (.unavailable (failureText (addressOf address ++ infoPath))))

end DeployWatch.HttpService
