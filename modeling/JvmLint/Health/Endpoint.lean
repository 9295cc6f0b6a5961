import JvmLint.App.Health
import JvmLint.Health.Address
import JvmLint.Limiter

/-!
# The health endpoint

Tells those who ask over the network how the application is. Each client may ask only so often.
-/

namespace JvmLint

inductive ResponseBody where
  | text (s : String)
  | health (h : Health)
deriving DecidableEq, Repr, Inhabited

structure Response where
  code : Nat
  contentType : String
  body : ResponseBody
deriving DecidableEq, Repr, Inhabited

structure HealthEndpoint where
  address : String
  limiters : Limiters TokenBucket := { rate := 5, burst := 10, ttl := 10 * Duration.minute }
deriving Repr, Inhabited

namespace HealthEndpoint

/-- Who asks: the host without its port, if it has one. -/
def clientKey (remote : String) : String :=
  match HostPort.parse remote with
  | .ok a => a.host
  | .error _ => remote

def plainText (code : Nat) (message : String) : Response :=
  { code, contentType := "text/plain; charset=utf-8", body := .text (message ++ "\n") }

/-- The path of a request without its query. -/
def pathOf (target : String) : String := String.ofList (target.toList.takeWhile (· != '?'))

/-- A path without needless parts; a slash at its end is kept. -/
def tidy (path : String) : String :=
  let rooted := if Text.startsWith path "/" then path else "/" ++ path
  let clean := Path.clean rooted
  if Text.endsWith rooted "/" && clean != "/" then clean ++ "/" else clean

def moved (path : String) : Response :=
  { code := 301, contentType := "text/html; charset=utf-8", body := .text ("<a href=\"" ++ path ++ "\">Moved Permanently</a>.\n\n") }

def answer (e : HealthEndpoint) (a : App) (remote : String) (cancelled : Bool) (now : Int) : Response × HealthEndpoint :=
  let (isAllowed, limiters) := e.limiters.allow (clientKey remote) 1 now
  let e := { e with limiters }
  if isAllowed then
    let h := a.health cancelled
    ({ code := if h.isUp then 200 else 503, contentType := "application/json", body := .health h }, e)
  else (plainText 429 "rate limit exceeded", e)

def serve (e : HealthEndpoint) (a : App) (target remote : String) (cancelled : Bool) (now : Int) : Response × HealthEndpoint :=
  let path := pathOf target
  if tidy path != path then (moved (tidy path), e)
  else if path = "/health" then e.answer a remote cancelled now
  else (plainText 404 "404 page not found", e)

end HealthEndpoint

end JvmLint
