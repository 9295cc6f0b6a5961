import JvmLint.App.Run

/-!
# Health
-/

namespace JvmLint

structure Health where
  isUp : Bool
  /-- The state of each part. -/
  components : List (String × String)
deriving DecidableEq, Repr, Inhabited

def Health.status (h : Health) : String := if h.isUp then "up" else "down"

/-- How the application is; one who has given up asking sees it down. -/
def App.health (a : App) (cancelled : Bool) : Health :=
  if cancelled then { isUp := false, components := [("context", cancelledFault.text)] }
  else
    let history := if a.openHistory?.isSome then "ok" else if a.settings.config.db.enabled then "not opened yet" else "disabled"
    { isUp := true
      components := [("registry", "ok (" ++ toString a.settings.registry.entries.length ++ " checks)"), ("history", history)] }

end JvmLint
