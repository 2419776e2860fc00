import Concolic.Config.Layers
import Concolic.Session.Basic

/-! # The configured bound of sessions

A session may take its bound on the number of elements from the configuration. A bound that is not
positive is an error there, whereas the engine's is only passed over. -/

namespace Concolic

/-- The name of the configuration file of sessions. -/
def sessionConfigName : String := "marsh_config"

/-- The group of the variables of sessions. -/
def sessionGroup : String := "MARSH"

/-- The key of the bound. -/
def boundKey : String := "max_symbolic_size"

/-- The bound in `es`, if there is one: the positive integer that `lib` reads from `boundKey`. -/
def configuredBound (lib : ConfigLibrary) (es : Settings) : Except ConfigError (Option Int64) :=
  match Setting.find es boundKey with
  | .nil => .ok none
  | s =>
    match lib.integer? s with
    | none => .error (.wrongType boundKey)
    | some n => if n ≤ 0 then .error (.nonPositiveBound n) else .ok (some n)

/-- What opening a session over a configuration gives. -/
structure Opening where
  /-- The session, or why there is none. -/
  result : Except ConfigError Session
  /-- What loading the configuration warned of. -/
  notices : List ConfigNotice
  /-- What opening the session warned of. -/
  warnings : List Warning

/-- Opens a session with the bound of the configuration. -/
def Session.configured (lib : ConfigLibrary) (order : MergeOrder) (engine : Engine)
    (source : ConfigSource) : Opening :=
  let (loaded, notices) := source.load lib order sessionConfigName sessionGroup []
  match loaded >>= configuredBound lib with
  | .error error => ⟨.error error, notices, []⟩
  | .ok bound =>
    let (session, warnings) := Session.start engine bound
    ⟨.ok session, notices, warnings⟩

end Concolic
