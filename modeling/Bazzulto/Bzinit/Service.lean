/-
  Bzinit/Service.lean --- services and their boot order.

  Embeds `ServiceDefinition::from_bytes` (userspace/system/bzinit/src/service.rs) and
  `topological_order` (userspace/system/bzinit/src/dependency.rs).  `start_time_seconds`,
  which nothing reads, is left out.
-/
import Bazzulto.Bzinit.Passwd
import Bazzulto.Permission.Capability

set_option autoImplicit false

namespace Bazzulto.Bzinit

open Foundation Memory Permission Str

/-! ## Definitions -/

inductive RestartStrategy where
  | never
  | always
  | exponentialBackoff
  deriving DecidableEq, Repr

def RestartStrategy.fromStr (value : Str) : RestartStrategy :=
  if value = ascii "always" then .always
  else if value = ascii "exponential-backoff" then .exponentialBackoff
  else .never

structure ServiceDefinition where
  name : Str
  binary : Str
  after : List Str
  maxRetries : UInt32
  restartStrategy : RestartStrategy
  fallback : Option Str
  capabilities : Word
  displayOutput : Bool
  isDisplayServer : Bool
  runAsUid : Option UInt32
  runAsGid : Option UInt32
  deriving DecidableEq, Repr

def parseCapabilities (names : List Str) : Word :=
  names.foldl
    (fun mask name =>
      if name = ascii "display" then mask ||| capDisplay
      else if name = ascii "setcap" then mask ||| capSetcap
      else mask)
    0#64

/-- The value of a key in the section `[Service]`. -/
def ParsedToml.service (toml : ParsedToml) (key : String) : Option Str :=
  toml.getString (ascii "Service") (ascii key)

section

variable (passwd : Option (List UInt8))

/-- The ids of the user that a service file names, if it names one. -/
def runAs : Option Str → Option UInt32 × Option UInt32
  | some username => resolveUser passwd username
  | none => (none, none)

/-- The rest of `from_bytes`, once the file is parsed. -/
def ServiceDefinition.ofToml (toml : ParsedToml) : Option ServiceDefinition :=
  (toml.service "name").bind fun name =>
    (toml.service "binary").map fun binary =>
      { name
        binary
        after := toml.getArray (ascii "Service") (ascii "after")
        maxRetries := ((toml.service "max_retries").bind parseU32).getD 3
        restartStrategy := .fromStr ((toml.service "restart").getD (ascii "never"))
        fallback := toml.service "fallback"
        capabilities := parseCapabilities (toml.getArray (ascii "Service") (ascii "capabilities"))
        displayOutput := toml.service "display_output" == some (ascii "true")
        isDisplayServer := toml.service "is_display_server" == some (ascii "true")
        runAsUid := (runAs passwd (toml.service "user")).1
        runAsGid := (runAs passwd (toml.service "user")).2 }

def ServiceDefinition.fromBytes (content : List UInt8) : Checked (Option ServiceDefinition) :=
  ServiceDefinition.ofToml passwd <$> parse content

end

/-! ## State -/

inductive ServiceStatus where
  | pending
  | starting
  | running
  | failed
  | stopped
  deriving DecidableEq, Repr

/-- `ServiceState`, with the number of the file that defines the service. -/
structure ServiceState where
  definition : ServiceDefinition
  file : Nat
  status : ServiceStatus := .pending
  pid : Int := 0
  retryCount : Nat := 0
  deriving DecidableEq, Repr

/-! ## Boot order -/

section

variable (services : List ServiceState)

/-- For each name in an `after` list that some service has, the first such service and the
one that waits for it, in the order in which `topological_order` meets them. -/
def dependencies : List (Nat × Nat) :=
  services.zipIdx.flatMap fun (state, dependent) =>
    state.definition.after.filterMap fun name =>
      (services.findIdx? fun other => other.definition.name = name).map fun dependency =>
        (dependency, dependent)

/-- `dependents[index]`. -/
def dependents (index : Nat) : List Nat :=
  ((dependencies services).filter fun edge => edge.1 = index).map Prod.snd

/-- `in_degree[index]` at the start. -/
def inDegree (index : Nat) : Nat :=
  (dependencies services).countP fun edge => edge.2 = index

end

/-- One dependent of a service that was put in the order. -/
def release (state : (Nat → Nat) × List Nat) (dependent : Nat) : (Nat → Nat) × List Nat :=
  let degree := Function.update state.1 dependent (state.1 dependent - 1)
  (degree, if degree dependent = 0 then state.2 ++ [dependent] else state.2)

/-- The loop of Kahn's algorithm.  Every turn puts one service in the order, so as many
turns as there are services are enough. -/
def kahn (services : List ServiceState) : Nat → (Nat → Nat) → List Nat → List Nat → List Nat
  | 0, _, _, order => order
  | _ + 1, _, [], order => order
  | turns + 1, degree, current :: queue, order =>
    let (degree, queue) := (dependents services current).foldl release (degree, queue)
    kahn services turns degree queue (order ++ [current])

def topologicalOrder (services : List ServiceState) : List Nat :=
  let count := services.length
  let queue := (List.range count).filter fun index => inDegree services index = 0
  let order := kahn services count (inDegree services) queue []
  if order.length < count then
    order ++ (List.range count).filter fun index => !order.contains index
  else order

end Bazzulto.Bzinit
