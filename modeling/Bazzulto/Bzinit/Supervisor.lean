/-
  Bzinit/Supervisor.lean --- the processes that bzinit starts.

  Embeds the supervisor (userspace/system/bzinit/src/supervisor.rs) and the main function
  around it (userspace/system/bzinit/src/main.rs): the service files are loaded, their
  services started in boot order, and then restarted whenever a child exits.  What the
  kernel answers to each fork, spawn and exec is arbitrary.  A process that was started is
  kept in a log, with the identity in which it goes into its program.  Messages, the state
  file and the pauses before a restart are left out.

  The main result says for which service files and which contents of the user database
  every process of a service gets the ids of the user that the file names.
-/
import Bazzulto.Bzinit.Service
import Bazzulto.Process.Identity

set_option autoImplicit false

namespace Bazzulto.Bzinit

open Foundation List Option Memory Str ServiceDefinition

variable {state next : ServiceState} {passwd : Option (List UInt8)} {content : List UInt8}
  {definition : ServiceDefinition} {user : Str} {ids other : UInt32 × UInt32}

/-! ## Processes -/

/-- The identity of bzinit, which every process it makes starts with. -/
def rootIdentity : Identity := ⟨⟨0, 0, 0⟩, ⟨0, 0, 0⟩⟩

/-- The end of the display pipe that a process gets for its standard streams. -/
inductive Streams where
  | inherited
  | pipeInput
  | pipeOutput
  deriving DecidableEq, Repr

/-- A process that was started. -/
structure Launch where
  file : Nat
  binary : Str
  streams : Streams
  /-- The mask given to `spawn`; `fork` is given none. -/
  capabilities : Option Word
  identity : Identity
  deriving DecidableEq, Repr

/-- What the kernel answers: the result of fork or spawn in bzinit, and the mode, owner and
group of the program file that exec finds, if it does. -/
structure Answer where
  result : Int
  program : Option (Nat × UInt32 × UInt32)
  deriving DecidableEq, Repr

/-- `as i32`. -/
def asI32 (value : Int) : Int := (BitVec.ofInt 32 value).toInt

/-- The services, and the processes that were started so far. -/
structure Supervisor where
  services : List ServiceState
  launches : List Launch
  deriving DecidableEq, Repr

/-- The identity in which the child of `do_spawn` ends: after `setgid`, `setuid` and, where
it succeeds, `exec`. -/
def childIdentity (uid gid : UInt32) (program : Option (Nat × UInt32 × UInt32)) : Identity :=
  let dropped := ((rootIdentity.sysSetgid gid).1.sysSetuid uid).1
  match program with
  | none => dropped
  | some (mode, owner, group) => dropped.exec mode owner group

/-- `do_spawn`: the state of the service afterwards and the process that was started. -/
def doSpawn (state : ServiceState) (binary : Str) (streams : Streams) (answer : Answer) :
    ServiceState × Option Launch :=
  let name := (binary.take 511).takeWhile (· ≠ 0)
  match state.definition.runAsUid, state.definition.runAsGid with
  | some uid, some gid =>
    if answer.result < 0 then ({ state with status := .failed }, none)
    else
      ({ state with pid := asI32 answer.result, status := .running },
        some ⟨state.file, name, streams, none, childIdentity uid gid answer.program⟩)
  | _, _ =>
    if answer.result < 0 then ({ state with status := .failed }, none)
    else
      ({ state with pid := asI32 answer.result, status := .running },
        some ⟨state.file, name, streams, some state.definition.capabilities, rootIdentity⟩)

section

variable (displayPipe : Bool) (state : ServiceState)

def spawnWithBinary (binary : Str) (answer : Answer) : ServiceState × Option Launch :=
  let streams : Streams :=
    if displayPipe then
      if state.definition.isDisplayServer then .pipeInput
      else if state.definition.displayOutput then .pipeOutput
      else .inherited
    else .inherited
  doSpawn { state with status := .starting } binary streams answer

def spawnService (answer : Answer) : ServiceState × Option Launch :=
  spawnWithBinary displayPipe state state.definition.binary answer

/-- The body of `handle_child_exit` for the service that had the process. -/
def restart (answer : Answer) : ServiceState × Option Launch :=
  let state := { state with pid := 0 }
  if state.status = .stopped then (state, none)
  else
    let state := { state with status := .failed }
    match state.definition.restartStrategy with
    | .never => (state, none)
    | .always => spawnService displayPipe state answer
    | .exponentialBackoff =>
      if state.definition.maxRetries.toNat ≤ state.retryCount then
        match state.definition.fallback with
        | some fallback => spawnWithBinary displayPipe state fallback answer
        | none => ({ state with status := .failed }, none)
      else
        spawnService displayPipe { state with retryCount := state.retryCount + 1 } answer

end

namespace Supervisor

/-- Run one of the functions above on `services[index]`. -/
def act (supervisor : Supervisor) (index : Nat)
    (f : ServiceState → ServiceState × Option Launch) : Checked Supervisor :=
  match supervisor.services[index]? with
  | none => .error .index
  | some state =>
    .ok ⟨supervisor.services.set index (f state).1, supervisor.launches ++ (f state).2.toList⟩

def handleChildExit (displayPipe : Bool) (supervisor : Supervisor) (pid : Int)
    (answer : Answer) : Checked Supervisor :=
  match supervisor.services.findIdx? fun state => state.pid = pid with
  | none => .ok supervisor
  | some index => supervisor.act index fun state => restart displayPipe state answer

/-- One turn of the wait loop: the child that `wait` found, and what the kernel answers if
its service is started again. -/
def waitTurn (displayPipe : Bool) (supervisor : Supervisor) (turn : Int × Answer) :
    Checked Supervisor :=
  if 0 < turn.1 then supervisor.handleChildExit displayPipe (asI32 turn.1) turn.2
  else .ok supervisor

end Supervisor

/-- `load_service_files`: the contents of the service files in order, `none` for one that
cannot be opened or read. -/
def loadServiceFiles (passwd : Option (List UInt8)) (files : List (Option (List UInt8))) :
    Checked (List ServiceState) :=
  files.zipIdx.foldlM
    (fun states (content, file) =>
      match content with
      | none => .ok states
      | some content => do
          match ← fromBytes passwd content with
          | some definition => pure (states ++ [{ definition, file }])
          | none => pure states)
    []

/-- What happens outside of bzinit. -/
structure World where
  passwd : Option (List UInt8)
  files : List (Option (List UInt8))
  displayPipe : Bool
  /-- What the kernel answers when the services are first started, by turn. -/
  boot : Nat → Answer

open World

def bootServices (world : World) (services : List ServiceState) : Checked Supervisor :=
  (topologicalOrder services).zipIdx.foldlM
    (fun supervisor (index, turn) =>
      supervisor.act index fun state => spawnService world.displayPipe state (world.boot turn))
    ⟨services, []⟩

/-- `main`, with the turns of the wait loop so far. -/
def main (world : World) (turns : List (Int × Answer)) : Checked Supervisor := do
  let services ← loadServiceFiles world.passwd world.files
  let supervisor ← bootServices world services
  turns.foldlM (Supervisor.waitTurn world.displayPipe) supervisor

/-! ## Where processes come from -/

/-- The real ids of the processes of a service: those of its user, or those of bzinit. -/
def ServiceDefinition.runIds (definition : ServiceDefinition) : UInt32 × UInt32 :=
  match definition.runAsUid, definition.runAsGid with
  | some uid, some gid => (uid, gid)
  | _, _ => (0, 0)

/-- The process belongs to the file and has the real ids of the definition. -/
structure Launch.Of (launch : Launch) (file : Nat) (definition : ServiceDefinition) : Prop where
  file : launch.file = file
  uid : launch.identity.user.real = definition.runIds.1
  gid : launch.identity.group.real = definition.runIds.2

/-- A function on one service keeps what the service file said, and starts at most one
process, of this service. -/
structure Starts (state : ServiceState) (result : ServiceState × Option Launch) : Prop where
  definition : result.1.definition = state.definition
  file : result.1.file = state.file
  launch : ∀ launch ∈ result.2, launch.Of state.file state.definition

theorem childIdentity_real (uid gid : UInt32) (program : Option (Nat × UInt32 × UInt32)) :
    (childIdentity uid gid program).user.real = uid ∧
      (childIdentity uid gid program).group.real = gid := by
  cases program with
  | none => exact ⟨rfl, rfl⟩
  | some program => exact ⟨Ids.exec_real _ _, Ids.exec_real _ _⟩

theorem starts_none (hdefinition : next.definition = state.definition)
    (hfile : next.file = state.file) : Starts state (next, none) where
  definition := hdefinition
  file := hfile
  launch := fun _ hmem => absurd hmem (not_mem_none _)

variable {launch : Launch}

theorem starts_some (hdefinition : next.definition = state.definition)
    (hfile : next.file = state.file) (hlaunch : launch.Of state.file state.definition) :
    Starts state (next, some launch) where
  definition := hdefinition
  file := hfile
  launch := fun _ hmem => mem_some.mp hmem ▸ hlaunch

theorem starts_doSpawn (state : ServiceState) (binary : Str) (streams : Streams)
    (answer : Answer) : Starts state (doSpawn state binary streams answer) := by
  unfold doSpawn
  split
  next uid gid huid hgid =>
    split
    · exact starts_none rfl rfl
    obtain ⟨hreal, hreal'⟩ := childIdentity_real uid gid answer.program
    refine starts_some rfl rfl ⟨rfl, ?_, ?_⟩
    · rw [hreal, runIds, huid, hgid]
    · rw [hreal', runIds, huid, hgid]
  next hnone =>
    split
    · exact starts_none rfl rfl
    have hroot : state.definition.runIds = (0, 0) := by
      unfold runIds
      split
      next uid gid huid hgid =>
        exact absurd hgid (hnone uid gid huid)
      · rfl
    exact starts_some rfl rfl ⟨rfl, by rw [hroot]; rfl, by rw [hroot]; rfl⟩

theorem Starts.of_same {state' : ServiceState} {result : ServiceState × Option Launch}
    (h : Starts state' result) (hdefinition : state'.definition = state.definition)
    (hfile : state'.file = state.file) : Starts state result where
  definition := h.definition.trans hdefinition
  file := h.file.trans hfile
  launch := fun launch hmem => hdefinition ▸ hfile ▸ h.launch launch hmem

theorem starts_spawnWithBinary (displayPipe : Bool) (state : ServiceState) (binary : Str)
    (answer : Answer) : Starts state (spawnWithBinary displayPipe state binary answer) :=
  (starts_doSpawn _ binary _ answer).of_same rfl rfl

theorem starts_restart (displayPipe : Bool) (state : ServiceState) (answer : Answer) :
    Starts state (restart displayPipe state answer) := by
  unfold restart
  dsimp only
  split
  · exact starts_none rfl rfl
  split
  · exact starts_none rfl rfl
  · exact (starts_spawnWithBinary displayPipe _ _ answer).of_same rfl rfl
  split
  · split
    · exact (starts_spawnWithBinary displayPipe _ _ answer).of_same rfl rfl
    · exact starts_none rfl rfl
  · exact (starts_spawnWithBinary displayPipe _ _ answer).of_same rfl rfl

/-! ## Runs -/

/-- The definition is what the file with this number says. -/
def World.Defines (world : World) (file : Nat) (definition : ServiceDefinition) : Prop :=
  ∃ content, world.files[file]? = some (some content) ∧
    fromBytes world.passwd content = .ok (some definition)

/-- Every service and every process comes from a service file. -/
structure Traced (world : World) (supervisor : Supervisor) : Prop where
  services : ∀ state ∈ supervisor.services, world.Defines state.file state.definition
  launches : ∀ launch ∈ supervisor.launches, ∃ definition,
    world.Defines launch.file definition ∧ launch.Of launch.file definition

variable {world : World} {supervisor : Supervisor}

theorem Traced.act {next : Supervisor} (h : Traced world supervisor) {index : Nat}
    {f : ServiceState → ServiceState × Option Launch} (hf : ∀ state, Starts state (f state))
    (hact : supervisor.act index f = .ok next) : Traced world next := by
  unfold Supervisor.act at hact
  split at hact
  · cases hact
  rename_i state hstate
  cases hact
  have hdefines := h.services state (mem_of_getElem? hstate)
  constructor
  · intro other hother
    rcases mem_or_eq_of_mem_set hother with hold | rfl
    · exact h.services other hold
    · rw [(hf state).definition, (hf state).file]
      exact hdefines
  · intro launch hlaunch
    rcases mem_append.mp hlaunch with hold | hnew
    · exact h.launches launch hold
    · have hof := (hf state).launch launch (mem_toList.mp hnew)
      exact ⟨state.definition, hof.file ▸ hdefines, hof.file ▸ hof⟩

theorem Traced.waitTurn {next : Supervisor} (h : Traced world supervisor) {displayPipe : Bool}
    {turn : Int × Answer} (hturn : supervisor.waitTurn displayPipe turn = .ok next) :
    Traced world next := by
  unfold Supervisor.waitTurn Supervisor.handleChildExit at hturn
  split at hturn
  · split at hturn
    · cases hturn
      exact h
    · exact h.act (fun state => starts_restart displayPipe state turn.2) hturn
  · cases hturn
    exact h

/-- The loaded services are those that the files define. -/
theorem defines_of_load {services : List ServiceState}
    (hload : loadServiceFiles world.passwd world.files = .ok services) :
    ∀ state ∈ services, world.Defines state.file state.definition := by
  have hloop := foldlM_invariant
    (fun (done : List (Option (List UInt8) × Nat)) (states : List ServiceState) =>
      (∀ item ∈ done, world.files[item.2]? = some item.1) →
        ∀ state ∈ states, world.Defines state.file state.definition)
    (fun done item states next hinv hbody hdone => ?_)
    world.files.zipIdx [] [] services (fun _ state hstate => absurd hstate not_mem_nil) hload
  · refine hloop fun item hitem => ?_
    exact (mem_zipIdx_iff_getElem?.mp hitem)
  have hold := hinv fun item hitem => hdone item (mem_append_left _ hitem)
  have hitem := hdone item (mem_append_right _ (mem_singleton_self item))
  obtain ⟨content, _⟩ := item
  dsimp only at hbody hitem
  split at hbody
  · cases hbody
    exact hold
  rename_i content
  cases hparsed : fromBytes world.passwd content with
  | error fault =>
    rw [hparsed] at hbody
    cases hbody
  | ok parsed =>
    rw [hparsed] at hbody
    cases parsed with
    | none =>
      cases hbody
      exact hold
    | some definition =>
      cases hbody
      intro state hstate
      rcases mem_append.mp hstate with hmem | hmem
      · exact hold state hmem
      · rw [mem_singleton.mp hmem]
        exact ⟨content, hitem, hparsed⟩

theorem traced_main {turns : List (Int × Answer)} (h : main world turns = .ok supervisor) :
    Traced world supervisor := by
  obtain ⟨services, hload, h⟩ := exists_of_bind_eq_ok h
  obtain ⟨booted, hboot, h⟩ := exists_of_bind_eq_ok h
  have hstart : Traced world ⟨services, []⟩ :=
    ⟨defines_of_load hload, fun _ hmem => absurd hmem not_mem_nil⟩
  have hbooted : Traced world booted :=
    foldlM_invariant (fun _ supervisor => Traced world supervisor)
      (fun _ item _ _ htraced hact => htraced.act
        (fun state => starts_spawnWithBinary world.displayPipe state _ _) hact)
      _ [] ⟨services, []⟩ booted hstart hboot
  exact foldlM_invariant (fun _ supervisor => Traced world supervisor)
    (fun _ _ _ _ htraced hturn => htraced.waitTurn hturn)
    turns [] booted supervisor hbooted h

/-! ## The user of a service -/

/-- The user that a service file names. -/
def userOf (content : List UInt8) : Option Str :=
  match parse content with
  | .ok toml => toml.service "user"
  | .error _ => none

/-- The file parses, and it has the keys that a service needs. -/
def IsService (content : List UInt8) : Prop :=
  ∃ toml, parse content = .ok toml ∧ (toml.service "name").isSome = true ∧
    (toml.service "binary").isSome = true

/-- The first well-formed line of the whole user database that names the user has these
ids. -/
def NamedIds (passwd : Option (List UInt8)) (user : Str) (ids : UInt32 × UInt32) : Prop :=
  ∃ file, passwd = some file ∧ FirstIds user ids file

/-- What is asked of a process of a service: it has the ids of the user, and if the database
has no line for the user it does not run as root. -/
structure RunsAs (passwd : Option (List UInt8)) (user : Option Str) (identity : Identity) :
    Prop where
  named : ∀ name ids, user = some name → NamedIds passwd name ids →
    identity.user.real = ids.1 ∧ identity.group.real = ids.2
  unnamed : (∀ name ids, user = some name → ¬ NamedIds passwd name ids) → identity.user.real ≠ 0

/-- Every process that is ever started for the service file runs as it should, whatever
other files there are, whatever the kernel answers and whatever children exit. -/
def RunsAsUser (passwd : Option (List UInt8)) (content : List UInt8) : Prop :=
  ∀ world turns supervisor, world.passwd = passwd → main world turns = .ok supervisor →
    ∀ launch ∈ supervisor.launches, world.files[launch.file]? = some (some content) →
      RunsAs passwd (userOf content) launch.identity

/-- What the first 1024 bytes of the database lead to is right for the whole of it. -/
inductive Found (passwd : Option (List UInt8)) (user : Option Str) : Prop where
  /-- They are UTF-8, and they lead to the same ids. -/
  | same (name : Str) (ids : UInt32 × UInt32) (hname : user = some name)
      (hnamed : NamedIds passwd name ids) (hresolves : Resolves passwd name ids)
  /-- They lead to none, but the user is root. -/
  | root (name : Str) (hname : user = some name) (hnamed : NamedIds passwd name (0, 0))
      (hnone : ∀ ids, ¬ Resolves passwd name ids)
  /-- The only line for the user is well-formed because it is cut off, and it is not for
  root. -/
  | cut (name : Str) (ids : UInt32 × UInt32) (hname : user = some name)
      (hunnamed : ∀ other, ¬ NamedIds passwd name other) (hresolves : Resolves passwd name ids)
      (hnonzero : ids.1 ≠ 0)

/-- The ids that the processes of a service get. -/
theorem runIds_cases (h : fromBytes passwd content = .ok (some definition)) :
    (∃ name, userOf content = some name ∧ Resolves passwd name definition.runIds) ∨
      definition.runIds = (0, 0) ∧
        ∀ name ids, userOf content = some name → ¬ Resolves passwd name ids := by
  unfold userOf
  obtain ⟨toml, hparse, hdefinition⟩ := exists_of_map_eq_ok h
  rw [hparse]
  obtain ⟨_, -, hmap⟩ := bind_eq_some_iff.mp hdefinition
  obtain ⟨_, -, rfl⟩ := map_eq_some_iff.mp hmap
  dsimp only [runIds]
  cases huser : toml.service "user" with
  | none => exact .inr ⟨rfl, fun _ _ hname => by cases hname⟩
  | some user =>
    dsimp only [runAs]
    rcases resolveUser_cases passwd user with ⟨ids, hresolves, hids⟩ | ⟨hnone, hids⟩
    · rw [hids]
      exact .inl ⟨user, rfl, hresolves⟩
    rw [hids]
    refine .inr ⟨rfl, fun other ids hname => ?_⟩
    cases hname
    exact hnone ids

theorem Resolves.unique (h : Resolves passwd user ids) (h' : Resolves passwd user other) :
    ids = other := by
  obtain ⟨_, hfile, -, hfirst⟩ := h
  obtain ⟨_, hfile', -, hfirst'⟩ := h'
  rw [hfile] at hfile'
  cases hfile'
  exact hfirst.unique hfirst'

theorem NamedIds.unique (h : NamedIds passwd user ids) (h' : NamedIds passwd user other) :
    ids = other := by
  obtain ⟨_, hfile, hfirst⟩ := h
  obtain ⟨_, hfile', hfirst'⟩ := h'
  rw [hfile] at hfile'
  cases hfile'
  exact hfirst.unique hfirst'

/-- The ids that the service file leads to are the right ones exactly if the user is
found. -/
theorem runsAs_iff_found {file : Nat}
    (h : fromBytes passwd content = .ok (some definition))
    (hlaunch : launch.Of file definition) :
    RunsAs passwd (userOf content) launch.identity ↔ Found passwd (userOf content) := by
  constructor
  · intro hruns
    by_cases hnamed : ∃ name ids, userOf content = some name ∧ NamedIds passwd name ids
    · obtain ⟨name, ids, hname, hids⟩ := hnamed
      obtain ⟨huid, hgid⟩ := hruns.named name ids hname hids
      rw [hlaunch.uid] at huid
      rw [hlaunch.gid] at hgid
      have hsame : definition.runIds = ids := Prod.ext huid hgid
      rcases runIds_cases h with ⟨name', hname', hresolves⟩ | ⟨hroot, hnone⟩
      · rw [hname] at hname'
        cases hname'
        exact .same name ids hname hids (hsame ▸ hresolves)
      · rw [← hsame, hroot] at hids
        exact .root name hname hids fun other => hnone name other hname
    · have hunnamed : ∀ name ids, userOf content = some name → ¬ NamedIds passwd name ids :=
        fun name ids hname hids => hnamed ⟨name, ids, hname, hids⟩
      have hnonzero := hruns.unnamed hunnamed
      rw [hlaunch.uid] at hnonzero
      rcases runIds_cases h with ⟨name, hname, hresolves⟩ | ⟨hroot, -⟩
      · exact .cut name _ hname (fun other => hunnamed name other hname) hresolves hnonzero
      · rw [hroot] at hnonzero
        exact absurd rfl hnonzero
  · intro hfound
    have hof : ∀ {name ids}, userOf content = some name → Resolves passwd name ids →
        definition.runIds = ids := by
      intro name ids hname hresolves
      rcases runIds_cases h with ⟨name', hname', hresolves'⟩ | ⟨-, hnone⟩
      · rw [hname] at hname'
        cases hname'
        exact hresolves'.unique hresolves
      · exact absurd hresolves (hnone name ids hname)
    have hright : ∀ {name}, userOf content = some name → NamedIds passwd name definition.runIds →
        RunsAs passwd (userOf content) launch.identity := by
      intro name hname hids
      refine ⟨fun name' ids' hname' hids' => ?_, fun hnone => absurd hids (hnone name _ hname)⟩
      rw [hname] at hname'
      cases hname'
      rw [hlaunch.uid, hlaunch.gid, hids.unique hids']
      exact ⟨rfl, rfl⟩
    cases hfound with
    | same name ids hname hnamed hresolves => exact hright hname (hof hname hresolves ▸ hnamed)
    | root name hname hnamed hnone =>
      refine hright hname ?_
      rcases runIds_cases h with ⟨name', hname', hresolves⟩ | ⟨hroot, -⟩
      · rw [hname] at hname'
        cases hname'
        exact absurd hresolves (hnone _)
      · rw [hroot]
        exact hnamed
    | cut name ids hname hunnamed hresolves hnonzero =>
      refine ⟨fun name' ids' hname' hids' => ?_, fun _ => ?_⟩
      · rw [hname] at hname'
        cases hname'
        exact absurd hids' (hunnamed ids')
      · rw [hlaunch.uid, hof hname hresolves]
        exact hnonzero

/-! ## One service alone -/

/-- The boot of a single service, every call of which the kernel grants. -/
def World.single (passwd : Option (List UInt8)) (content : List UInt8) : World where
  passwd
  files := [some content]
  displayPipe := false
  boot := fun _ => ⟨1, none⟩

theorem topologicalOrder_single (state : ServiceState) : topologicalOrder [state] = [0] := by
  unfold topologicalOrder
  by_cases hfree : inDegree [state] 0 = 0
  · simp [hfree, kahn]
  · simp [hfree, kahn]

/-- Its process is started. -/
theorem main_single (h : fromBytes passwd content = .ok (some definition)) :
    ∃ supervisor launch, main (single passwd content) [] = .ok supervisor ∧
      launch ∈ supervisor.launches ∧ launch.Of 0 definition := by
  let state : ServiceState := { definition, file := 0 }
  have hload : loadServiceFiles passwd [some content] = .ok [state] := by
    unfold loadServiceFiles
    rw [zipIdx_cons, foldlM_cons]
    dsimp only
    rw [h]
    rfl
  have hstarts := starts_spawnWithBinary false state definition.binary ⟨1, none⟩
  obtain ⟨launch, hlaunch⟩ :
      ∃ launch, (spawnWithBinary false state definition.binary ⟨1, none⟩).2 = some launch := by
    unfold spawnWithBinary doSpawn
    dsimp only
    split
    · exact ⟨_, rfl⟩
    · exact ⟨_, rfl⟩
  have hboot : bootServices (single passwd content) [state] =
      .ok ⟨[(spawnWithBinary false state definition.binary ⟨1, none⟩).1], [launch]⟩ := by
    unfold bootServices
    rw [topologicalOrder_single, zipIdx_cons, foldlM_cons]
    dsimp only [Supervisor.act, List.getElem?_cons_zero, spawnService, single]
    rw [hlaunch]
    rfl
  refine ⟨⟨[(spawnWithBinary false state definition.binary ⟨1, none⟩).1], [launch]⟩, launch, ?_,
    mem_singleton_self launch, hstarts.launch launch hlaunch⟩
  unfold main
  dsimp only [single]
  rw [hload]
  change (bootServices (single passwd content) [state] >>= _) = _
  rw [hboot]
  rfl

theorem fromBytes_of_isService (h : IsService content) (passwd : Option (List UInt8)) :
    ∃ definition, fromBytes passwd content = .ok (some definition) := by
  obtain ⟨toml, hparse, hname, hbinary⟩ := h
  obtain ⟨_, hname⟩ := isSome_iff_exists.mp hname
  obtain ⟨_, hbinary⟩ := isSome_iff_exists.mp hbinary
  unfold fromBytes
  rw [hparse]
  change ∃ definition, Except.ok (ofToml passwd toml) = _
  rw [ofToml, hname, hbinary]
  exact ⟨_, rfl⟩

theorem isService_of_fromBytes
    (h : fromBytes passwd content = .ok (some definition)) :
    IsService content := by
  obtain ⟨toml, hparse, hdefinition⟩ := exists_of_map_eq_ok h
  obtain ⟨_, hname, hmap⟩ := bind_eq_some_iff.mp hdefinition
  obtain ⟨_, hbinary, -⟩ := map_eq_some_iff.mp hmap
  exact ⟨toml, hparse, by rw [hname]; rfl, by rw [hbinary]; rfl⟩

/-- For every service file and every content of the user database: every process of the
service runs as its user exactly if the file defines no service or the user is found. -/
theorem runs_as_user_iff (passwd : Option (List UInt8)) (content : List UInt8) :
    RunsAsUser passwd content ↔ (IsService content → Found passwd (userOf content)) := by
  constructor
  · intro hruns hservice
    obtain ⟨definition, hdefinition⟩ := fromBytes_of_isService hservice passwd
    obtain ⟨supervisor, launch, hmain, hlaunch, hof⟩ := main_single hdefinition
    have hfile : (World.single passwd content).files[launch.file]? = some (some content) := by
      rw [hof.file]
      rfl
    have hlaunched := hruns (World.single passwd content) [] supervisor rfl hmain launch hlaunch
      hfile
    exact (runsAs_iff_found hdefinition hof).mp hlaunched
  · intro hfound _ _ _ hpasswd hmain launch hlaunch hfile
    obtain ⟨_, ⟨_, hfile', hdefinition⟩, hof⟩ :=
      (traced_main hmain).launches launch hlaunch
    rw [hfile] at hfile'
    cases hfile'
    rw [hpasswd] at hdefinition
    exact (runsAs_iff_found hdefinition hof).mpr (hfound (isService_of_fromBytes hdefinition))

/-- A service file that names a user. -/
def bobService : List UInt8 := ascii "[Service]\nname=a\nbinary=/a\nuser=bob\n"

/-- A user database without that user. -/
def rootPasswd : List UInt8 := ascii "root:x:0:0:\n"

/-- The service of the unknown user runs as root. -/
theorem unknown_user_runs_as_root :
    userOf bobService = some (ascii "bob") ∧
      (∀ ids, ¬ NamedIds (some rootPasswd) (ascii "bob") ids) ∧
      ∃ supervisor launch, main (World.single (some rootPasswd) bobService) [] = .ok supervisor ∧
        launch ∈ supervisor.launches ∧ launch.file = 0 ∧ launch.identity.user.real = 0 ∧
        ¬ RunsAsUser (some rootPasswd) bobService := by
  have huser : userOf bobService = some (ascii "bob") := by decide +kernel
  have hunnamed : ∀ ids, ¬ NamedIds (some rootPasswd) (ascii "bob") ids := by
    rintro ids ⟨_, hfile, hfirst⟩
    cases hfile
    have hnone : (lines rootPasswd).findSome? (lineIds (ascii "bob")) = none := by
      decide +kernel
    rw [findSome_lineIds_iff.mpr hfirst] at hnone
    cases hnone
  have hmain : (main (World.single (some rootPasswd) bobService) []).toOption.bind
      (fun supervisor => supervisor.launches.head?.map fun launch =>
        (launch.file, launch.identity.user.real)) = some (0, 0) := by
    decide +kernel
  obtain ⟨supervisor, hmain, hhead⟩ := bind_eq_some_iff.mp hmain
  obtain ⟨launch, hlaunch, hids⟩ := map_eq_some_iff.mp hhead
  have hok := eq_ok_of_toOption hmain
  rw [Prod.mk.injEq] at hids
  obtain ⟨hfile, hroot⟩ := hids
  have hmem : launch ∈ supervisor.launches := mem_of_mem_head? hlaunch
  refine ⟨huser, hunnamed, supervisor, launch, hok, hmem, hfile, hroot, fun hruns => ?_⟩
  have hlaunched := hruns _ [] supervisor rfl hok launch hmem (by rw [hfile]; rfl)
  refine hlaunched.unnamed (fun name ids hname => ?_) hroot
  cases hname
  exact hunnamed ids

end Bazzulto.Bzinit
