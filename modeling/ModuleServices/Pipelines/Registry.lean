import ModuleServices.Pipelines.Service

/-!
# `PipelineRegistry`

Every live pipeline a module registered, for hot reload. A registration is weak: it dies with the
last holder of its slot. `RequestReload` asks; the owner's `Service` starts a reload, which is one
task that starts every rebuild, and finishes it once each rebuild has answered, staging the new
payloads; `Publish` swaps them into their slots. Rebuilds answer from any thread, in any order and
perhaps more than once; the other calls are critical sections of the registry's mutex, or the
owner's alone.

A run (`PipelineRegistryRun`) counts time in its actions, one tick each. It keeps what was asked and
when, and of each registration as of when the pipeline in its slot is known to be that of the
shader files: a build that began at a time read them after it.
-/

namespace ModuleServices

/-! ## Shader file names -/

/-- What follows the last occurrence of `pattern`, which is not empty. -/
def afterLast (pattern : List Char) : List Char → Option (List Char)
  | [] => none
  | c :: rest =>
    match afterLast pattern rest with
    | some found => some found
    | none => if pattern.isPrefixOf (c :: rest) then some ((c :: rest).drop pattern.length) else none

def dropDots : List Char → List Char
  | '.' :: '/' :: rest => dropDots rest
  | name => name

/-- `NormalizeShaderPath`, of a name's characters. -/
def normalizeShaderPath (path : List Char) : List Char :=
  let out := path.map fun c => if c = '\\' then '/' else c.toLower
  dropDots ((afterLast "data/shaders/".toList out).getD out)

/-- `SameShaderFile`. -/
def sameShaderFile (changed source : List Char) : Bool :=
  !source.isEmpty && (changed == source
    || (decide (source.length < changed.length) && source.isSuffixOf changed
      && changed[changed.length - source.length - 1]? == some '/'))

/-! ## The registry -/

/-- A rebuild's result: a payload, or an error, or neither where nothing changed. -/
structure LiveBuild where
  payload : Option PipelinePayload := none
  fingerprint : Nat := 0
  error : String := ""
  deriving DecidableEq, Repr

structure LiveRebuildRequest where
  fingerprint : Nat
  force : Bool
  deriving DecidableEq, Repr

structure LivePipelineDesc where
  id : String
  sources : List (List Char) := []
  deriving DecidableEq, Repr

/-- The slot's payload, and whether somebody still holds the slot. -/
structure LivePipelineSlot where
  payload : PipelinePayload
  held : Bool := true
  deriving DecidableEq, Repr

namespace PipelineRegistry

structure Entry where
  slot : LivePipelineSlot
  desc : LivePipelineDesc
  fingerprint : Nat
  stale : Bool := false
  inBatch : Bool := false
  deriving DecidableEq, Repr

/-- One reload. `results` are the answers so far, `remaining` the count they are awaited with. -/
structure Batch where
  entries : List Nat
  requests : List LiveRebuildRequest
  results : List (Option LiveBuild)
  remaining : Nat
  started : Nat
  deriving DecidableEq, Repr

structure Request where
  asked : Bool := false
  all : Bool := false
  force : Bool := false
  files : List (List Char) := []
  deriving DecidableEq, Repr

structure Staged where
  entry : Nat
  payload : PipelinePayload
  fingerprint : Nat
  deriving DecidableEq, Repr

structure Retired where
  point : Nat
  payload : PipelinePayload
  deriving DecidableEq, Repr

structure ReloadOutcome where
  serial : Nat := 0
  entries : Nat := 0
  rebuilt : Nat := 0
  failed : Nat := 0
  unchanged : Nat := 0
  seconds : Nat := 0
  errors : List String := []
  deriving DecidableEq, Repr

end PipelineRegistry

open PipelineRegistry in
structure PipelineRegistry where
  /-- Every registration made, by its place. -/
  registered : List Entry := []
  /-- Those the registry still has. -/
  entries : List Nat := []
  pruneAt : Nat := 64
  request : Request := {}
  asked : Bool := false
  running : Option Batch := none
  staged : List Staged := []
  outcome : ReloadOutcome := {}
  generation : Nat := 0
  sourcesGeneration : Nat := 0
  retired : List Retired := []
  /-- How often the listeners were told. -/
  notified : Nat := 0

namespace PipelineRegistry

def kMaxErrors : Nat := 8

def expired (s : PipelineRegistry) (i : Nat) : Bool :=
  s.registered[i]?.elim true fun entry => !entry.slot.held

def inBatch (s : PipelineRegistry) (i : Nat) : Bool :=
  s.registered[i]?.elim false fun entry => entry.inBatch

/-- `PruneLocked`. -/
def prune (s : PipelineRegistry) : PipelineRegistry :=
  let entries := s.entries.filter fun i => !(s.expired i && !s.inBatch i)
  { s with entries, pruneAt := max 64 (entries.length * 2) }

/-- `Register`. -/
def register (s : PipelineRegistry) (desc : LivePipelineDesc) (payload : PipelinePayload)
    (fingerprint builtFor : Nat) : PipelineRegistry :=
  let s := if s.pruneAt ≤ s.entries.length then s.prune else s
  let stale := decide (builtFor < s.sourcesGeneration)
  { s with
    registered := s.registered ++ [{
      slot := { payload }
      desc := { desc with sources := desc.sources.map normalizeShaderPath }
      fingerprint, stale }]
    entries := s.entries ++ [s.registered.length]
    asked := s.asked || stale }

/-- `RequestReload`. -/
def requestReload (s : PipelineRegistry) (changedFile : List Char) (force : Bool) :
    PipelineRegistry :=
  let request := { s.request with asked := true, force := s.request.force || force }
  let request :=
    if changedFile = [] then { request with all := true }
    else if request.all then request
    else
      let file := normalizeShaderPath changedFile
      if file ∈ request.files then request else { request with files := request.files ++ [file] }
  { s with request, asked := true }

/-! ## A reload -/

/-- A changed file is one of the entry's. -/
def Entry.names (entry : Entry) (file : List Char) : Bool :=
  entry.desc.sources.any (sameShaderFile file)

/-- A file no entry is built from may be any entry's. -/
def Request.everything (request : Request) (s : PipelineRegistry) : Bool :=
  request.all || request.files.any fun file =>
    !s.entries.any fun i => s.registered[i]?.elim false fun entry => entry.names file

def Request.picks (request : Request) (everything : Bool) (entry : Entry) : Bool :=
  request.asked && (everything || request.files.any entry.names)

/-- The entries a reload takes, in their order. -/
def taken (s : PipelineRegistry) : List Nat :=
  let everything := s.request.everything s
  s.entries.filter fun i => s.registered[i]?.elim false fun entry =>
    !entry.inBatch && entry.slot.held && (s.request.picks everything entry || entry.stale)

/-- Change the entries of a list of places. -/
def modifyEntries (s : PipelineRegistry) (places : List Nat) (f : Entry → Entry) :
    PipelineRegistry :=
  { s with registered := s.registered.mapIdx fun i entry => if i ∈ places then f entry else entry }

/-- `StartBatch`, up to the task that starts the rebuilds. -/
def startBatch (s : PipelineRegistry) (now : Nat) : PipelineRegistry :=
  let s := s.prune
  let everything := s.request.everything s
  let entries := s.taken
  let requests := entries.filterMap fun i => s.registered[i]?.map fun entry =>
    { fingerprint := entry.fingerprint
      force := s.request.picks everything entry && s.request.force : LiveRebuildRequest }
  let moved := s.request.asked
  { s.modifyEntries entries fun entry => { entry with stale := false, inBatch := true } with
    request := {}
    asked := false
    sourcesGeneration := s.sourcesGeneration + if moved then 1 else 0
    running := some
      { entries, requests, results := entries.map fun _ => none
        remaining := entries.length, started := now }
    notified := s.notified + if moved then 1 else 0 }

/-- `Batch::Complete`: a second answer is ignored. -/
def Batch.complete (batch : Batch) (index : Nat) (build : LiveBuild) : Batch :=
  if batch.results[index]? = some none then
    { batch with
      results := batch.results.set index (some build)
      remaining := batch.remaining - 1 }
  else batch

/-- A rebuild answers; `no rebuild function`, a rebuild that throws and a submitter that refuses
answer with their errors. -/
def complete (s : PipelineRegistry) (index : Nat) (build : LiveBuild) : PipelineRegistry :=
  { s with running := s.running.map fun batch => batch.complete index build }

/-- One answer of a finished reload. -/
def finishEntry (s : PipelineRegistry) (i : Nat) (build : LiveBuild) : PipelineRegistry :=
  let s := s.modifyEntries [i] fun entry => { entry with inBatch := false }
  match build.payload with
  | some payload =>
    { s with
      staged := s.staged ++ [{ entry := i, payload, fingerprint := build.fingerprint }]
      outcome := { s.outcome with rebuilt := s.outcome.rebuilt + 1 } }
  | none =>
    if build.error ≠ "" then
      { s with outcome := { s.outcome with
          failed := s.outcome.failed + 1
          errors :=
            if s.outcome.errors.length < kMaxErrors then
              s.outcome.errors ++ [(s.registered[i]?.elim "" fun entry => entry.desc.id)
                ++ ": " ++ build.error]
            else s.outcome.errors } }
    else { s with outcome := { s.outcome with unchanged := s.outcome.unchanged + 1 } }

/-- What the reload's entries were answered. -/
def Batch.answers (batch : Batch) : List (Nat × LiveBuild) :=
  batch.entries.zip (batch.results.map fun result => result.getD {})

/-- `FinishBatch`. -/
def finishBatch (s : PipelineRegistry) (batch : Batch) (now : Nat) : PipelineRegistry :=
  batch.answers.foldl (fun s answer => s.finishEntry answer.1 answer.2)
    { s with
      running := none
      outcome :=
        { serial := s.outcome.serial + 1
          entries := batch.entries.length
          seconds := now - batch.started } }

/-- A reload whose rebuilds are all in is finished. -/
def finish (s : PipelineRegistry) (now : Nat) : PipelineRegistry :=
  match s.running with
  | some batch => if batch.remaining = 0 then s.finishBatch batch now else s
  | none => s

/-- `Service`; `inline` are the answers that come while the reload is started. -/
def service (s : PipelineRegistry) (inline : List (Nat × LiveBuild)) (now : Nat) :
    PipelineRegistry :=
  let s := s.finish now
  if s.running = none ∧ s.asked then
    (inline.foldl (fun s answer => s.complete answer.1 answer.2) (s.startBatch now)).finish now
  else s

/-! ## Publication and retirement -/

/-- One staged payload goes into its slot; one whose slot is gone is dropped. -/
def publishStaged (point : Nat) (s : PipelineRegistry) (item : Staged) : PipelineRegistry :=
  match s.registered[item.entry]? with
  | none => s
  | some entry =>
    if entry.slot.held then
      { s.modifyEntries [item.entry] fun entry => { entry with
          slot := { entry.slot with payload := item.payload }
          fingerprint := item.fingerprint } with
        retired := s.retired ++ [{ point, payload := entry.slot.payload }] }
    else s

/-- How many staged payloads have a slot to go to. -/
def publishable (s : PipelineRegistry) : Nat := s.staged.countP fun item => !s.expired item.entry

/-- `Publish`. -/
def publish (s : PipelineRegistry) (point : Nat) : PipelineRegistry :=
  let changed := if s.publishable = 0 then 0 else 1
  { s.staged.foldl (publishStaged point) { s with staged := [] } with
    generation := s.generation + changed
    notified := s.notified + changed }

/-- `Retire`. -/
def retire (s : PipelineRegistry) (completed : Nat) : PipelineRegistry :=
  { s with retired := s.retired.dropWhile fun entry => decide (entry.point ≤ completed) }

/-- `DrainRetired`. -/
def drainRetired (s : PipelineRegistry) : PipelineRegistry := { s with retired := [], staged := [] }

/-- The last holder of a slot lets it go. -/
def drop (s : PipelineRegistry) (i : Nat) : PipelineRegistry :=
  s.modifyEntries [i] fun entry => { entry with slot := { entry.slot with held := false } }

end PipelineRegistry

/-! ## Runs -/

structure PipelineRegistryRun where
  registry : PipelineRegistry := {}
  time : Nat := 0
  /-- Every file a reload was asked for, with the time; none for every file. -/
  requests : List (Nat × Option (List Char)) := []
  /-- When each generation of the sources began. -/
  moves : List Nat := [0]
  /-- The files the pipeline in the slot is known to be of. -/
  asOf : Nat → Nat := fun _ => 0
  /-- The files a staged pipeline is of. -/
  stagedAsOf : Nat → Nat := fun _ => 0
  /-- The last rebuild failed. -/
  failed : Nat → Bool := fun _ => false

inductive PipelineRegistryAction where
  | register (desc : LivePipelineDesc) (payload : PipelinePayload) (fingerprint builtFor : Nat)
  | requestReload (changedFile : List Char) (force : Bool)
  | complete (index : Nat) (build : LiveBuild)
  | service (inline : List (Nat × LiveBuild))
  | publish (point : Nat)
  | retire (completed : Nat)
  | drainRetired
  | drop (i : Nat)
  deriving DecidableEq, Repr

namespace PipelineRegistryRun

open PipelineRegistry

/-- What the reload answered an entry. -/
def answerOf (batch : Batch) (i : Nat) : Option LiveBuild :=
  (batch.answers.find? fun answer => answer.1 == i).map Prod.snd

/-- The reload's answers as the run takes them: a pipeline is of the files since the reload began,
and so is one that was found unchanged. -/
def finish (r : PipelineRegistryRun) : PipelineRegistryRun :=
  match r.registry.running with
  | none => r
  | some batch =>
    if batch.remaining = 0 then
      { r with
        registry := r.registry.finishBatch batch r.time
        asOf := fun i =>
          match answerOf batch i with
          | some build =>
            if build.payload = none ∧ build.error = "" then batch.started else r.asOf i
          | none => r.asOf i
        stagedAsOf := fun i =>
          match answerOf batch i with
          | some build => if build.payload = none then r.stagedAsOf i else batch.started
          | none => r.stagedAsOf i
        failed := fun i =>
          match answerOf batch i with
          | some build => build.payload = none ∧ build.error ≠ ""
          | none => r.failed i }
    else r

def start (r : PipelineRegistryRun) : PipelineRegistryRun :=
  { r with
    registry := r.registry.startBatch r.time
    moves := if r.registry.request.asked then r.moves ++ [r.time] else r.moves }

def complete (r : PipelineRegistryRun) (answer : Nat × LiveBuild) : PipelineRegistryRun :=
  { r with registry := r.registry.complete answer.1 answer.2 }

def service (r : PipelineRegistryRun) (inline : List (Nat × LiveBuild)) : PipelineRegistryRun :=
  let r := r.finish
  if r.registry.running = none ∧ r.registry.asked then (inline.foldl complete r.start).finish else r

def publish (r : PipelineRegistryRun) (point : Nat) : PipelineRegistryRun :=
  { r with
    registry := r.registry.publish point
    asOf := fun i => if i ∈ r.registry.staged.map Staged.entry then r.stagedAsOf i else r.asOf i }

/-- A registration is made of the files of the generation it was built for, or newer ones. -/
def register (r : PipelineRegistryRun) (desc : LivePipelineDesc) (payload : PipelinePayload)
    (fingerprint builtFor : Nat) : PipelineRegistryRun :=
  { r with
    registry := r.registry.register desc payload fingerprint builtFor
    asOf := fun i => if i = r.registry.registered.length then (r.moves[builtFor]?).getD 0
      else r.asOf i }

def requestReload (r : PipelineRegistryRun) (changedFile : List Char) (force : Bool) :
    PipelineRegistryRun :=
  { r with
    registry := r.registry.requestReload changedFile force
    requests := r.requests ++
      [(r.time, if changedFile = [] then none else some (normalizeShaderPath changedFile))] }

def act (r : PipelineRegistryRun) : PipelineRegistryAction → Option PipelineRegistryRun
  | .register desc payload fingerprint builtFor =>
    if builtFor ≤ r.registry.sourcesGeneration then
      some (r.register desc payload fingerprint builtFor)
    else none
  | .requestReload changedFile force => some (r.requestReload changedFile force)
  | .complete index build => some (r.complete (index, build))
  | .service inline => some (r.service inline)
  | .publish point => some (r.publish point)
  | .retire completed => some { r with registry := r.registry.retire completed }
  | .drainRetired => some { r with registry := r.registry.drainRetired }
  | .drop i => some { r with registry := r.registry.drop i }

def step (r : PipelineRegistryRun) (a : PipelineRegistryAction) : Option PipelineRegistryRun :=
  (r.act a).map fun r => { r with time := r.time + 1 }

/-- No reload begins, and nothing is drained, over payloads that wait for `Publish`. -/
def Orderly (r : PipelineRegistryRun) : PipelineRegistryAction → Prop
  | .service _ => r.finish.registry.running = none → r.finish.registry.asked = true →
      r.finish.registry.staged = []
  | .drainRetired => r.registry.staged = []
  | _ => True

/-- A reload was asked for a file of the entry's, or for every file. -/
def Concerns (entry : Entry) : Option (List Char) → Prop
  | none => True
  | some file => entry.names file = true

end PipelineRegistryRun

end ModuleServices
