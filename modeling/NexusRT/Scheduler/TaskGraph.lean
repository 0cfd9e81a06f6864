import Mathlib.Data.List.Sort
import NexusRT.Firmware.MicroKernel
import NexusRT.Library.Kahn

namespace NexusRT.Scheduler

open Firmware

structure StageContract where
  name : String
  moduleName : String := ""
  functionName : String := ""
  tokenBudget : UInt32 := 0
  smFootprintMb : UInt32 := 0
  memFootprintMb : UInt32 := 0
  grid : Dim3 := {}
  block : Dim3 := {}
  sharedMemBytes : UInt32 := 0
  dependsOn : List String := []
  kernelArgs : List Ptr := []

inductive StageState
  | pending | ready | running | completed | failed
  deriving DecidableEq, Repr

structure StageNode where
  contract : StageContract
  state : StageState := .pending
  stream : Ptr := 0
  lastStatus : Int := 0

/-- Ghost record of one call of `MicroKernel::launch`: the stage and the states at that moment. -/
structure Launch where
  stage : String
  states : String → Option StageState

/-- `launches` is ghost state, the latest call first. -/
structure TaskGraph where
  nodes : Table String StageNode := .empty
  validated : Bool := false
  launches : List Launch := []

namespace TaskGraph

def state (g : TaskGraph) (k : String) : Option StageState := (g.nodes.find k).map StageNode.state

def dependsOn (g : TaskGraph) (k : String) : List String :=
  match g.nodes.find k with
  | none => []
  | some n => n.contract.dependsOn

def setNode (g : TaskGraph) (k : String) (n : StageNode) : TaskGraph :=
  { g with nodes := g.nodes.modify k (fun _ => n) }

def noteLaunch (g : TaskGraph) (k : String) : TaskGraph :=
  { g with launches := ⟨k, g.state⟩ :: g.launches }

def addStage (g : TaskGraph) (c : StageContract) : Status × TaskGraph :=
  if c.name = "" then (.invalidArgument, g)
  else if g.nodes.contains c.name then (.invalidArgument, g)
  else (.ok, { g with nodes := g.nodes.insert c.name { contract := c }, validated := false })

/-- How many stages Kahn's pass pops. Every stage is popped at most once, so the fuel lasts. -/
def visited (g : TaskGraph) : ℕ :=
  ((Kahn.run g.nodes.keys g.dependsOn (g.nodes.keys.insertionSort (· ≤ ·)) (g.nodes.size + 1)).map
    List.length).getD 0

def validate (dev : DeviceDesc) (g : TaskGraph) : Status × TaskGraph :=
  if g.nodes.entries.any (fun e => e.2.contract.dependsOn.any (fun d => !g.nodes.contains d)) then
    (.invalidArgument, g)
  else if g.visited ≠ g.nodes.size then (.invalidArgument, g)
  else if g.nodes.entries.any (fun e => e.2.contract.smFootprintMb > dev.smemPerSmBytes / 1024) then
    (.contractViolation, g)
  else (.ok, { g with validated := true })

def readyToRun (g : TaskGraph) (n : StageNode) : Bool :=
  n.state = .pending && n.contract.dependsOn.all (fun d =>
    match g.nodes.find d with
    | none => false
    | some m => m.state = .completed)

def contains (s needle : String) : Bool := decide (needle.toList <:+: s.toList)

def streamClass (c : StageContract) : StreamClass :=
  if contains c.moduleName "dma" || contains c.moduleName "gds" then .dma else .compute

def launch (g : TaskGraph) (k : String) (n : StageNode) : MicroKernelProg (Status × TaskGraph) := do
  let sh ← acquireStream (streamClass n.contract) 0
  if sh.id = 0 then return (.outOfMemory, g) else
  let n := { n with stream := sh.raw, state := .running }
  let g := (g.setNode k n).noteLaunch k
  let s ← Firmware.launch n.contract.moduleName n.contract.functionName n.contract.grid
    n.contract.block n.contract.sharedMemBytes sh n.contract.kernelArgs
  if !ok s then
    releaseStream sh
    return (s, g.setNode k { n with state := .failed, lastStatus := s.code })
  else
  let s ← syncStream sh
  let n := if ok s then { n with state := .completed }
    else { n with state := .failed, lastStatus := s.code }
  releaseStream sh
  return (s, g.setNode k n)

def sweep : List String → Bool → TaskGraph → MicroKernelProg (Status × Bool × TaskGraph)
  | [], progress, g => return (.ok, progress, g)
  | k :: ks, progress, g =>
    match g.nodes.find k with
    | none => sweep ks progress g
    | some n =>
      if !g.readyToRun n then sweep ks progress g else do
      let (s, g) ← g.launch k n
      if !ok s then return (s, true, g) else
      sweep ks true g

def sweepAll (g : TaskGraph) : MicroKernelProg (TaskGraph ⊕ Status × TaskGraph) := do
  let (s, progress, g) ← sweep g.nodes.keys false g
  if !ok s then return .inr (s, g)
  else if progress then return .inl g
  else return .inr (.ok, g)

def launchReady (fuel : ℕ) (g : TaskGraph) : MicroKernelProg (Option (Status × TaskGraph)) :=
  Prog.iterate sweepAll fuel g

/-- The destructor: every handle it gives back has id 0. -/
def destructor (g : TaskGraph) : MicroKernelProg Unit :=
  g.nodes.entries.foldlM (fun _ e =>
    if e.2.stream ≠ 0 then releaseStream { id := 0, raw := e.2.stream } else return ()) ()

end TaskGraph

/-- The sections of the public functions that run under the mutex of one graph, and the atomic
read of `validated_`. -/
inductive GraphCall
  | addStage (c : StageContract)
  | loadValidated
  | validate
  | launchReady

abbrev GraphCall.Answer : GraphCall → Type
  | .addStage _ => Status
  | .loadValidated => Bool
  | .validate => Status
  | .launchReady => Status

abbrev GraphProg := Prog GraphCall GraphCall.Answer

def addStage (c : StageContract) : GraphProg Status := .op (GraphCall.addStage c)

def validate : GraphProg Status := .op GraphCall.validate

def run : GraphProg Status := do
  let validated ← .op GraphCall.loadValidated
  if validated then .op GraphCall.launchReady else
  let s ← validate
  if !ok s then return s else
  .op GraphCall.launchReady

def TaskGraph.Serves (dev : DeviceDesc) (A : (c : MicroKernelCall) → c.Answer → Prop) :
    (c : GraphCall) → TaskGraph → c.Answer → TaskGraph → Prop
  | .addStage c, g, s, g' => (s, g') = g.addStage c
  | .loadValidated, g, v, g' => v = g.validated ∧ g' = g
  | .validate, g, s, g' => (s, g') = g.validate dev
  | .launchReady, g, s, g' =>
    ∃ fuel, Prog.Exec (Prog.allow A) (g.launchReady fuel) () (some (s, g')) ()

end NexusRT.Scheduler
