import NexusRT.Scheduler.Runs

namespace NexusRT

open Scheduler Firmware

/-- `dryRun` is the field of the configuration that `run` reads. -/
structure Pipeline where
  dryRun : Bool := false
  graph : TaskGraph := {}
  built : Bool := false

namespace Pipeline

def preprocess : StageContract where
  name := "preprocess"
  moduleName := "nexusrt.kernels.tokenize"
  functionName := "tokenize_bpe_u8"
  tokenBudget := 8192
  smFootprintMb := 32
  memFootprintMb := 256
  grid := { x := 32 }
  block := { x := 256 }

def train : StageContract where
  name := "train"
  moduleName := "nexusrt.kernels.train"
  functionName := "transformer_fwd_bwd"
  tokenBudget := 8192
  smFootprintMb := 128
  memFootprintMb := 32768
  dependsOn := ["preprocess"]
  grid := { x := 64 }
  block := { x := 256 }

def infer : StageContract where
  name := "infer"
  moduleName := "nexusrt.kernels.infer"
  functionName := "decode_step"
  tokenBudget := 4096
  smFootprintMb := 64
  memFootprintMb := 16384
  dependsOn := ["preprocess"]
  grid := { x := 32 }
  block := { x := 256 }

def postprocess : StageContract where
  name := "postprocess"
  moduleName := "nexusrt.kernels.postprocess"
  functionName := "detokenize_format"
  tokenBudget := 1024
  smFootprintMb := 16
  memFootprintMb := 64
  dependsOn := ["infer"]
  grid := { x := 8 }
  block := { x := 128 }

inductive GraphOp
  | addStage (c : StageContract)
  | validate
  | run

abbrev GraphOp.Answer (_ : GraphOp) : Type := Status

abbrev PipelineProg := Prog GraphOp GraphOp.Answer

def build (built : Bool) : PipelineProg (Status × Bool) := do
  let s ← .op (.addStage preprocess)
  if !ok s then return (s, built) else
  let s ← .op (.addStage train)
  if !ok s then return (s, built) else
  let s ← .op (.addStage infer)
  if !ok s then return (s, built) else
  let s ← .op (.addStage postprocess)
  if !ok s then return (s, built) else
  let s ← .op .validate
  if !ok s then return (s, built) else
  return (.ok, true)

def run (dryRun built : Bool) : PipelineProg (Status × Bool) := do
  let (s, built) ← if built then pure (.ok, built) else build built
  if !ok s then return (s, built) else
  if dryRun then return (.ok, built) else
  let s ← .op .run
  return (s, built)

/-- The graph whose stages are visited in the given order, once they are all there. -/
def inOrder (order : List String) (g : TaskGraph) : TaskGraph :=
  if h : order.Perm g.nodes.keys then g.reorder order h else g

def GraphOp.prog : GraphOp → GraphProg Status
  | .addStage c => Scheduler.addStage c
  | .validate => Scheduler.validate
  | .run => Scheduler.run

/-- The micro-kernel may do anything. -/
def Answers (dev : DeviceDesc) (order : List String) (o : GraphOp) (g : TaskGraph) (s : Status)
    (g' : TaskGraph) : Prop :=
  Prog.Exec (TaskGraph.Serves dev TaskGraph.anyKernel) o.prog (inOrder order g) s g'

def stageNames : List String := ["preprocess", "train", "infer", "postprocess"]

/-- `order` is the order in which the hash map holds the four stages. -/
inductive PipelineCall
  | build (order : List String)
  | run (order : List String)

inductive Step (dev : DeviceDesc) (p : Pipeline) : PipelineCall → Pipeline → Prop
  | build (order : List String) (horder : order.Perm stageNames) (s : Status) (built : Bool)
      (g' : TaskGraph) (h : Prog.Exec (Answers dev order) (build p.built) p.graph (s, built) g') :
      Step dev p (.build order) { p with graph := g', built }
  | run (order : List String) (horder : order.Perm stageNames) (s : Status) (built : Bool)
      (g' : TaskGraph)
      (h : Prog.Exec (Answers dev order) (run p.dryRun p.built) p.graph (s, built) g') :
      Step dev p (.run order) { p with graph := g', built }

end Pipeline

end NexusRT
