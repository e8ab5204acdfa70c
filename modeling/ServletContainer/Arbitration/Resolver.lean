import ServletContainer.Arbitration.Slot

/-! Arbitration: which candidates are enabled in which mounts. In the order of preference each
candidate takes its slots if all of them are free. A change is arbitrated again only in the region
of slots reachable from it through shared candidates; the walk through that region visits every slot
at most once. -/
namespace ServletContainer

/-- An element, the mounts it is mapped to, and the slots that it takes there. -/
structure Candidate where
  element : Element
  physical : List ContextPath
  keys : List SlotKey := element.slotKeys physical
  keys_eq : keys = element.slotKeys physical := by rfl
  deriving DecidableEq

namespace Candidate

def id (c : Candidate) : ElementId := c.element.id

def keysIn (c : Candidate) (path : ContextPath) : List SlotKey :=
  c.keys.filter (·.physical = path)

def precedes (a b : Candidate) : Bool := a.element.precedes b.element

end Candidate

/-- Who competes for a slot: its holder, and the others in order of preference. -/
structure Group where
  key : SlotKey
  winner : Option ElementId
  shadowed : List ElementId
  deriving DecidableEq

/-- The outcome of arbitrating a region: where each of its elements is enabled, who competes for
each of its slots, and how many slots the walk processed. -/
structure Resolution where
  enabled : OrdMap ElementId (OrdSet ContextPath)
  groups : List Group
  iterations : Nat
  deriving DecidableEq

/-- The walk through a region: slots seen, slots still to process, elements met. -/
structure Walk where
  visited : List SlotKey := []
  queue : List SlotKey := []
  region : List ElementId := []
  steps : Nat := 0

namespace Walk

def discover (w : Walk) (k : SlotKey) : Walk :=
  if w.visited.contains k then w
  else { w with visited := k :: w.visited, queue := w.queue ++ [k] }

/-- Meets a candidate: its slots belong to the region. -/
def enter (w : Walk) (c : Candidate) : Walk :=
  if w.region.contains c.id then w
  else c.keys.foldl discover { w with region := c.id :: w.region }

/-- Processes slots until none is left; `fuel` bounds their number. -/
def run (cs : List Candidate) : Nat → Walk → Walk
  | 0, w => w
  | fuel + 1, w =>
    match w.queue with
    | [] => w
    | k :: queue =>
      let w := { w with queue := queue, steps := w.steps + 1 }
      run cs fuel ((cs.filter (·.keys.contains k)).foldl enter w)

end Walk

/-- The holders of slots. -/
abbrev Holders := List (SlotKey × ElementId)

def Holders.free (h : Holders) (ks : List SlotKey) : Bool :=
  ks.all fun k => (h.lookup k).isNone

def Holders.take (h : Holders) (ks : List SlotKey) (id : ElementId) : Holders :=
  ks.map (·, id) ++ h

/-- What has been given out so far. -/
structure Claims where
  holders : Holders := []
  enabled : OrdMap ElementId (OrdSet ContextPath) := ∅

namespace Claims

/-- The claim of a candidate to one of its mounts. -/
def claimIn (c : Candidate) (held : Holders × OrdSet ContextPath) (path : ContextPath) :
    Holders × OrdSet ContextPath :=
  let (h, won) := held
  let ks := c.keysIn path
  if h.free ks then (h.take ks c.id, won.insert path) else (h, won)

/-- The claim of a candidate, after those of all better ones. -/
def claim (policy : Policy) (cl : Claims) (c : Candidate) : Claims :=
  let (holders, won) := match policy with
    | .strict =>
      if !c.keys.isEmpty && cl.holders.free c.keys then
        (cl.holders.take c.keys c.id, OrdSet.ofList c.physical)
      else (cl.holders, ∅)
    | .perContext => c.physical.foldl (claimIn c) (cl.holders, ∅)
  ⟨holders, cl.enabled.insert c.id won⟩

end Claims

/-- The candidates of an arbitration. -/
structure Resolver where
  policy : Policy
  candidates : List Candidate

namespace Resolver

def knownKeys (r : Resolver) : List SlotKey :=
  (r.candidates.flatMap Candidate.keys).foldl (fun ks k => if ks.contains k then ks else k :: ks) []

def totalKeys (r : Resolver) : Nat := r.knownKeys.length

def keysOf (r : Resolver) (id : ElementId) : List SlotKey :=
  match r.candidates.find? (·.id = id) with
  | some c => c.keys
  | none => []

def walk (r : Resolver) (seeds : List SlotKey) : Walk :=
  let w := seeds.foldl Walk.discover {}
  w.run r.candidates (w.queue.length + (r.candidates.flatMap Candidate.keys).length)

def arbitrate (policy : Policy) (cs : List Candidate) : Claims :=
  (sortBy Candidate.precedes cs).foldl (Claims.claim policy) {}

def competitors (cs : List Candidate) (k : SlotKey) : List Candidate :=
  cs.flatMap fun c => (c.keys.filter (· = k)).map fun _ => c

def groupOf (cs : List Candidate) (h : Holders) (k : SlotKey) : Group :=
  let winner := h.lookup k
  let losers := (competitors cs k).filter fun c => some c.id ≠ winner
  ⟨k, winner, (sortBy Candidate.precedes losers).map Candidate.id⟩

def resolve (r : Resolver) (seeds : List SlotKey) : Resolution :=
  let w := r.walk seeds
  let region := r.candidates.filter fun c => w.region.contains c.id
  let claims := arbitrate r.policy region
  let known := w.visited.filter fun k => r.candidates.any (·.keys.contains k)
  { enabled := claims.enabled
    groups := (sortBy SlotKey.le known).map (groupOf r.candidates claims.holders)
    iterations := w.steps }

def resolveAll (r : Resolver) : Resolution := r.resolve r.knownKeys

end Resolver

end ServletContainer
