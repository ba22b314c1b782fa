import TypedHeap.Heap.Basic

/-!
# The write barrier

A store that makes an old object refer to a young one is reported to the collector, which would miss
the young object otherwise. The parent is flagged `REMEMBERED`, so it is queued at most once until
the collector takes the queue.

* `Heap.writeBarrier`: to be run after a reference store.
* `Heap.takeRemembered`: hand the queued parents over, with their flags cleared.
* `Heap.drainRoots`: empty the queue and leave the flags alone.
-/

namespace TypedHeap.Heap

/-- Report a store of `child` into a slot of `parent`, if it has to be. -/
def writeBarrier (parent child : Value) : HeapM Unit := do
  let bits ← Action.look (·.gcBits parent)
  if bits.old && !bits.remembered then
    let childBits ← Action.look (·.gcBits child)
    if !childBits.old then
      setGcBits parent { bits with remembered := true }
      modify fun h => { h with
        barrier := h.barrier.queue parent
        stats := { h.stats with barrierHits := h.stats.barrierHits + 1 } }

/-- Store `child` in a slot of `parent` and report it. -/
def storeRef (parent : Value) (off : Nat) (child : Value) : HeapM Unit := do
  writeRef off (some child)
  writeBarrier parent child

/-- Empty the queue. -/
def drainRoots : HeapM (List Value) := do
  let h ← get
  set { h with barrier := h.barrier.cleared }
  return h.barrier.roots

/-- Clear the `REMEMBERED` flag of an object. -/
def forget (v : Value) : HeapM Unit := do
  let bits ← Action.look (·.gcBits v)
  setGcBits v { bits with remembered := false }

/-- Hand the queued parents over to the collector and clear their flags. -/
def takeRemembered : HeapM (List Value) := do
  let roots ← drainRoots
  roots.forM forget
  return roots

end TypedHeap.Heap
