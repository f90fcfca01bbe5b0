import AttachedState.World

/-!
Lookups.  A thread that looks up the handle it found last in a registry is answered from its own
memo, without a lock; any other lookup goes to the registry's map.  A thread whose memos are gone
goes to the map directly and leaves no trace in the registry.
-/

namespace AttachedState.World

def pruneMemos (w : World) (t : ThreadId) : World :=
  let thread := w.thread t
  w.setThread t
    { thread with memos := thread.memos.filter fun memo => w.registries.contains memo.registry }

def attachMemo (w : World) (t : ThreadId) (r : RegistryId) : Except Panic Memo × World :=
  let w := w.pruneMemos t
  match w.underLock t r Registry.attach with
  | .error cause => (.error cause, w)
  | .ok (line, w) =>
    let memo : Memo := ⟨r, line, none⟩
    let thread := w.thread t
    (.ok memo, (w.setThread t { thread with memos := thread.memos ++ [memo] }).note
      (.lineAttached t r (w.registry r).label line))

def memoFor (w : World) (t : ThreadId) (r : RegistryId) : Except Panic Memo × World :=
  match (w.thread t).memo? r with
  | some memo => (.ok memo, w)
  | none => w.attachMemo t r

-- A memo answers without a lock if its line holds the handle and its block is still in the world.
def remembered? (w : World) (memo : Memo) (h : Handle) : Option BlockId :=
  if (w.registry memo.registry).lineHolds memo.line h then memo.block.filter w.blocks.contains
  else none

-- The outcome is noted in the thread's line and memo.
def resolveThrough (w : World) (t : ThreadId) (memo : Memo) (h : Handle) :
    Except Panic (Option BlockId) × World :=
  match w.underLock t memo.registry (·.resolve memo.line h) with
  | .error cause => (.error cause, w)
  | .ok (found, w) =>
    (.ok found, (w.setThread t ((w.thread t).setMemo { memo with block := found })).note
      (.lookedUp t memo.registry h found .map))

-- No trace is left in the registry.
def resolveDirectly (w : World) (t : ThreadId) (r : RegistryId) (h : Handle) :
    Except Panic (Option BlockId) × World :=
  match w.underLock t r fun registry => (registry.contexts.get? h, registry) with
  | .error cause => (.error cause, w)
  | .ok (found, w) => (.ok found, w.note (.lookedUp t r h found .direct))

def lookUp (w : World) (t : ThreadId) (r : RegistryId) (h : Handle) :
    Except Panic (Option BlockId) × World :=
  let thread := w.thread t
  if thread.memosGone then w.resolveDirectly t r h
  else
    match (w.setThread t thread.noteLookup).memoFor t r with
    | (.error cause, w) => (.error cause, w)
    | (.ok memo, w) =>
      match w.remembered? memo h with
      | some block => (.ok (some block), w.note (.lookedUp t r h (some block) .line))
      | none => w.resolveThrough t memo h

def detachMemo (t : ThreadId) (w : World) (memo : Memo) : World :=
  if w.registries.contains memo.registry then
    match w.underLock t memo.registry fun registry => ((), registry.detach memo.line) with
    | .error _ => w
    | .ok (_, w) => w.note (.lineDetached t memo.registry memo.line)
  else w

-- The memos are given up for good.
def dropMemos (w : World) (t : ThreadId) : World :=
  let w := (w.thread t).memos.foldl (detachMemo t) w
  w.setThread t { w.thread t with memos := [], memosGone := true }

end AttachedState.World
