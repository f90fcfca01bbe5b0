import AttachedState.Ownership

/-!
Races: several threads do the same thing at once.  Every one of their steps is taken under a lock or
touches only what belongs to its own thread, so what is told of a race is the same for any order of
those steps, and the threads may be taken one after the other.

Whoever starts a race waits until it is over.  So if a registry is held meanwhile, the threads of a
race for it do not get its lock, and none of them gets a turn.
-/

namespace AttachedState.World

def countContexts (w : World) (t : ThreadId) (r : RegistryId) : Except Panic Nat :=
  w.underLock? t r (·.contexts.size)

-- None of the threads gets the lock if somebody holds it.
def entrants (w : World) (r : RegistryId) (threads : Nat) : Nat :=
  if (w.registry r).holder.isNone then threads else 0

-- An attempt that succeeds gives the owner.
def attempt (w : World) (t : ThreadId) (r : RegistryId) (h : Handle) : Option Guard × World :=
  let (number, w) := w.takeNumber
  let b : BlockId := ⟨number⟩
  match w.underLock t r (·.register h b) with
  | .ok (some entry, w) =>
    (some ⟨r, entry, h, b⟩, { w with blocks := w.blocks.put b ⟨h, []⟩ }.note
      (.stateCreated r entry b h 0))
  | .ok (none, w) => (none, w)
  | .error _ => (none, w)

def attempts (r : RegistryId) (h : Handle) : Nat → World → List Guard × World
  | 0, w => ([], w)
  | n + 1, w =>
    let (owners, w) := attempts r h n w
    let t := ThreadId.racer n
    match (w.startThread t).attempt t r h with
    | (some g, w) => (owners ++ [g], w)
    | (none, w) => (owners, w)

def giveUpAll (w : World) (t : ThreadId) (owners : List Guard) : World × List Task :=
  owners.foldl (fun (w, first) g =>
    let outcome := w.giveUp t g
    (outcome.world, first ++ outcome.first)) (w, [])

def endRacers : Nat → World → World
  | 0, w => w
  | n + 1, w =>
    let w := endRacers n w
    let t := ThreadId.racer n
    let w := w.dropMemos t
    { w with threads := w.threads.erase t }.note (.threadEnded t)

-- The threads keep what they got until it is counted.  The thread that started them counts, so it
-- must not hold a registry lock itself.
def raceToCreate (w : World) (t : ThreadId) (name : Name) (address : UInt64) (threads : Nat) :
    Outcome :=
  match w.registryNamed? name, Handle.ofAddress? address with
  | none, _ => .fail w .noSuchName
  | some _, none => .fail w .nullHandle
  | some r, some h =>
    let entrants := w.entrants r threads
    let (owners, w) := attempts r h entrants w
    let during := w.countContexts t r
    let (w, first) := w.giveUpAll t owners
    let after := w.countContexts t r
    let answer := match during, after with
      | .ok during, .ok after =>
        .createdInRace owners.length (threads - owners.length) during after
      | .error cause, _ | _, .error cause => .failed (.panic cause)
    ⟨endRacers entrants w, answer, first⟩

-- Gives the number of times the context was found.
def lookUpTimes (t : ThreadId) (r : RegistryId) (h : Handle) : Nat → World → Nat × World
  | 0, w => (0, w)
  | n + 1, w =>
    let (hits, w) := lookUpTimes t r h n w
    match w.lookUp t r h with
    | (.ok (some _), w) => (hits + 1, w)
    | (_, w) => (hits, w)

def lookUpRacing (r : RegistryId) (h : Handle) (rounds : Nat) : Nat → World → Nat × World
  | 0, w => (0, w)
  | n + 1, w =>
    let (hits, w) := lookUpRacing r h rounds n w
    let t := ThreadId.racer n
    let (more, w) := lookUpTimes t r h rounds (w.startThread t)
    (hits + more, w)

-- What the threads remembered is gone afterwards.
def raceToRetrieve (w : World) (name : Name) (address : UInt64) (threads rounds : Nat) : Outcome :=
  match w.registryNamed? name, Handle.ofAddress? address with
  | none, _ => .fail w .noSuchName
  | some _, none => .fail w .nullHandle
  | some r, some h =>
    let entrants := w.entrants r threads
    let (hits, w) := lookUpRacing r h rounds entrants w
    .of (endRacers entrants w) (.hitsInRace hits)

def reserveMany : Nat → SlotPool → List Slot × SlotPool
  | 0, pool => ([], pool)
  | n + 1, pool =>
    let (slots, pool) := reserveMany n pool
    let (slot, pool) := pool.reserve
    (slots ++ [slot], pool)

-- All of the keys are dropped in the end.
def raceForKeys (w : World) (name : Name) (threads each : Nat) : Outcome :=
  match w.spaceNamed? name with
  | none => .fail w .noSuchName
  | some s =>
    let (slots, during) := reserveMany (threads * each) (w.space s)
    let after := slots.foldl (fun pool slot => (pool.release? slot).getD pool) during
    .of { w with spaces := w.spaces.put s after }
      (.keysInRace (slots.mergeSort (fun a b => decide (a ≤ b))) during.size after.size
        after.highWater)

end AttachedState.World
