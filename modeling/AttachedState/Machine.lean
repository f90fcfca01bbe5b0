import AttachedState.Construct
import AttachedState.Naming
import AttachedState.Race
import AttachedState.Retrieve

/-!
The machine that performs actions.  It takes the tasks of one thread one at a time; a task may put
further tasks in front of the others.
-/

namespace AttachedState

def World.operate (w : World) (t : ThreadId) : Operation → Outcome
  | .openRegistry registry looks =>
    if looks then w.openRegistry t registry else w.newRegistry registry
  | .shareRegistry registry source => w.shareRegistry registry source
  | .dropRegistry registry => w.dropRegistry registry
  | .openSpace space => w.openSpace space
  | .shareSpace space source => w.shareSpace space source
  | .dropSpace space => w.dropSpace space
  | .registerKey key space kind => w.registerKey key space kind
  | .dropKey key => w.dropKey key
  | .showKey key layout => w.showKey key layout
  | .keyIsIn key space => w.keyIsIn key space
  | .showSpace space layout => w.showSpace space layout
  | .isRegistered space slot => w.isRegistered space slot
  | .destroy state => w.destroy t state
  | .retrieve retrieval => w.retrieve t retrieval
  | .hold state block => w.hold state block
  | .release block => w.release block
  | .read key subject => w.readKey key subject
  | .showSlot slot subject => w.showSlot slot subject
  | .showBlock subject layout => w.showBlock subject layout
  | .showState state layout => w.showState t state layout
  | .showRegistry registry layout => w.showRegistry t registry layout
  | .contains registry address => w.contains t registry address
  | .countContexts registry => w.askRegistry t registry fun r => .number r.contexts.size
  | .countCaches registry => w.askRegistry t registry fun r => .number r.lines.size
  | .retrieveAtExit retrieval => w.leaveForExit t retrieval
  | .raceToCreate registry address threads => w.raceToCreate t registry address threads
  | .raceForKeys space threads each => w.raceForKeys space threads each
  | .raceToRetrieve registry address threads rounds =>
    w.raceToRetrieve registry address threads rounds

-- What comes of an action has to be done before anything else.
def World.perform (w : World) (t : ThreadId) (nested : Bool) (action : Action) :
    World × List Task :=
  let asked := if nested then some action else none
  match action with
  | .operate operation =>
    let outcome := w.operate t operation
    (outcome.world, outcome.first ++ [.answer asked outcome.answer])
  | .create creation supplies =>
    match w.beginCreation t asked creation supplies with
    | (.error failure, w) => (w, [.answer asked (.failed failure)])
    | (.ok site, w) => (w, [.construct site])
  | .whileLocked name actions =>
    match w.registryNamed? name with
    | none => (w, [.answer asked (.failed .noSuchName)])
    | some r =>
      match w.lock? t r with
      | none => (w, [.answer asked (.failed (.panic .lockHeld))])
      | some w =>
        (w, actions.map (.perform true) ++ [.unlock r, .releaseRegistry r, .answer asked .done])

-- The thread's other tasks may refer to registries and blocks.
def World.take (w : World) (t : ThreadId) (later : List Task) : Task → World × List Task
  | .perform nested action => w.perform t nested action
  | .construct site => w.construct t site
  | .make site factory => w.make t site factory
  | .dropObject b handle object => w.dropObject t b handle object
  | .noteOverwritten handle slot => (w.note (.slotOverwritten handle slot), [])
  | .releaseBlock b => w.releaseBlock later b
  | .releaseRegistry r => w.releaseRegistry later r
  | .unlock r => (w.unlock t r, [])
  | .retrieveAtExit retrieval =>
    let outcome := w.retrieve t retrieval
    (outcome.world, outcome.first ++ [.reportExit retrieval.registry outcome.answer])
  | .reportExit name answer =>
    let registry := w.registryNamed? name
    let caches := registry.bind fun r => (w.underLock? t r (·.lines.size)).toOption
    (w.note (.exitRetrieved registry answer caches), [])
  | .dropMemos => (w.dropMemos t, [])
  | .endThread => ({ w with threads := w.threads.erase t }.note (.threadEnded t), [])
  | .answer nested answer => (w.note (.answered nested answer), [])

structure Machine where
  world : World
  thread : ThreadId
  tasks : List Task

namespace Machine

-- A machine without tasks has finished.
def step (m : Machine) : Machine :=
  match m.tasks with
  | [] => m
  | task :: later =>
    let (world, first) := m.world.take m.thread later task
    { m with world, tasks := first ++ later }

def steps (m : Machine) : Nat → Machine
  | 0 => m
  | n + 1 => m.step.steps n

end Machine

end AttachedState
