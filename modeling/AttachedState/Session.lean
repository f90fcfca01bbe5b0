import AttachedState.Work

/-!
Sessions: a session is told one thing after the other, and reports for each what it was answered and
what was logged.
-/

namespace AttachedState

inductive Command where
  -- The thread is started if it does not run.
  | act (thread : ThreadId) (action : Action)
  | endThread (name : Name)

namespace Thread

-- What a thread used last it gives up first: lookups that were left for its end are made before
-- its memos go, unless it left the first of them before its first lookup.
def exitTasks (t : Thread) : List Task :=
  let lookups := t.atExit.map Task.retrieveAtExit
  (if t.memosEndFirst then .dropMemos :: lookups else lookups ++ [.dropMemos])
    ++ [.endThread, .answer none .done]

end Thread

def World.machineFor (w : World) : Command → Machine
  | .act t action => ⟨w.startThread t, t, [.perform false action]⟩
  | .endThread name =>
    let t := ThreadId.worker name
    match w.threads.find? t with
    | some thread => ⟨w, t, thread.exitTasks⟩
    | none => ⟨w, .main, [.answer none (.failed .noSuchName)]⟩

structure Report where
  answer : Answer
  log : List Entry

-- The answer is what the journal ends with; the events before it make the log.
def reportOf (traced : Bool) : List Event → Report
  | .answered none answer :: earlier => ⟨answer, earlier.reverse.filterMap (·.logged? traced)⟩
  | events => ⟨.done, events.reverse.filterMap (·.logged? traced)⟩

def World.obey (w : World) (traced : Bool) (command : Command) : Report × World :=
  let after := ((w.machineFor command).run).world
  (reportOf traced (after.journal.take (after.journal.length - w.journal.length)), after)

end AttachedState
