import AttachedState.Proofs.Locks
import AttachedState.Proofs.Chronicle

/-!
Passes: the moves of a thread at work.  They leave the thread at work and running, with the locks it
holds; a thread that has given up its memos for good gets no new ones, and a registration only
loses its owner to a thread that holds a lock.
-/

namespace AttachedState

namespace World

def Runs (w : World) (t : ThreadId) : Prop := ∃ thread, w.threads.find? t = some thread

theorem runs_put {w after : World} {u : ThreadId} {new : Thread}
    (put : after.threads = w.threads.put u new) {t : ThreadId} (runs : w.Runs t) : after.Runs t := by
  obtain ⟨thread, found⟩ := runs
  unfold Runs
  rw [put, Table.find?_put]
  split
  · exact ⟨new, rfl⟩
  · exact ⟨thread, found⟩

-- A thread that is not in the world is as a fresh one, so it has given nothing up.
theorem runs_of_memosGone {w : World} {t : ThreadId} (gone : (w.thread t).memosGone = true) :
    w.Runs t := by
  cases found : w.threads.find? t with
  | none =>
    rw [thread_of_absent found] at gone
    cases gone
  | some thread => exact ⟨thread, found⟩

-- Memos that were given up for good are gone.
def Forgotten (w : World) : Prop := ∀ t, (w.thread t).memosGone = true → (w.thread t).memos = []

theorem Forgotten.put {w after : World} {u : ThreadId} {new : Thread} (forgotten : w.Forgotten)
    (put : after.threads = w.threads.put u new)
    (kept : new.memosGone = true → new.memos = []) : after.Forgotten := by
  intro t
  rw [thread_put put]
  split
  · exact kept
  · exact forgotten t

end World

namespace Quiet

variable {w after : World}

theorem runs (change : Quiet w after) {t : ThreadId} (runs : w.Runs t) : after.Runs t := by
  rcases change.threads with same | ⟨u, new, put, _⟩
  · unfold World.Runs
    rw [same]
    exact runs
  · exact World.runs_put put runs

theorem forgotten (change : Quiet w after) (forgotten : w.Forgotten) : after.Forgotten := by
  have mine : ∀ {t : ThreadId} {thread : Thread}, w.threads.find? t = some thread →
      thread.memosGone = true → thread.memos = [] := by
    intro t thread runs gone
    have known := forgotten t
    rw [World.thread_of_find? runs] at known
    exact known gone
  cases change with
  | noted | filed | asked | hit | direct => exact forgotten
  | started => exact forgotten.put rfl fun gone => by cases gone
  | looked runs =>
    refine forgotten.put rfl fun gone => ?_
    rw [Thread.noteLookup_memosGone] at gone
    rw [Thread.noteLookup_memos]
    exact mine runs gone
  | left runs =>
    have known := mine runs
    exact forgotten.put rfl fun gone => known gone
  | pruned runs =>
    refine forgotten.put rfl fun gone => ?_
    rw [mine runs gone]
    rfl
  | attached runs free live new kept =>
    refine forgotten.put rfl fun gone => ?_
    rw [kept] at gone
    cases gone
  | resolved runs free known =>
    refine forgotten.put rfl fun gone => ?_
    rw [mine runs gone] at known
    cases known
  | detached runs free memos | forgot runs memos =>
    refine forgotten.put rfl fun gone => ?_
    rw [mine runs gone] at memos
    cases memos
  | gone runs memos => exact forgotten.put rfl fun _ => memos

theorem memosGone (change : Quiet w after) {t : ThreadId} (gone : (w.thread t).memosGone = true) :
    (after.thread t).memosGone = true := by
  have put : ∀ {u : ThreadId} {old new : Thread} {after : World}, w.threads.find? u = some old →
      after.threads = w.threads.put u new → (old.memosGone = true → new.memosGone = true) →
      (after.thread t).memosGone = true := by
    intro u old new after runs put kept
    rw [World.thread_put put]
    split
    · rename_i here
      rw [here, World.thread_of_find? runs] at gone
      exact kept gone
    · exact gone
  cases change with
  | noted | filed | asked | hit | direct => exact gone
  | started absent =>
    rw [World.thread_put rfl]
    split
    · rename_i here
      rw [here, World.thread_of_absent absent] at gone
      exact gone
    · exact gone
  | looked runs => exact put runs rfl fun gone => by rwa [Thread.noteLookup_memosGone]
  | left runs | pruned runs | attached runs | resolved runs | detached runs | forgot runs =>
    exact put runs rfl fun gone => gone
  | gone runs => exact put runs rfl fun _ => rfl

end Quiet

theorem Move.forgotten {s s' : Scene} (forgotten : s.world.Forgotten) (move : Move s s') :
    s'.world.Forgotten := by
  have mine : ∀ {t : ThreadId} {thread : Thread}, s.world.threads.find? t = some thread →
      thread.memosGone = true → thread.memos = [] := by
    intro t thread runs gone
    have known := forgotten t
    rw [World.thread_of_find? runs] at known
    exact known gone
  cases move with
  | quiet change => exact change.forgotten forgotten
  | ended =>
    intro t
    rw [World.thread_erase rfl]
    split
    · exact fun _ => rfl
    · exact forgotten t
  | locked runs | unlocked first runs =>
    have known := mine runs
    exact forgotten.put rfl fun gone => known gone
  | turned | opened | shared | unnamed | retained | spared | closed | held | unheld | released | fell
  | begun | tried | made | abandoned | enrolled | entitled | disowned | withdrawn | orphaned
  | dropped => exact forgotten

theorem Scene.Arises.forgotten {hashing : RegistryId → Handle → UInt64} {s : Scene}
    (arisen : Arises hashing s) : s.world.Forgotten := by
  induction arisen with
  | refl =>
    intro t gone
    simp only [Scene.start, World.start, World.thread, Table.find?_put, Table.find?_empty] at gone ⊢
    split <;> rfl
  | tail before move ih => exact move.forgotten ih

theorem Quiet.orphans {w after : World} (change : Quiet w after) : after.orphans = w.orphans := by
  obtain ⟨told, journal, silent⟩ := change.same.journal
  refine World.orphans_of_told told journal fun e listed => ?_
  have clear := (silent e listed).1
  cases e <;> first | rfl | cases clear

theorem Move.orphans {s s' : Scene} (free : (s.world.thread s.thread).depth = 0) (move : Move s s') :
    s'.world.orphans = s.world.orphans := by
  cases move with
  | quiet change => exact change.orphans
  | orphaned _ _ _ _ _ _ _ _ runs held =>
    rw [World.thread_of_find? runs] at free
    exact absurd free held
  | turned | opened | shared | unnamed | retained | spared | closed | held | unheld | released | fell
  | begun | abandoned | entitled | disowned | locked | unlocked => rfl
  | ended | tried | made | enrolled | withdrawn | dropped => rfl

-- A move of the thread at work, which goes on running and takes or gives back no lock.
structure Pass (s s' : Scene) : Prop where
  move : Move s s'
  thread : s'.thread = s.thread
  runs : s.world.Runs s.thread → s'.world.Runs s.thread
  depth : (s'.world.thread s.thread).depth = (s.world.thread s.thread).depth

namespace Pass

variable {s s' : Scene}

theorem quiet {w : World} (change : Quiet s.world w) : Pass s { s with world := w } :=
  ⟨.quiet change, rfl, change.runs, change.depth _⟩

-- Most moves leave all threads alone.
theorem of_move (move : Move s s') (thread : s'.thread = s.thread)
    (threads : s'.world.threads = s.world.threads) : Pass s s' := by
  refine ⟨move, thread, fun runs => ?_, ?_⟩
  · unfold World.Runs
    rwa [threads]
  · rw [World.thread, threads, World.thread]

theorem memosGone (pass : Pass s s') (gone : (s.world.thread s.thread).memosGone = true) :
    (s'.world.thread s.thread).memosGone = true := by
  obtain ⟨move, _, runs, _⟩ := pass
  have still := runs (World.runs_of_memosGone gone)
  cases move with
  | quiet change => exact change.memosGone gone
  | @ended _ _ t found =>
    rw [World.thread_erase rfl]
    split
    · rename_i here
      obtain ⟨thread, there⟩ := still
      simp only [World.note, here, Table.find?_erase_self] at there
      cases there
    · exact gone
  | locked found | unlocked first found =>
    rw [World.thread_put rfl, if_pos rfl]
    rw [World.thread_of_find? found] at gone
    exact gone
  | turned | opened | shared | unnamed | retained | spared | closed | held | unheld | released | fell
  | begun | tried | made | abandoned | enrolled | entitled | disowned | withdrawn | orphaned
  | dropped => exact gone

end Pass

namespace Scene

abbrev Passes : Scene → Scene → Prop := Relation.ReflTransGen Pass

namespace Passes

variable {s s' : Scene}

theorem moves (passes : Passes s s') : Moves s s' :=
  Relation.ReflTransGen.mono (fun _ _ pass => pass.move) _ _ passes

theorem thread (passes : Passes s s') : s'.thread = s.thread := by
  induction passes with
  | refl => rfl
  | tail _ pass ih => exact pass.thread.trans ih

theorem runs (passes : Passes s s') (runs : s.world.Runs s.thread) : s'.world.Runs s.thread := by
  induction passes with
  | refl => exact runs
  | tail before pass ih =>
    have mine := thread before
    rw [← mine] at ih ⊢
    exact pass.runs ih

theorem depth (passes : Passes s s') :
    (s'.world.thread s.thread).depth = (s.world.thread s.thread).depth := by
  induction passes with
  | refl => rfl
  | tail before pass ih =>
    have still := pass.depth
    rw [thread before] at still
    exact still.trans ih

theorem orphans (passes : Passes s s') (free : (s.world.thread s.thread).depth = 0) :
    s'.world.orphans = s.world.orphans := by
  induction passes with
  | refl => rfl
  | tail before pass ih =>
    have freeThen := (depth before).trans free
    rw [← thread before] at freeThen
    exact (pass.move.orphans freeThen).trans ih

theorem memosGone (passes : Passes s s') (gone : (s.world.thread s.thread).memosGone = true) :
    (s'.world.thread s.thread).memosGone = true := by
  induction passes with
  | refl => exact gone
  | tail before pass ih =>
    have mine := thread before
    rw [← mine] at ih ⊢
    exact pass.memosGone ih

end Passes

end Scene

-- Quiet changes one after the other.
abbrev Quiets : World → World → Prop := Relation.ReflTransGen Quiet

namespace Quiets

variable {w after : World}

theorem passes (changes : Quiets w after) (t : ThreadId) (owners : List Guard) (tasks : List Task) :
    Scene.Passes ⟨w, t, owners, tasks⟩ ⟨after, t, owners, tasks⟩ := by
  induction changes with
  | refl => exact .refl
  | tail _ change ih => exact ih.tail (Pass.quiet change)

theorem runs (changes : Quiets w after) {t : ThreadId} (runs : w.Runs t) : after.Runs t := by
  induction changes with
  | refl => exact runs
  | tail _ change ih => exact change.runs ih

theorem maps (changes : Quiets w after) (r : RegistryId) : after.map? r = w.map? r := by
  induction changes with
  | refl => rfl
  | tail _ change ih => exact (change.same.maps r).trans ih

end Quiets

end AttachedState
