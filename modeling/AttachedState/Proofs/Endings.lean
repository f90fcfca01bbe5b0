import AttachedState.Proofs.CacheCounts
import AttachedState.Proofs.Permanence

/-!
Endings.  A thread may leave lookups for its end.  They are made in the order in which they were left,
before the thread gives its memos up or after that: what it used last it gives up first, so this
depends on which came first, a lookup or the first lookup that was left.
-/

namespace AttachedState

namespace World

-- Whether a lookup is one in the registry.
def isIn (w : World) (r : RegistryId) (retrieval : Retrieval) : Bool :=
  w.registryNamed? retrieval.registry = some r

-- Whether one in the registry was left for the end of the thread.
def leftIn (w : World) (t : ThreadId) (r : RegistryId) : Bool := (w.thread t).atExit.any (w.isIn r)

-- No lookup under the name was left.
def Unleft (w : World) (name : Name) : Prop :=
  ∀ t, ∀ retrieval ∈ (w.thread t).atExit, retrieval.registry ≠ name

/-! What a thread does first, looking something up or leaving a lookup for its end, settles whether its
memos go before its last lookups are made or after that, and it may do so in any registry.  In each
registry in which it leaves lookups this is to be as if there were no other. -/

-- It has left lookups there when it first looks something up there: so its memos go first.
def LooksInOrder (w : World) (t : ThreadId) (r : RegistryId) : Prop :=
  w.leftIn t r = true → (w.thread t).knows r = false → (w.thread t).hasLooked = true →
    (w.thread t).memosEndFirst = true

-- When it leaves the first lookup there, it is not settled that its memos go first.
def LeavesInOrder (w : World) (t : ThreadId) (r : RegistryId) : Prop :=
  w.leftIn t r = false → (w.thread t).hasLooked = true → (w.thread t).memosEndFirst = false

-- If it ends without having looked anything up there, its memos do not go first.
def EndsInOrder (w : World) (t : ThreadId) (r : RegistryId) : Prop :=
  w.leftIn t r = true → (w.thread t).knows r = false → (w.thread t).memosEndFirst = false

-- As long as no lookup has been left there is nothing to keep to.
theorem inOrder_of_none_left {w : World} (none_left : ∀ t, (w.thread t).atExit = []) :
    (∀ name, w.Unleft name) ∧ ∀ t r, w.LooksInOrder t r ∧ w.EndsInOrder t r := by
  have nowhere : ∀ t r, w.leftIn t r = false := fun t r => by
    unfold leftIn
    rw [none_left t, List.any_nil]
  refine ⟨fun name t retrieval listed => ?_, fun t r => ⟨fun left => ?_, fun left => ?_⟩⟩
  · rw [none_left t] at listed
    cases listed
  · rw [nowhere t r] at left
    cases left
  · rw [nowhere t r] at left
    cases left

end World

namespace Thread

variable {x y x' y' : Thread} {mine mineThen : Retrieval → Bool} {retrieval : Retrieval}

/-! The order in which a thread gives things up. -/

-- What is known of it before the end.
def plan (thread : Thread) : Bool × Bool × List Retrieval :=
  (thread.hasLooked, thread.memosEndFirst, thread.atExit)

theorem plan_eq (same : y.plan = x.plan) :
    y.hasLooked = x.hasLooked ∧ y.memosEndFirst = x.memosEndFirst ∧ y.atExit = x.atExit := by
  simp only [plan, Prod.mk.injEq] at same
  exact same

theorem noteLookup_hasLooked (thread : Thread) : thread.noteLookup.hasLooked = true := by
  unfold noteLookup
  split
  · assumption
  · rfl

theorem noteLookup_of_looked (looked : x.hasLooked = true) : x.noteLookup = x := if_pos looked

theorem plan_noteLookup (same : y.plan = x.plan) : y.noteLookup.plan = x.noteLookup.plan := by
  obtain ⟨looked, first, left⟩ := plan_eq same
  unfold noteLookup
  rw [looked, left]
  split
  · exact same
  · rfl

-- It has not changed since, and who had not looked anything up has not come to remember anything.
structure Keeps (x x' : Thread) : Prop where
  plan : x'.plan = x.plan
  memos : x.hasLooked = false → x.memos = [] → x'.memos = []

theorem Keeps.refl (x : Thread) : x.Keeps x := ⟨rfl, fun _ => id⟩

theorem Keeps.trans {last : Thread} (first : x.Keeps x') (next : x'.Keeps last) : x.Keeps last :=
  ⟨next.plan.trans first.plan, fun unlooked bare =>
    next.memos ((plan_eq first.plan).1.trans unlooked) (first.memos unlooked bare)⟩

theorem Keeps.of_looked (looked : x.hasLooked = true) (memos : List Memo) : x.Keeps { x with memos } :=
  ⟨rfl, fun unlooked => absurd (looked.symm.trans unlooked) Bool.true_eq_false.mp⟩

-- Whoever may have looked something up once or twice may have looked something up.
theorem plan_noted {last : Thread} (first : x'.plan = x.plan ∨ x'.plan = x.noteLookup.plan)
    (next : last.plan = x'.plan ∨ last.plan = x'.noteLookup.plan) :
    last.plan = x.plan ∨ last.plan = x.noteLookup.plan := by
  rcases next with same | noted
  · rwa [same]
  · rcases first with same | once
    · exact .inr (noted.trans (plan_noteLookup same))
    · refine .inr (noted.trans ((plan_noteLookup once).trans ?_))
      rw [noteLookup_of_looked (noteLookup_hasLooked x)]

-- How a thread will end, and another one that has left no lookups but those of a kind.  If both are to
-- make some of these, they make them in the same order as they give their memos up.
structure Ends (mine : Retrieval → Bool) (x y : Thread) : Prop where
  left : y.atExit = x.atExit.filter mine
  kept : ∀ retrieval ∈ x.atExit, retrieval.keepAs = none
  looked : y.hasLooked = true → x.hasLooked = true
  unlooked : y.hasLooked = false → y.memos = [] ∧ y.memosEndFirst = false
  early : y.atExit = [] → y.memosEndFirst = false
  order : y.atExit ≠ [] → y.hasLooked = true → y.memosEndFirst = x.memosEndFirst

namespace Ends

theorem fresh (mine : Retrieval → Bool) : Ends mine .fresh .fresh :=
  ⟨rfl, List.forall_mem_nil _, id, fun _ => ⟨rfl, rfl⟩, fun _ => rfl, fun _ _ => rfl⟩

theorem kept_both (ends : Ends mine x y) : ∀ retrieval ∈ y.atExit, retrieval.keepAs = none := by
  rw [ends.left]
  exact fun retrieval listed => ends.kept retrieval (List.mem_of_mem_filter listed)

theorem keep (ends : Ends mine x y) (plan : x'.plan = x.plan) (keepsToo : y.Keeps y')
    (same : ∀ retrieval ∈ x.atExit, mineThen retrieval = mine retrieval) : Ends mineThen x' y' := by
  obtain ⟨looked, first, left⟩ := plan_eq plan
  obtain ⟨lookedToo, firstToo, leftToo⟩ := plan_eq keepsToo.plan
  refine ⟨?_, ?_, ?_, ?_, ?_, ?_⟩
  · rw [leftToo, left, ends.left]
    exact (List.filter_congr same).symm
  · rw [left]
    exact ends.kept
  · rw [looked, lookedToo]
    exact ends.looked
  · rw [lookedToo, firstToo]
    exact fun unlooked =>
      ⟨keepsToo.memos unlooked (ends.unlooked unlooked).1, (ends.unlooked unlooked).2⟩
  · rw [leftToo, firstToo]
    exact ends.early
  · rw [leftToo, lookedToo, firstToo, first]
    exact ends.order

-- A lookup of another kind, by the first thread alone.
theorem noted_alone (ends : Ends mine x y) : Ends mine x.noteLookup y := by
  cases looked : x.hasLooked with
  | true => rwa [noteLookup_of_looked looked]
  | false =>
    have unlooked : y.hasLooked = true → False := fun now => by
      rw [ends.looked now] at looked
      cases looked
    refine ⟨?_, ?_, fun _ => noteLookup_hasLooked x, ends.unlooked, ends.early, fun _ now => (unlooked now).elim⟩
    · rw [noteLookup_atExit]
      exact ends.left
    · rw [noteLookup_atExit]
      exact ends.kept

-- One of the kind, by both.
theorem noted (ends : Ends mine x y) (late : y.atExit ≠ [] → y.hasLooked = false →
    x.hasLooked = true → x.memosEndFirst = true) : Ends mine x.noteLookup y.noteLookup := by
  have alone := ends.noted_alone
  cases lookedToo : y.hasLooked with
  | true => rwa [noteLookup_of_looked lookedToo]
  | false =>
    have now : y.noteLookup = { y with hasLooked := true, memosEndFirst := !y.atExit.isEmpty } :=
      if_neg (by rw [lookedToo]; exact Bool.false_ne_true)
    rw [now]
    refine ⟨alone.left, alone.kept, fun _ => noteLookup_hasLooked x, nofun, fun none_left => ?_,
      fun some_left _ => ?_⟩
    · simp only at none_left
      simp only [none_left, List.isEmpty_nil, Bool.not_true]
    · have more : x.atExit ≠ [] := by
        intro none_left
        rw [alone.left, noteLookup_atExit, none_left] at some_left
        exact some_left rfl
      have filled : y.atExit.isEmpty = false := by simpa using some_left
      simp only [filled, Bool.not_false]
      cases looked : x.hasLooked with
      | true => rw [noteLookup_of_looked looked, late some_left lookedToo looked]
      | false =>
        have filledToo : x.atExit.isEmpty = false := by simpa using more
        unfold noteLookup
        simp only [looked, Bool.false_eq_true, if_false, filledToo, Bool.not_false]

-- The first thread leaves a lookup of another kind.
theorem left_alone (ends : Ends mine x y) (other : mine retrieval = false)
    (kept : retrieval.keepAs = none) : Ends mine { x with atExit := x.atExit ++ [retrieval] } y := by
  refine ⟨?_, ?_, ends.looked, ends.unlooked, ends.early, ends.order⟩
  · rw [List.filter_append, List.filter_cons_of_neg (by rw [other]; exact Bool.false_ne_true),
      List.filter_nil, List.append_nil]
    exact ends.left
  · rw [List.forall_mem_append, List.forall_mem_singleton]
    exact ⟨ends.kept, kept⟩

-- Both leave one of the kind.
theorem left_both (ends : Ends mine x y) (own : mine retrieval = true) (kept : retrieval.keepAs = none)
    (late : y.atExit = [] → x.hasLooked = true → x.memosEndFirst = false) :
    Ends mine { x with atExit := x.atExit ++ [retrieval] }
      { y with atExit := y.atExit ++ [retrieval] } := by
  refine ⟨?_, ?_, ends.looked, ends.unlooked, ?_, fun _ lookedToo => ?_⟩
  · rw [List.filter_append, List.filter_cons_of_pos own, List.filter_nil, ends.left]
  · rw [List.forall_mem_append, List.forall_mem_singleton]
    exact ⟨ends.kept, kept⟩
  · exact fun none_left => absurd none_left (List.append_ne_nil_of_right_ne_nil _ (List.cons_ne_nil _ _))
  · by_cases none_left : y.atExit = []
    · exact (ends.early none_left).trans (late none_left (ends.looked lookedToo)).symm
    · exact ends.order none_left lookedToo

end Ends

end Thread

/-! What a thread does at its end. -/

namespace World

variable {w after : World} {t : ThreadId} {retrieval : Retrieval}

-- What a thread makes of its being about to look something up.
def noted (w : World) (t : ThreadId) : World := w.setThread t (w.thread t).noteLookup

theorem thread_noted (w : World) (t u : ThreadId) : (w.noted t).thread u
    = if u = t then (w.thread t).noteLookup else w.thread u := thread_put rfl u

theorem looked_noted (w : World) (t : ThreadId) : ((w.noted t).thread t).hasLooked = true := by
  rw [thread_noted, if_pos rfl]
  exact Thread.noteLookup_hasLooked _

-- What it makes of an action before that is carried out.
def asked (w : World) (t : ThreadId) : Action → World
  | .operate (.retrieve retrieval) =>
    match Handle.ofAddress? retrieval.address, w.registryNamed? retrieval.registry with
    | some _, some _ => w.noted t
    | _, _ => w
  | _ => w

theorem asked_rest (w : World) (t : ThreadId) (action : Action) :
    ∃ threads, w.asked t action = { w with threads } := by
  unfold asked
  split
  · split <;> exact ⟨_, rfl⟩
  · exact ⟨_, rfl⟩

theorem names_asked_startThread (w : World) (t : ThreadId) (action : Action) :
    ((w.startThread t).asked t action).registryNames = (w.asked t action).registryNames := by
  obtain ⟨_, asked⟩ := (w.startThread t).asked_rest t action
  obtain ⟨_, askedToo⟩ := w.asked_rest t action
  obtain ⟨_, started⟩ := w.startThread_eq t
  rw [asked, askedToo, started]

theorem thread_asked_startThread (w : World) (t u : ThreadId) (action : Action) :
    ((w.startThread t).asked t action).thread u = (w.asked t action).thread u := by
  obtain ⟨threads, started⟩ := w.startThread_eq t
  have same := w.thread_startThread t
  rw [started] at same ⊢
  have noted : (({ w with threads } : World).noted t).thread u = (w.noted t).thread u := by
    rw [thread_noted, thread_noted, same, same]
  have named : ∀ name, ({ w with threads } : World).registryNamed? name = w.registryNamed? name :=
    fun _ => rfl
  unfold asked
  split
  · rw [named]
    split
    · exact noted
    · exact same u
  · exact same u

theorem keeps_of_same (threads : after.threads = w.threads) (u : ThreadId) :
    (w.thread u).Keeps (after.thread u) := by
  unfold thread
  rw [threads]
  exact .refl _

theorem keeps_of_put {thread : Thread} (put : after.threads = w.threads.put t thread)
    (keeps : (w.thread t).Keeps thread) (u : ThreadId) : (w.thread u).Keeps (after.thread u) := by
  rw [thread_put put]
  split
  · rename_i same
    rwa [same]
  · exact .refl _

-- So it is when a thread that looks something up gets a memo.
theorem keeps_attached (looked : (w.thread t).hasLooked = true) (memo : Memo) (u : ThreadId) :
    (w.thread u).Keeps (((w.pruneMemos t).setThread t { (w.pruneMemos t).thread t with
      memos := ((w.pruneMemos t).thread t).memos ++ [memo] }).thread u) := by
  have still : ((w.pruneMemos t).thread t).hasLooked = true := by
    rw [pruneMemos, thread_put_self (w := w) rfl]
    exact looked
  have prunes : (w.thread u).Keeps ((w.pruneMemos t).thread u) := keeps_of_put rfl (.of_looked looked _) u
  exact prunes.trans (keeps_of_put rfl (.of_looked still _) u)

-- What comes of a lookup that was left.
def lastLookUp (t : ThreadId) (w : World) (retrieval : Retrieval) : World :=
  let outcome := w.retrieve t retrieval
  let registry := outcome.world.registryNamed? retrieval.registry
  outcome.world.note (.exitRetrieved registry outcome.answer
    (registry.bind fun r => (outcome.world.underLock? t r (·.lines.size)).toOption))

-- What comes of a thread's end.
def ended (w : World) (t : ThreadId) (memosFirst : Bool) (lookups : List Retrieval) : World :=
  let w := if memosFirst then lookups.foldl (lastLookUp t) (w.dropMemos t)
    else (lookups.foldl (lastLookUp t) w).dropMemos t
  ({ w with threads := w.threads.erase t }.note (.threadEnded t)).note (.answered none .done)

theorem refers_of_named {name : Name} {r : RegistryId} (named : w.registryNamed? name = some r) :
    w.refersToRegistry r = true := by
  unfold registryNamed? at named
  unfold refersToRegistry
  split at named
  · cases named
    simp only [decide_true, Bool.true_or]
  · have listed : w.registryNames.any (· = r) = true :=
      List.any_eq_true.mpr ⟨_, Table.mem_of_find? named, decide_eq_true rfl⟩
    simp only [listed, Bool.or_true, Bool.true_or]

theorem present_bare (kept : retrieval.keepAs = none) (b : BlockId) :
    (w.present retrieval b).world = w ∧ (w.present retrieval b).first = [] := by
  unfold present
  rw [kept]
  split <;> exact ⟨rfl, rfl⟩

-- What is told of a block does not depend on threads, nor on what has happened.
theorem present_past (kept : retrieval.keepAs = none) (threads : Table ThreadId Thread)
    (journal : List Event) (b : BlockId) :
    (({ w with threads, journal } : World).present retrieval b).answer = (w.present retrieval b).answer := by
  have described : ({ w with threads, journal } : World).describe? b = w.describe? b := rfl
  have read : ({ w with threads, journal } : World).readAll? b = w.readAll? b := rfl
  unfold present
  rw [kept, described, read]
  split <;> rfl

-- Nothing is left to be done after a lookup that keeps nothing but to let the registry go.
theorem retrieve_first (kept : retrieval.keepAs = none) (w : World) (t : ThreadId) :
    (w.retrieve t retrieval).first = [] ∨ ∃ r, w.registryNamed? retrieval.registry = some r ∧
      (w.retrieve t retrieval).first = [.releaseRegistry r] := by
  unfold retrieve
  split
  · exact .inl rfl
  · split
    · exact .inl rfl
    · rename_i r named
      split
      · exact .inl rfl
      · exact .inl rfl
      · simp only [(present_bare kept _).2, List.nil_append]
        exact .inr ⟨r, named, rfl⟩

/-! Whom a thread's end concerns. -/

-- What a thread does that changes no other thread and no name of a registry.
structure Aside (t : ThreadId) (w after : World) : Prop where
  others : ∀ u, u ≠ t → after.thread u = w.thread u
  names : after.registryNames = w.registryNames

namespace Aside

variable {last : World}

theorem refl (t : ThreadId) (w : World) : Aside t w w := ⟨fun _ _ => rfl, rfl⟩

theorem trans (first : Aside t w after) (next : Aside t after last) : Aside t w last :=
  ⟨fun u other => (next.others u other).trans (first.others u other), next.names.trans first.names⟩

theorem named (aside : Aside t w after) (name : Name) : after.registryNamed? name = w.registryNamed? name := by
  unfold registryNamed?
  rw [aside.names]

theorem isIn (aside : Aside t w after) (r : RegistryId) : after.isIn r = w.isIn r :=
  funext fun retrieval => congrArg (fun found => decide (found = some r)) (aside.named retrieval.registry)

end Aside

theorem retrieve_aside (kept : retrieval.keepAs = none) (w : World) (t : ThreadId) :
    Aside t w (w.retrieve t retrieval).world := by
  have looked : ∀ {r h result after}, w.lookUp t r h = (result, after) → Aside t w after := by
    intro r h result after looked
    obtain ⟨threads, registries, journal, rest⟩ := lookUp_rest w t r h
    have names := congrArg World.registryNames rest
    rw [looked] at names
    exact ⟨(lookUp_works looked).1.others, names⟩
  unfold retrieve
  split
  · exact .refl t w
  · split
    · exact .refl t w
    · split <;> rename_i answered
      · exact looked answered
      · exact looked answered
      · rw [(present_bare kept _).1]
        exact looked answered

theorem lastLookUp_aside (kept : retrieval.keepAs = none) (w : World) (t : ThreadId) :
    Aside t w (w.lastLookUp t retrieval) := (retrieve_aside kept w t).trans ⟨fun _ _ => rfl, rfl⟩

theorem dropMemos_aside (w : World) (t : ThreadId) : Aside t w (w.dropMemos t) := by
  have detached : ∀ (memos : List Memo) (w : World),
      (memos.foldl (detachMemo t) w).registryNames = w.registryNames := by
    intro memos
    induction memos with
    | nil => exact fun _ => rfl
    | cons memo rest ih =>
      intro w
      have first : (detachMemo t w memo).registryNames = w.registryNames := by
        unfold detachMemo
        split
        · split
          · rfl
          · rename_i locked
            obtain ⟨_, _, rfl⟩ := underLock_rest locked
            rfl
        · rfl
      exact (ih _).trans first
  exact ⟨(dropMemos_works w t).others, detached _ w⟩

theorem lastLookUps_aside {lookups : List Retrieval}
    (kept : ∀ retrieval ∈ lookups, retrieval.keepAs = none) (w : World) (t : ThreadId) :
    Aside t w (lookups.foldl (lastLookUp t) w) := by
  induction lookups generalizing w with
  | nil => exact .refl t w
  | cons retrieval later ih =>
    rw [List.forall_mem_cons] at kept
    exact (lastLookUp_aside kept.1 w t).trans (ih kept.2 _)

-- The thread is gone.
theorem ended_aside {lookups : List Retrieval} (kept : ∀ retrieval ∈ lookups, retrieval.keepAs = none)
    (w : World) (t : ThreadId) (memosFirst : Bool) :
    Aside t w (w.ended t memosFirst lookups) ∧ (w.ended t memosFirst lookups).thread t = .fresh := by
  have gone : ∀ {last : World}, Aside t w last → Aside t w
      (({ last with threads := last.threads.erase t }.note (.threadEnded t)).note (.answered none .done)) ∧
      (({ last with threads := last.threads.erase t }.note (.threadEnded t)).note
        (.answered none .done)).thread t = .fresh := by
    intro last aside
    have erased : ∀ u, (({ last with threads := last.threads.erase t }.note (.threadEnded t)).note
        (.answered none .done)).thread u = if u = t then .fresh else last.thread u := thread_erase rfl
    exact ⟨⟨fun u other => (erased u).trans ((if_neg other).trans (aside.others u other)), aside.names⟩,
      (erased t).trans (if_pos rfl)⟩
  unfold ended
  cases memosFirst with
  | true => exact gone ((dropMemos_aside w t).trans (lastLookUps_aside kept _ t))
  | false => exact gone ((lastLookUps_aside kept w t).trans (dropMemos_aside _ t))

end World

namespace Machine

variable {m : Machine} {retrieval : Retrieval} {lookups : List Retrieval} {rest : List Task}

theorem steps_lastLookUp (tasks : m.tasks = .retrieveAtExit retrieval :: rest)
    (kept : retrieval.keepAs = none) :
    ∃ n, m.steps n = ⟨m.world.lastLookUp m.thread retrieval, m.thread, rest⟩ := by
  have asked := step_of_cons tasks
  rcases World.retrieve_first kept m.world m.thread with none_first | ⟨r, named, released⟩
  · have waits : m.step = ⟨(m.world.retrieve m.thread retrieval).world, m.thread,
        .reportExit retrieval.registry (m.world.retrieve m.thread retrieval).answer :: rest⟩ := by
      rw [asked]
      simp only [World.take, none_first]
      rfl
    refine ⟨2, (step_of_cons (congrArg Machine.tasks waits)).trans ?_⟩
    rw [waits]
    rfl
  · have waits : m.step = ⟨(m.world.retrieve m.thread retrieval).world, m.thread, .releaseRegistry r ::
        .reportExit retrieval.registry (m.world.retrieve m.thread retrieval).answer :: rest⟩ := by
      rw [asked]
      simp only [World.take, released]
      rfl
    -- The registry still has the name under which it was looked for.
    have needed : (m.world.retrieve m.thread retrieval).world.refersToRegistry r = true :=
      World.refers_of_named (((World.retrieve_aside kept _ _).named retrieval.registry).trans named)
    have then_waits : m.step.step = ⟨(m.world.retrieve m.thread retrieval).world, m.thread,
        .reportExit retrieval.registry (m.world.retrieve m.thread retrieval).answer :: rest⟩ := by
      rw [step_of_cons (congrArg Machine.tasks waits), waits]
      simp only [World.take, World.releaseRegistry, needed, Bool.true_or, if_true, List.nil_append]
    refine ⟨3, (step_of_cons (congrArg Machine.tasks then_waits)).trans ?_⟩
    rw [then_waits]
    rfl

-- All of them, one after the other.
theorem steps_lastLookUps (tasks : m.tasks = lookups.map .retrieveAtExit ++ rest)
    (kept : ∀ retrieval ∈ lookups, retrieval.keepAs = none) :
    ∃ n, m.steps n = ⟨lookups.foldl (World.lastLookUp m.thread) m.world, m.thread, rest⟩ := by
  induction lookups generalizing m with
  | nil => exact ⟨0, by rw [steps, List.foldl_nil, ← show m.tasks = rest from tasks]⟩
  | cons retrieval later ih =>
    rw [List.forall_mem_cons] at kept
    obtain ⟨n, looked⟩ := steps_lastLookUp tasks kept.1
    obtain ⟨k, done⟩ := ih (m := m.steps n) (congrArg Machine.tasks looked) kept.2
    refine ⟨n + k, ?_⟩
    rw [steps_add, done, looked, List.foldl_cons]

theorem run_of_steps {n : Nat} {w : World} (last : m.steps n = ⟨w, m.thread, []⟩) :
    m.run.world = w := by
  rw [run_of_idle (congrArg Machine.tasks last), last]

theorem run_ended {w : World} {name : Name} {thread : Thread}
    (runs : w.threads.find? (.worker name) = some thread)
    (kept : ∀ retrieval ∈ thread.atExit, retrieval.keepAs = none) :
    (w.machineFor (.endThread name)).run.world
      = w.ended (.worker name) thread.memosEndFirst thread.atExit := by
  rw [machineFor_endThread runs]
  cases order : thread.memosEndFirst with
  | true =>
    rw [exitTasks_early order]
    obtain ⟨n, done⟩ := steps_lastLookUps (m := ⟨w.dropMemos (.worker name), .worker name,
      thread.atExit.map .retrieveAtExit ++ [.endThread, .answer none .done]⟩) rfl kept
    refine run_of_steps (n := 1 + (n + 2)) ?_
    rw [steps_add, steps_add]
    exact congrArg (steps · 2) done
  | false =>
    rw [exitTasks_late order]
    obtain ⟨n, done⟩ := steps_lastLookUps (m := ⟨w, .worker name,
      thread.atExit.map .retrieveAtExit ++ [.dropMemos, .endThread, .answer none .done]⟩) rfl kept
    refine run_of_steps (n := n + 3) ?_
    rw [steps_add]
    exact congrArg (steps · 3) done

theorem run_not_ended {w : World} {name : Name} (absent : w.threads.find? (.worker name) = none) :
    (w.machineFor (.endThread name)).run.world = w.note (.answered none (.failed .noSuchName)) := by
  have begun : w.machineFor (.endThread name) = ⟨w, .main, [.answer none (.failed .noSuchName)]⟩ := by
    unfold World.machineFor
    simp only [absent]
  rw [begun, run_of_idle (n := 1) rfl]
  rfl

-- So no other thread is concerned, whether the thread ran or not.
theorem ending_aside {w : World} {name : Name}
    (kept : ∀ retrieval ∈ (w.thread (.worker name)).atExit, retrieval.keepAs = none) :
    World.Aside (.worker name) w (w.machineFor (.endThread name)).run.world ∧
      (w.machineFor (.endThread name)).run.world.thread (.worker name) = .fresh := by
  cases found : w.threads.find? (.worker name) with
  | none =>
    rw [run_not_ended found]
    exact ⟨⟨fun _ _ => rfl, rfl⟩, World.thread_of_absent found⟩
  | some thread =>
    rw [World.thread_of_find? found] at kept
    rw [run_ended found kept]
    exact World.ended_aside kept w _ _

end Machine

/-! The last lookups of a thread whose memos are gone. -/

namespace World

variable {w : World} {t : ThreadId} {retrieval : Retrieval}

-- Its answer is told with the number of lines that there are then.
def lastAnswer (w : World) (retrieval : Retrieval) (answer : Answer) : Event :=
  let registry := w.registryNamed? retrieval.registry
  .exitRetrieved registry answer (registry.map fun r => (w.registry r).lines.size)

-- What is told of such a lookup, the latest first.
def directly (w : World) (t : ThreadId) (retrieval : Retrieval) : List Event :=
  match Handle.ofAddress? retrieval.address, w.registryNamed? retrieval.registry with
  | none, _ => [w.lastAnswer retrieval (.failed .nullHandle)]
  | some _, none => [w.lastAnswer retrieval (.failed .noSuchName)]
  | some h, some r =>
    match (w.registry r).contexts.get? h with
    | none =>
      [w.lastAnswer retrieval (.failed ((Refusal.unregistered h).raise retrieval.strict)),
        .lookedUp t r h none .direct]
    | some b => [w.lastAnswer retrieval (w.present retrieval b).answer, .lookedUp t r h (some b) .direct]

theorem directly_past (kept : retrieval.keepAs = none) (threads : Table ThreadId Thread)
    (journal : List Event) :
    ({ w with threads, journal } : World).directly t retrieval = w.directly t retrieval := by
  unfold directly
  simp only [present_past kept]
  rfl

end World

namespace Machine

variable {hashing : RegistryId → Handle → UInt64} {w : World} {t : ThreadId} {tasks rest : List Task}
  {retrieval : Retrieval} {lookups : List Retrieval}

theorem Reached.registry_named (reached : Reached hashing ⟨w, t, tasks⟩) {name : Name} {r : RegistryId}
    (named : w.registryNamed? name = some r) : ∃ registry, w.registries.find? r = some registry :=
  (Scene.Arises.live reached.arises).registry_named (Scene.Arises.tidy reached.arises) named

theorem Reached.lastLookUp_told (reached : Reached hashing ⟨w, t, tasks⟩) (runs : w.Runs t)
    (free : (w.thread t).depth = 0) {answer : Answer} (told : List Event) (first : List Task)
    (asked : w.retrieve t retrieval = ⟨{ w with journal := told ++ w.journal }, answer, first⟩) :
    w.lastLookUp t retrieval = { w with journal := w.lastAnswer retrieval answer :: told ++ w.journal } := by
  have counted : ((w.registryNamed? retrieval.registry).bind fun r =>
      (({ w with journal := told ++ w.journal } : World).underLock? t r (·.lines.size)).toOption)
      = (w.registryNamed? retrieval.registry).map fun r => (w.registry r).lines.size := by
    cases named : w.registryNamed? retrieval.registry with
    | none => rfl
    | some r =>
      obtain ⟨registry, found⟩ := reached.registry_named named
      have looked : ({ w with journal := told ++ w.journal } : World).underLock? t r (·.lines.size)
          = .ok registry.lines.size :=
        World.underLock?_free (w := { w with journal := told ++ w.journal }) runs free found _
      rw [Option.bind_some, looked, Option.map_some, World.registry_of_find? found]
      rfl
  unfold World.lastLookUp World.lastAnswer
  simp only [asked, ← counted]
  rfl

-- Nothing else comes of it.
theorem Reached.lastLookUp_gone (reached : Reached hashing ⟨w, t, tasks⟩) (runs : w.Runs t)
    (free : (w.thread t).depth = 0) (gone : (w.thread t).memosGone = true)
    (kept : retrieval.keepAs = none) :
    w.lastLookUp t retrieval = { w with journal := w.directly t retrieval ++ w.journal } := by
  unfold World.directly
  cases address : Handle.ofAddress? retrieval.address with
  | none =>
    refine reached.lastLookUp_told runs free [] [] ?_
    unfold World.retrieve
    rw [address]
    rfl
  | some h =>
    cases named : w.registryNamed? retrieval.registry with
    | none =>
      refine reached.lastLookUp_told runs free [] [] ?_
      unfold World.retrieve
      rw [address, named]
      rfl
    | some r =>
      obtain ⟨registry, found⟩ := reached.registry_named named
      obtain ⟨got, _, leaves⟩ := reached.looks runs free found h
      have looked : w.lookUp t r h = (.ok (registry.contexts.get? h),
          w.note (.lookedUp t r h (registry.contexts.get? h) .direct)) := Prod.ext got (leaves gone)
      simp only [World.registry_of_find? found]
      cases held : registry.contexts.get? h with
      | none =>
        refine reached.lastLookUp_told runs free [.lookedUp t r h none .direct] [] ?_
        unfold World.retrieve
        rw [address, named]
        simp only [looked, held]
        rfl
      | some b =>
        refine reached.lastLookUp_told runs free [.lookedUp t r h (some b) .direct] [.releaseRegistry r] ?_
        unfold World.retrieve
        rw [address, named]
        simp only [looked, held]
        obtain ⟨same, nothing⟩ :=
          World.present_bare (w := w.note (.lookedUp t r h (some b) .direct)) kept b
        have answer : ((w.note (.lookedUp t r h (some b) .direct)).present retrieval b).answer
            = (w.present retrieval b).answer := World.present_past kept w.threads _ b
        simp only [same, nothing, answer, List.nil_append]
        rfl

-- Nor of all of them, one after the other.
theorem Reached.lastLookUps_gone (reached : Reached hashing ⟨w, t, lookups.map .retrieveAtExit ++ rest⟩)
    (runs : w.Runs t) (free : (w.thread t).depth = 0) (gone : (w.thread t).memosGone = true)
    (kept : ∀ retrieval ∈ lookups, retrieval.keepAs = none) : lookups.foldl (World.lastLookUp t) w
      = { w with journal := lookups.reverse.flatMap (w.directly t) ++ w.journal } := by
  induction lookups generalizing w with
  | nil => rfl
  | cons retrieval later ih =>
    rw [List.forall_mem_cons] at kept
    have first := reached.lastLookUp_gone runs free gone kept.1
    obtain ⟨n, looked⟩ := steps_lastLookUp
      (m := ⟨w, t, .retrieveAtExit retrieval :: (later.map .retrieveAtExit ++ rest)⟩) rfl kept.1
    have reachedThen := reached.on (later_steps _ n)
    rw [List.map_cons, List.cons_append, looked] at reachedThen
    simp only [first] at reachedThen
    have others := ih reachedThen runs free gone kept.2
    have alike := List.flatMap_congr fun other listed => World.directly_past (w := w) (t := t)
      (kept.2 other (List.mem_reverse.mp listed)) w.threads (w.directly t retrieval ++ w.journal)
    rw [List.foldl_cons, first, others, alike, List.reverse_cons, List.flatMap_append,
      List.flatMap_singleton, List.append_assoc]

end Machine

end AttachedState
