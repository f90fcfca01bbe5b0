import AttachedState.Proofs.Strangers

/-!
Exits.  A thread that ends gives up its lines of all registries that it has looked something up in,
and makes the lookups that it has left for its end.  So it gives up its line of each of two
counterparts, or has none in either, and its last lookups there are told alike; its other lines and
lookups are of no account.
-/

namespace AttachedState

namespace World

variable {w : World} {t : ThreadId} {memo : Memo} {registry : Registry}

theorem detachMemo_free (runs : w.Runs t) (free : (w.thread t).depth = 0)
    (live : w.registries.find? memo.registry = some registry) : detachMemo t w memo
      = (w.setRegistry memo.registry { registry.detach memo.line with holder := none }).note
        (.lineDetached t memo.registry memo.line) := by
  unfold detachMemo
  rw [if_pos (Table.contains_iff.mpr ⟨registry, live⟩), underLock_free runs free live, detach_holder]

theorem detachMemo_gone (gone : w.registries.contains memo.registry = false) :
    detachMemo t w memo = w := by
  unfold detachMemo
  rw [gone]
  rfl

theorem runs_detachMemo (runs : w.Runs t) (free : (w.thread t).depth = 0) (memo : Memo) :
    (detachMemo t w memo).Runs t := by
  unfold Runs
  rwa [(detachMemo_quiet runs free memo []).1]

-- What comes of a thread's end when its last lookups have been made or are told of.
def departed (w : World) (t : ThreadId) (told : List Event) : World :=
  let w := w.dropMemos t
  ({ w with threads := w.threads.erase t, journal := told ++ w.journal }.note (.threadEnded t)).note
    (.answered none .done)

-- The others stay as they were when its lines had been given up.
theorem thread_left (w : World) (t u : ThreadId) :
    ({ (w.thread t).memos.foldl (detachMemo t) w with
      threads := (w.dropMemos t).threads.erase t } : World).thread u
      = if u = t then .fresh else ((w.thread t).memos.foldl (detachMemo t) w).thread u := by
  rw [thread_erase (w := w.dropMemos t) rfl]
  split
  · rfl
  · rename_i other
    unfold dropMemos
    rw [thread_put (w := (w.thread t).memos.foldl (detachMemo t) w) rfl, if_neg other]

theorem contains_left (w : World) (t u : ThreadId) : ((w.dropMemos t).threads.erase t).contains u
    = (!decide (u = t) && ((w.thread t).memos.foldl (detachMemo t) w).threads.contains u) := by
  unfold dropMemos setThread
  rw [Table.contains_erase, Table.contains_put]
  by_cases same : u = t <;> simp [same]

/-! Last lookups. -/

variable {r : RegistryId} {retrieval : Retrieval}

theorem lastAnswer_away (away : w.isIn r retrieval = false) (answer : Answer) :
    (w.lastAnswer retrieval answer).about? ≠ some r := of_decide_eq_false away

theorem directly_away (away : w.isIn r retrieval = false) (t : ThreadId) :
    ∀ e ∈ w.directly t retrieval, e.about? ≠ some r := by
  unfold directly
  split
  · exact List.forall_mem_singleton.mpr (lastAnswer_away away _)
  · exact List.forall_mem_singleton.mpr (lastAnswer_away away _)
  · rename_i h s _ named
    have other : s ≠ r := fun same => of_decide_eq_false away (same ▸ named)
    split <;>
      exact List.forall_mem_cons.mpr ⟨lastAnswer_away away _,
        List.forall_mem_singleton.mpr fun here => other (Option.some.inj here)⟩

theorem directly_dropMemos (kept : retrieval.keepAs = none) (w : World) (t : ThreadId) :
    (w.dropMemos t).directly t retrieval
      = ((w.thread t).memos.foldl (detachMemo t) w).directly t retrieval := directly_past kept _ _

theorem directly_born (w : World) (t : ThreadId) (retrieval : Retrieval) :
    ∀ e ∈ w.directly t retrieval, e.born? = none := by
  unfold directly lastAnswer
  split
  · exact List.forall_mem_singleton.mpr rfl
  · exact List.forall_mem_singleton.mpr rfl
  · split <;> exact List.forall_mem_cons.mpr ⟨rfl, List.forall_mem_singleton.mpr rfl⟩

end World

namespace Machine.Reached

variable {hashing : RegistryId → Handle → UInt64} {w : World} {t : ThreadId} {rest : List Task}
  {r : RegistryId} {retrieval : Retrieval} {lookups : List Retrieval}

-- The lines of the registry are counted when the lookup has been made.
theorem lastLookUp_eq (reached : Reached hashing ⟨w, t, .retrieveAtExit retrieval :: rest⟩)
    (free : ((w.retrieve t retrieval).world.thread t).depth = 0) (kept : retrieval.keepAs = none)
    (named : w.registryNamed? retrieval.registry = some r) : ∃ registry,
    (w.retrieve t retrieval).world.registries.find? r = some registry ∧
    w.lastLookUp t retrieval = (w.retrieve t retrieval).world.note
      (.exitRetrieved (some r) (w.retrieve t retrieval).answer (some registry.lines.size)) := by
  have then_waits := reached.step
  rw [step_of_cons rfl] at then_waits
  have namedThen := ((World.retrieve_aside kept w t).named _).trans named
  obtain ⟨registry, found⟩ := then_waits.registry_named namedThen
  have runs : (w.retrieve t retrieval).world.Runs t := then_waits.runs_ahead
    (.reportExit retrieval.registry (w.retrieve t retrieval).answer)
    (List.mem_append_left _ (List.mem_append_right _ List.mem_cons_self)) rfl
  refine ⟨registry, found, ?_⟩
  unfold World.lastLookUp
  simp only [namedThen, Option.bind_some, World.underLock?_free runs free found]
  rfl

-- A command that ends a thread has begun.
theorem ending {u : ThreadId} {name : Name} {thread : Thread} (reached : Reached hashing ⟨w, u, []⟩)
    (found : w.threads.find? (.worker name) = some thread) :
    Reached hashing ⟨w, .worker name, thread.exitTasks⟩ := by
  rw [← machineFor_endThread found]
  exact reached.on (.single (.told rfl True.intro))

-- The lookups are made after the memos have been given up, and leave nothing behind.
theorem ended_early
    (reached : Reached hashing ⟨w, t, .dropMemos :: (lookups.map .retrieveAtExit ++ rest)⟩)
    (runs : w.Runs t) (free : (w.thread t).depth = 0)
    (kept : ∀ retrieval ∈ lookups, retrieval.keepAs = none) : w.ended t true lookups
      = w.departed t (lookups.reverse.flatMap ((w.dropMemos t).directly t)) := by
  have dropped := World.dropMemos_quiets free
  obtain ⟨after, there, _, gone⟩ := World.thread_dropMemos w t
  have then_looks : Reached hashing ⟨w.dropMemos t, t, lookups.map .retrieveAtExit ++ rest⟩ := reached.step
  have made := then_looks.lastLookUps_gone (dropped.runs runs) ((dropped.depth t).trans free)
    ((congrArg Thread.memosGone (World.thread_of_find? there)).trans gone) kept
  unfold World.ended World.departed
  simp only [if_true, made]

end Machine.Reached

namespace Counterpart

variable {c : Counterpart}

theorem Registries.detach {x y : Registry} (related : c.Registries x y) (line : Ticket) :
    c.Registries { x.detach line with holder := none } { y.detach line with holder := none } := by
  unfold Registry.detach
  rw [related.lines]
  cases x.lines.remove? line with
  | none => exact ⟨related.label, related.lines, related.maps⟩
  | some taken => exact ⟨related.label, rfl, related.maps⟩

/-! What is told of the registry. -/

-- What was told of it since was told of its counterpart.
def TellsOf (c : Counterpart) (w w' after after' : World) : Prop :=
  ∃ told told', after.journal = told ++ w.journal ∧ after'.journal = told' ++ w'.journal ∧
    List.Forall₂ c.Events (told.filter (·.about? = some c.here))
      (told'.filter (·.about? = some c.there))

theorem none_about {r : RegistryId} {told : List Event} (others : ∀ e ∈ told, e.about? ≠ some r) :
    told.filter (·.about? = some r) = [] :=
  List.filter_eq_nil_iff.mpr fun e listed here => others e listed (of_decide_eq_true here)

theorem events_filter {told told' : List Event} (both : List.Forall₂ c.Events told told') :
    List.Forall₂ c.Events (told.filter (·.about? = some c.here))
      (told'.filter (·.about? = some c.there)) :=
  List.rel_filter (fun _ _ same => by simpa using same.about?.symm) both

-- The worlds come to be the two others.
structure Leaves (c : Counterpart) (w w' after after' : World) : Prop where
  worlds : c.Worlds after after'
  told : c.TellsOf w w' after after'

namespace Leaves

variable {w w' after after' last last' : World}

theorem refl (worlds : c.Worlds w w') : c.Leaves w w' w w' := ⟨worlds, [], [], rfl, rfl, .nil⟩

theorem trans (first : c.Leaves w w' after after') (next : c.Leaves after after' last last') :
    c.Leaves w w' last last' := by
  obtain ⟨told, told', one, other, both⟩ := first.told
  obtain ⟨more, more', oneMore, otherMore, bothMore⟩ := next.told
  refine ⟨next.worlds, more ++ told, more' ++ told', ?_, ?_, ?_⟩
  · rw [oneMore, one, List.append_assoc]
  · rw [otherMore, other, List.append_assoc]
  · rw [List.filter_append, List.filter_append]
    exact List.rel_append bothMore both

theorem of_tells (worlds : c.Worlds after after') (tells : c.Tells w w' after after') :
    c.Leaves w w' after after' := by
  obtain ⟨told, told', one, other, both⟩ := tells
  exact ⟨worlds, told, told', one, other, events_filter both⟩

-- Nothing of the registry is told in the one world, and nothing at all happens in the other.
theorem alone (worlds : c.Worlds after w') (told : List Event) (journal : after.journal = told ++ w.journal)
    (others : ∀ e ∈ told, e.about? ≠ some c.here) : c.Leaves w w' after w' := by
  refine ⟨worlds, told, [], journal, rfl, ?_⟩
  rw [none_about others]
  exact .nil

end Leaves

namespace Worlds

variable {w w' : World} {x : Registry} {t : ThreadId} {memo : Memo} {retrieval : Retrieval}
  {lookups : List Retrieval}

/-! Lines are given up. -/

-- A line of another registry is given up.
theorem detachElsewhere (worlds : c.Worlds w w') (runs : w.Runs t) (away : memo.registry ≠ c.here) :
    c.Leaves w w' (World.detachMemo t w memo) w' := by
  cases live : w.registries.find? memo.registry with
  | none =>
    rw [World.detachMemo_gone (Table.not_contains_iff.mpr live)]
    exact .refl worlds
  | some registry =>
    rw [World.detachMemo_free runs (worlds.free t).1 live]
    have changed : c.Worlds
        (w.setRegistry memo.registry { registry.detach memo.line with holder := none }) w' := by
      refine { worlds with registry := ?_, threads := fun u => ?_, apart := ?_ }
      · unfold World.setRegistry
        rw [Table.find?_put_of_ne _ _ (Ne.symm away)]
        exact worlds.registry
      · unfold World.setRegistry
        rw [Table.contains_put, decide_eq_false (Ne.symm away), Bool.false_or]
        exact worlds.threads u
      · intro r contexts ticket h b found entry
        have kept : ({ registry.detach memo.line with holder := none } : Registry).contexts
            = registry.contexts := registry.detach_contexts memo.line
        rw [World.map?_put (w := w) rfl kept] at found
        split at found
        · rename_i same
          cases found
          exact worlds.apart r _ ticket h b (by rw [same]; exact World.map?_of_find? live) entry
        · exact worlds.apart r contexts ticket h b found entry
    exact .alone (changed.told [_] (List.forall_mem_singleton.mpr rfl) w'.journal) [_] rfl
      (List.forall_mem_singleton.mpr fun here => away (Option.some.inj here))

-- The line of the registry is given up, and that of its counterpart.
theorem detachHere (worlds : c.Worlds w w') (runs : w.Runs t) (runsToo : w'.Runs t)
    (live : w.registries.find? c.here = some x) (here : memo.registry = c.here) :
    c.Leaves w w' (World.detachMemo t w memo) (World.detachMemo t w' (c.memo memo)) := by
  obtain ⟨r, line, block⟩ := memo
  cases here
  obtain ⟨y, found, related⟩ := worlds.registry_of_find? live
  have foundToo : w'.registries.find? (c.memo ⟨c.here, line, block⟩).registry = some y := found
  rw [World.detachMemo_free runs (worlds.free t).1 live,
    World.detachMemo_free runsToo (worlds.free t).2 foundToo]
  exact .of_tells ((worlds.rewritten live (related.detach line)).note rfl)
    ⟨[_], [_], rfl, rfl, .cons (.lineDetached t line) .nil⟩

-- The lines of a thread are given up one after the other, in the one world and in the other.
theorem detachAll (memos : List Memo) (worlds : c.Worlds w w') (runs : w.Runs t)
    (live : w.registries.contains c.here = true) {memosToo : List Memo}
    (runsToo : memosToo ≠ [] → w'.Runs t)
    (same : memosToo = (memos.filter (·.registry = c.here)).map c.memo) :
    c.Leaves w w' (memos.foldl (World.detachMemo t) w) (memosToo.foldl (World.detachMemo t) w') := by
  induction memos generalizing w w' memosToo with
  | nil =>
    subst same
    exact .refl worlds
  | cons memo rest ih =>
    have runsThen := World.runs_detachMemo runs (worlds.free t).1 memo
    have liveThen : (World.detachMemo t w memo).registries.contains c.here = true := by
      cases found : w.registries.find? memo.registry with
      | none =>
        rw [World.detachMemo_gone (Table.not_contains_iff.mpr found)]
        exact live
      | some registry =>
        rw [World.detachMemo_free runs (worlds.free t).1 found]
        simp only [World.note, World.setRegistry, Table.contains_put, live, Bool.or_true]
    rw [List.foldl_cons]
    by_cases here : memo.registry = c.here
    · rw [List.filter_cons_of_pos (by simpa using here), List.map_cons] at same
      subst same
      have runsNow := runsToo (List.cons_ne_nil _ _)
      obtain ⟨x, found⟩ := Table.contains_iff.mp live
      have first := worlds.detachHere runs runsNow found here
      rw [List.foldl_cons]
      exact first.trans (ih first.worlds runsThen liveThen
        (fun _ => World.runs_detachMemo runsNow (worlds.free t).2 _) rfl)
    · rw [List.filter_cons_of_neg (by simpa using here)] at same
      have first := worlds.detachElsewhere runs here
      exact first.trans (ih first.worlds runsThen liveThen runsToo same)

-- There is none to give up of a registry that is gone.
theorem detachAll_gone (memos : List Memo) (worlds : c.Worlds w w') (runs : w.Runs t)
    (gone : w.registries.contains c.here = false) :
    c.Leaves w w' (memos.foldl (World.detachMemo t) w) w' := by
  induction memos generalizing w with
  | nil => exact .refl worlds
  | cons memo rest ih =>
    rw [List.foldl_cons]
    by_cases here : memo.registry = c.here
    · rw [World.detachMemo_gone (here ▸ gone)]
      exact ih worlds runs gone
    · have first := worlds.detachElsewhere runs here
      refine first.trans (ih first.worlds (World.runs_detachMemo runs (worlds.free t).1 memo) ?_)
      cases found : w.registries.find? memo.registry with
      | none =>
        rw [World.detachMemo_gone (Table.not_contains_iff.mpr found)]
        exact gone
      | some registry =>
        rw [World.detachMemo_free runs (worlds.free t).1 found]
        simp only [World.note, World.setRegistry, Table.contains_put, gone, Bool.or_false,
          decide_eq_false_iff_not]
        exact Ne.symm here

-- What both threads remember is given up.
theorem detached (worlds : c.Worlds w w') (runs : w.Runs t) :
    c.Leaves w w' ((w.thread t).memos.foldl (World.detachMemo t) w)
      ((w'.thread t).memos.foldl (World.detachMemo t) w') := by
  have threads := worlds.threads t
  have known : (w'.thread t).memos ≠ [] → w'.Runs t := by
    intro some_there
    cases found : w'.threads.find? t with
    | some thread => exact ⟨thread, found⟩
    | none =>
      rw [World.thread_of_absent found] at some_there
      exact absurd rfl some_there
  cases live : w.registries.contains c.here with
  | true =>
    refine worlds.detachAll (w.thread t).memos runs live known ?_
    rw [← threads.memos live, List.filter_eq_self.mpr fun memo listed => by simpa using threads.alone memo listed]
  | false =>
    have goneToo : w'.registries.contains c.there = false := worlds.live_iff.trans live
    have still : (w'.thread t).memos.foldl (World.detachMemo t) w' = w' := by
      have alone := threads.alone
      generalize (w'.thread t).memos = memos at alone
      induction memos with
      | nil => rfl
      | cons memo rest ih =>
        have there := alone memo List.mem_cons_self
        rw [List.foldl_cons, World.detachMemo_gone (there ▸ goneToo)]
        exact ih fun memo listed => alone memo (List.mem_cons_of_mem _ listed)
    rw [still]
    exact worlds.detachAll_gone (w.thread t).memos runs live

/-! Last lookups are made. -/

section Lookups

variable {hashing hashingToo : RegistryId → Handle → UInt64} {rest restToo : List Task}

theorem lastLookUp_elsewhere (worlds : c.Worlds w w')
    (reached : Machine.Reached hashing ⟨w, t, .retrieveAtExit retrieval :: rest⟩)
    (kept : retrieval.keepAs = none) (away : w.isIn c.here retrieval = false) :
    c.Leaves w w' (w.lastLookUp t retrieval) w' := by
  have runs := reached.runs_ahead _ List.mem_cons_self rfl
  have off := of_decide_eq_false away
  obtain ⟨spares, _⟩ := worlds.retrieve_elsewhere reached.arises runs off fun name d keeps => by
    rw [kept] at keeps
    cases keeps
  have noted : c.Spares w (w.lastLookUp t retrieval) :=
    spares.trans (.note rfl ((World.retrieve_aside kept w t).named _ ▸ off))
  obtain ⟨n, made⟩ := Machine.steps_lastLookUp (m := ⟨w, t, .retrieveAtExit retrieval :: rest⟩) rfl kept
  have reachedThen := reached.on (Machine.later_steps _ n)
  rw [made] at reachedThen
  obtain ⟨told, journal, others⟩ := noted.told
  exact .alone (worlds.spared noted reachedThen.arises) told journal others

theorem lastLookUp (worlds : c.Worlds w w')
    (reached : Machine.Reached hashing ⟨w, t, .retrieveAtExit retrieval :: rest⟩)
    (reachedToo : Machine.Reached hashingToo ⟨w', t, .retrieveAtExit retrieval :: restToo⟩)
    (kept : retrieval.keepAs = none) (own : w.isIn c.here retrieval = true) :
    c.Leaves w w' (w.lastLookUp t retrieval) (w'.lastLookUp t retrieval) := by
  have named := of_decide_eq_true own
  have namedToo := (worlds.named (Scene.Arises.tidy reached.arises)).mpr named
  obtain ⟨x, live⟩ := reached.registry_named named
  have outcomes : c.Outcomes (fun _ => False) (w.asked t (.operate (.retrieve retrieval)))
      (w'.asked t (.operate (.retrieve retrieval))) (w.retrieve t retrieval) (w'.retrieve t retrieval) :=
    worlds.retrieve reached.arises (reached.runs_ahead _ List.mem_cons_self rfl) live named
      fun name d keeps => by
        rw [kept] at keeps
        cases keeps
  obtain ⟨goes, answer, _⟩ := outcomes
  obtain ⟨now, found, last⟩ := reached.lastLookUp_eq (goes.worlds.free t).1 kept named
  obtain ⟨nowToo, foundToo, lastToo⟩ := reachedToo.lastLookUp_eq (goes.worlds.free t).2 kept namedToo
  obtain ⟨_, there, related⟩ := goes.worlds.registry_of_find? found
  cases foundToo.symm.trans there
  rw [last, lastToo, answer, related.lines]
  have noted := goes.note (.exitRetrieved (w.retrieve t retrieval).answer (some now.lines.size)) rfl
  have told := noted.told
  obtain ⟨_, asked⟩ := w.asked_rest t (.operate (.retrieve retrieval))
  obtain ⟨_, askedToo⟩ := w'.asked_rest t (.operate (.retrieve retrieval))
  rw [asked, askedToo] at told
  exact .of_tells noted.worlds told

-- All of them are made in the one world, and in the other one those in the counterpart.
theorem lastLookUps (worlds : c.Worlds w w')
    (reached : Machine.Reached hashing ⟨w, t, lookups.map .retrieveAtExit ++ rest⟩)
    (kept : ∀ retrieval ∈ lookups, retrieval.keepAs = none)
    (reachedToo : lookups.filter (w.isIn c.here) ≠ [] → Machine.Reached hashingToo
      ⟨w', t, (lookups.filter (w.isIn c.here)).map .retrieveAtExit ++ restToo⟩) :
    c.Leaves w w' (lookups.foldl (World.lastLookUp t) w)
      ((lookups.filter (w.isIn c.here)).foldl (World.lastLookUp t) w') := by
  induction lookups generalizing w w' with
  | nil => exact .refl worlds
  | cons retrieval later ih =>
    rw [List.forall_mem_cons] at kept
    have same := (World.lastLookUp_aside kept.1 w t).isIn c.here
    obtain ⟨n, made⟩ := Machine.steps_lastLookUp
      (m := ⟨w, t, .retrieveAtExit retrieval :: (later.map .retrieveAtExit ++ rest)⟩) rfl kept.1
    have reachedThen := reached.on (Machine.later_steps _ n)
    rw [List.map_cons, List.cons_append, made] at reachedThen
    rw [List.foldl_cons]
    cases own : w.isIn c.here retrieval with
    | false =>
      rw [List.filter_cons_of_neg (by rw [own]; exact Bool.false_ne_true)] at reachedToo ⊢
      have first := worlds.lastLookUp_elsewhere reached kept.1 own
      have others := ih first.worlds reachedThen kept.2 (by rwa [same])
      rw [same] at others
      exact first.trans others
    | true =>
      rw [List.filter_cons_of_pos own] at reachedToo ⊢
      have reachedNow := reachedToo (List.cons_ne_nil _ _)
      obtain ⟨k, madeToo⟩ := Machine.steps_lastLookUp (m := ⟨w', t, .retrieveAtExit retrieval ::
        ((later.filter (w.isIn c.here)).map .retrieveAtExit ++ restToo)⟩) rfl kept.1
      have reachedThenToo := reachedNow.on (Machine.later_steps _ k)
      rw [List.map_cons, List.cons_append, madeToo] at reachedThenToo
      have first := worlds.lastLookUp reached reachedNow kept.1 own
      have others := ih first.worlds reachedThen kept.2 (by rw [same]; exact fun _ => reachedThenToo)
      rw [List.foldl_cons]
      rw [same] at others
      exact first.trans others

/-! Last lookups are told of, when the memos have been given up. -/

theorem directly (worlds : c.Worlds w w') (tidy : w.Tidy) (live : w.registries.find? c.here = some x)
    (kept : retrieval.keepAs = none) (own : w.isIn c.here retrieval = true) :
    List.Forall₂ c.Events (w.directly t retrieval) (w'.directly t retrieval) := by
  have named := of_decide_eq_true own
  have namedToo := (worlds.named tidy).mpr named
  obtain ⟨y, found, related⟩ := worlds.registry_of_find? live
  have answered : ∀ answer, c.Events (w.lastAnswer retrieval answer) (w'.lastAnswer retrieval answer) := by
    intro answer
    unfold World.lastAnswer
    simp only [named, namedToo, Option.map_some, World.registry_of_find? live,
      World.registry_of_find? found, related.lines]
    exact .exitRetrieved answer _
  unfold World.directly
  cases Handle.ofAddress? retrieval.address with
  | none => exact .cons (answered _) .nil
  | some h =>
    simp only [named, namedToo, World.registry_of_find? live, World.registry_of_find? found,
      related.maps.get?]
    cases held : x.contexts.get? h with
    | none => exact .cons (answered _) (.cons (.lookedUp (fun _ none_found => by cases none_found) t h .direct) .nil)
    | some b =>
      have owns := related.maps.owned_get? held
      have presented : c.Outcomes (fun _ => False) w w' (w.present retrieval b)
          (w'.present retrieval (c.block b)) := worlds.present tidy owns fun name d keeps => by
        rw [kept] at keeps
        cases keeps
      simp only [Option.map_some, presented.answer]
      exact .cons (answered _) (.cons (.lookedUp (fun d same => Option.some.inj same ▸ owns) t h .direct) .nil)

-- All that is told in the one world of the registry is told in the other of its counterpart.
theorem directlyAll (worlds : c.Worlds w w') (tidy : w.Tidy) (runs : w.Runs t)
    (reached : Machine.Reached hashing ⟨w.dropMemos t, t, rest⟩)
    (kept : ∀ retrieval ∈ lookups, retrieval.keepAs = none) :
    List.Forall₂ c.Events
      ((lookups.flatMap ((w.dropMemos t).directly t)).filter (·.about? = some c.here))
      (((lookups.filter (w.isIn c.here)).flatMap ((w'.dropMemos t).directly t)).filter
        (·.about? = some c.there)) := by
  have same := (World.dropMemos_aside w t).isIn c.here
  induction lookups with
  | nil => exact .nil
  | cons retrieval later ih =>
    rw [List.forall_mem_cons] at kept
    rw [List.flatMap_cons, List.filter_append]
    cases own : w.isIn c.here retrieval with
    | false =>
      rw [List.filter_cons_of_neg (by rw [own]; exact Bool.false_ne_true)]
      have away := World.directly_away (same ▸ own : (w.dropMemos t).isIn c.here retrieval = false) t
      rw [none_about away]
      exact ih kept.2
    | true =>
      rw [List.filter_cons_of_pos own, List.flatMap_cons, List.filter_append]
      obtain ⟨threads, _⟩ := World.detachMemos_quiets (w.thread t).memos runs (worlds.free t).1
      have tidyThen : (w.dropMemos t).Tidy := Scene.Arises.tidy reached.arises
      have given_up : ((w.thread t).memos.foldl (World.detachMemo t) w).Tidy :=
        { tidyThen with threads := threads ▸ tidy.threads }
      obtain ⟨x, live⟩ := reached.registry_named (of_decide_eq_true (same ▸ own))
      have told : List.Forall₂ c.Events ((w.dropMemos t).directly t retrieval)
          ((w'.dropMemos t).directly t retrieval) := by
        rw [World.directly_dropMemos kept.1, World.directly_dropMemos kept.1]
        exact (worlds.detached runs).worlds.directly given_up live kept.1 (same ▸ own)
      exact List.rel_append (events_filter told) (ih kept.2)

end Lookups

/-! Threads end. -/

-- Other threads run, and something was told.
theorem rethreaded (worlds : c.Worlds w w') (threads threadsToo : Table ThreadId Thread)
    (running : ∀ u, threadsToo.contains u = true → threads.contains u = true)
    (related : ∀ u, c.Threads (w.registries.contains c.here = true) (({ w with threads } : World).thread u)
      (({ w' with threads := threadsToo } : World).thread u)) (told : List Event)
    (silent : ∀ e ∈ told, e.born? = none) (journal : List Event) :
    c.Worlds { w with threads, journal := told ++ w.journal } { w' with threads := threadsToo, journal } := by
  have threaded : c.Worlds { w with threads } { w' with threads := threadsToo } :=
    { worlds with running := running, threads := related }
  exact threaded.told told silent journal

theorem departed (worlds : c.Worlds w w') (runs : w.Runs t) (told told' : List Event)
    (silent : ∀ e ∈ told, e.born? = none)
    (both : List.Forall₂ c.Events (told.filter (·.about? = some c.here))
      (told'.filter (·.about? = some c.there))) :
    c.Leaves w w' (w.departed t told) (w'.departed t told') := by
  have detached := worlds.detached runs
  have gone : c.Worlds (w.departed t told) (w'.departed t told') := by
    refine detached.worlds.rethreaded ((w.dropMemos t).threads.erase t) ((w'.dropMemos t).threads.erase t)
      (fun u there => ?_) (fun u => ?_) (.answered none .done :: .threadEnded t :: told) ?_ _
    · rw [World.contains_left, Bool.and_eq_true] at there ⊢
      exact there.imp_right (detached.worlds.running u)
    · rw [World.thread_left, World.thread_left]
      split
      · exact .fresh
      · exact detached.worlds.threads u
    · exact List.forall_mem_cons.mpr ⟨rfl, List.forall_mem_cons.mpr ⟨rfl, silent⟩⟩
  exact detached.trans ⟨gone, .answered none .done :: .threadEnded t :: told,
    .answered none .done :: .threadEnded t :: told', rfl, rfl, both⟩

-- It was in the one world only.
theorem departed_alone (worlds : c.Worlds w w') (runs : w.Runs t) (absent : w'.threads.find? t = none)
    {told : List Event} (silent : ∀ e ∈ told, e.born? = none)
    (others : ∀ e ∈ told, e.about? ≠ some c.here) (e : Event) (aside : e.about? = none) :
    c.Leaves w w' (w.departed t told) (w'.note e) := by
  have detached := worlds.detached runs
  rw [World.thread_of_absent absent] at detached
  have gone : c.Worlds (w.departed t told) (w'.note e) := by
    refine detached.worlds.rethreaded ((w.dropMemos t).threads.erase t) w'.threads
      (fun u there => ?_) (fun u => ?_) (.answered none .done :: .threadEnded t :: told) ?_ _
    · have ne : u ≠ t := by
        rintro rfl
        rw [Table.not_contains_iff.mpr absent] at there
        cases there
      rw [World.contains_left, detached.worlds.running u there, decide_eq_false ne]
      rfl
    · rw [World.thread_left]
      split
      · rename_i same
        rw [same]
        exact (World.thread_of_absent absent).symm ▸ .fresh
      · exact detached.worlds.threads u
    · exact List.forall_mem_cons.mpr ⟨rfl, List.forall_mem_cons.mpr ⟨rfl, silent⟩⟩
  refine detached.trans ⟨gone, .answered none .done :: .threadEnded t :: told, [e], rfl, rfl, ?_⟩
  have never : ∀ r : RegistryId, none ≠ some r := fun r => (Option.some_ne_none r).symm
  have away : ∀ e ∈ .answered none .done :: .threadEnded t :: told, e.about? ≠ some c.here :=
    List.forall_mem_cons.mpr ⟨never _, List.forall_mem_cons.mpr ⟨never _, others⟩⟩
  have awayToo : ∀ other ∈ [e], Event.about? other ≠ some c.there :=
    List.forall_mem_singleton.mpr (aside ▸ never _)
  rw [none_about away, none_about awayToo]
  exact .nil

theorem unknown (worlds : c.Worlds w w') (live : w.registries.find? c.here = some x)
    (bare : (w'.thread t).memos = []) : (w.thread t).knows c.here = false := by
  have same := (worlds.threads t).memo? (Table.contains_iff.mpr ⟨x, live⟩)
  have none_there : (w'.thread t).memo? c.there = none := by
    unfold Thread.memo?
    rw [bare, List.find?_nil]
  unfold Thread.knows
  rw [Option.map_eq_none_iff.mp (same.symm.trans none_there)]
  rfl

section Ends

variable {hashing hashingToo : RegistryId → Handle → UInt64} {u v : ThreadId} {name : Name}

-- If there is anything for both threads to look up in the end, both do so before they give their memos
-- up, or both after that.
theorem memosEndFirst_eq (worlds : c.Worlds w w') (reached : Machine.Reached hashing ⟨w, u, []⟩)
    (ends : (w.thread t).Ends (w.isIn c.here) (w'.thread t)) (some_left : (w'.thread t).atExit ≠ [])
    (order : w.EndsInOrder t c.here) :
    (w'.thread t).memosEndFirst = (w.thread t).memosEndFirst := by
  cases looked : (w'.thread t).hasLooked with
  | true => exact ends.order some_left looked
  | false =>
    obtain ⟨bare, first⟩ := ends.unlooked looked
    rw [ends.left] at some_left
    obtain ⟨retrieval, left⟩ := List.exists_mem_of_ne_nil _ some_left
    obtain ⟨listed, own⟩ := List.mem_filter.mp left
    obtain ⟨x, live⟩ := reached.registry_named (of_decide_eq_true own)
    rw [first, order (List.any_eq_true.mpr ⟨retrieval, listed, own⟩) (worlds.unknown live bare)]

variable {thread : Thread}

theorem exited_late (worlds : c.Worlds w w') (reached : Machine.Reached hashing ⟨w, u, []⟩)
    (reachedToo : Machine.Reached hashingToo ⟨w', v, []⟩)
    (found : w.threads.find? (.worker name) = some thread)
    (ends : thread.Ends (w.isIn c.here) (w'.thread (.worker name))) (last : thread.memosEndFirst = false)
    (lastToo : (w'.thread (.worker name)).memosEndFirst = false) :
    c.Leaves w w' (w.ended (.worker name) false thread.atExit)
      (w'.machineFor (.endThread name)).run.world := by
  have begun := reached.ending found
  rw [Machine.exitTasks_late last] at begun
  obtain ⟨n, looked⟩ := Machine.steps_lastLookUps (m := ⟨w, .worker name, thread.atExit.map .retrieveAtExit
    ++ [.dropMemos, .endThread, .answer none .done]⟩) rfl ends.kept
  have then_drops := begun.on (Machine.later_steps _ n)
  rw [looked] at then_drops
  have runs := then_drops.runs_ahead .dropMemos List.mem_cons_self rfl
  cases foundToo : w'.threads.find? (.worker name) with
  | none =>
    have nothing := ends.left
    rw [World.thread_of_absent foundToo] at nothing
    have never : thread.atExit.filter (w.isIn c.here) ≠ [] → Machine.Reached hashingToo ⟨w', .worker name,
        (thread.atExit.filter (w.isIn c.here)).map .retrieveAtExit ++ []⟩ :=
      fun some_left => absurd nothing.symm some_left
    have looks := worlds.lastLookUps begun ends.kept never
    rw [← nothing] at looks
    rw [Machine.run_not_ended foundToo]
    exact looks.trans (looks.worlds.departed_alone runs foundToo (List.forall_mem_nil _)
      (List.forall_mem_nil _) _ rfl)
  | some threadToo =>
    have left := ends.left
    have keptToo := ends.kept_both
    rw [World.thread_of_find? foundToo] at left lastToo keptToo
    have begunToo := reachedToo.ending foundToo
    rw [Machine.exitTasks_late lastToo, left] at begunToo
    have looks := worlds.lastLookUps begun ends.kept fun _ => begunToo
    rw [Machine.run_ended foundToo keptToo, lastToo, left]
    exact looks.trans (looks.worlds.departed runs [] [] (List.forall_mem_nil _) .nil)

theorem exited_early (worlds : c.Worlds w w') (reached : Machine.Reached hashing ⟨w, u, []⟩)
    (reachedToo : Machine.Reached hashingToo ⟨w', v, []⟩)
    (found : w.threads.find? (.worker name) = some thread)
    (ends : thread.Ends (w.isIn c.here) (w'.thread (.worker name))) (first : thread.memosEndFirst = true)
    (firstToo : (w'.thread (.worker name)).atExit ≠ [] →
      (w'.thread (.worker name)).memosEndFirst = true) :
    c.Leaves w w' (w.ended (.worker name) true thread.atExit)
      (w'.machineFor (.endThread name)).run.world := by
  have begun := reached.ending found
  rw [Machine.exitTasks_early first] at begun
  have runs : w.Runs (.worker name) := ⟨thread, found⟩
  have silent : ∀ e ∈ thread.atExit.reverse.flatMap
      ((w.dropMemos (.worker name)).directly (.worker name)), e.born? = none := by
    intro e listed
    obtain ⟨retrieval, _, told⟩ := List.mem_flatMap.mp listed
    exact World.directly_born _ _ retrieval e told
  have keptBack : ∀ retrieval ∈ thread.atExit.reverse, retrieval.keepAs = none :=
    fun retrieval listed => ends.kept retrieval (List.mem_reverse.mp listed)
  have both := worlds.directlyAll (Scene.Arises.tidy reached.arises) runs begun.step keptBack
  rw [List.filter_reverse, ← ends.left] at both
  rw [begun.ended_early runs (worlds.free _).1 ends.kept]
  cases foundToo : w'.threads.find? (.worker name) with
  | none =>
    rw [World.thread_of_absent foundToo] at both
    rw [Machine.run_not_ended foundToo]
    refine worlds.departed_alone runs foundToo silent (fun e listed here => ?_) _ rfl
    have told := List.forall₂_nil_right_iff.mp both
    exact List.filter_eq_nil_iff.mp told e listed (decide_eq_true here)
  | some threadToo =>
    have keptToo := ends.kept_both
    rw [World.thread_of_find? foundToo] at both firstToo keptToo
    rw [Machine.run_ended foundToo keptToo]
    suffices gone : w'.ended (.worker name) threadToo.memosEndFirst threadToo.atExit
        = w'.departed (.worker name) (threadToo.atExit.reverse.flatMap
          ((w'.dropMemos (.worker name)).directly (.worker name))) by
      rw [gone]
      exact worlds.departed runs _ _ silent both
    by_cases none_left : threadToo.atExit = []
    · rw [none_left]
      cases threadToo.memosEndFirst <;> rfl
    · have begunToo := reachedToo.ending foundToo
      rw [Machine.exitTasks_early (firstToo none_left)] at begunToo
      rw [firstToo none_left]
      exact begunToo.ended_early ⟨threadToo, foundToo⟩ (worlds.free _).2 keptToo

theorem exited (worlds : c.Worlds w w') (reached : Machine.Reached hashing ⟨w, u, []⟩)
    (reachedToo : Machine.Reached hashingToo ⟨w', v, []⟩)
    (ends : (w.thread (.worker name)).Ends (w.isIn c.here) (w'.thread (.worker name)))
    (order : w.EndsInOrder (.worker name) c.here) :
    c.Leaves w w' (w.machineFor (.endThread name)).run.world (w'.machineFor (.endThread name)).run.world := by
  cases found : w.threads.find? (.worker name) with
  | none =>
    have absent : w'.threads.find? (.worker name) = none := by
      rw [← Table.not_contains_iff, Bool.eq_false_iff]
      intro there
      have running := worlds.running _ there
      rw [Table.not_contains_iff.mpr found] at running
      cases running
    rw [Machine.run_not_ended found, Machine.run_not_ended absent]
    exact .of_tells (worlds.note rfl) ⟨[_], [_], rfl, rfl, .cons (.answered _) .nil⟩
  | some thread =>
    have modes : (w'.thread (.worker name)).atExit ≠ [] →
        (w'.thread (.worker name)).memosEndFirst = (w.thread (.worker name)).memosEndFirst :=
      fun some_left => worlds.memosEndFirst_eq reached ends some_left order
    have early := ends.early
    rw [World.thread_of_find? found] at ends modes
    rw [Machine.run_ended found ends.kept]
    cases first : thread.memosEndFirst with
    | true => exact worlds.exited_early reached reachedToo found ends first fun left => (modes left).trans first
    | false =>
      refine worlds.exited_late reached reachedToo found ends first ?_
      by_cases none_left : (w'.thread (.worker name)).atExit = []
      · exact early none_left
      · exact (modes none_left).trans first

end Ends

end Worlds

/-! How threads will end. -/

def EndsAlike (c : Counterpart) (w w' : World) : Prop :=
  ∀ t, (w.thread t).Ends (w.isIn c.here) (w'.thread t)

namespace EndsAlike

variable {hashing : RegistryId → Handle → UInt64} {w w' after after' : World} {t u : ThreadId}
  {retrieval : Retrieval}

theorem extend (alike : c.EndsAlike w w') {d : Counterpart} (extends' : c.Extends d) :
    d.EndsAlike w w' := by
  unfold EndsAlike
  rwa [extends'.here]

-- What a thread is asked, both are asked.
theorem asked (alike : c.EndsAlike w w') (worlds : c.Worlds w w')
    (reached : Machine.Reached hashing ⟨w, u, []⟩) {action : Action} (on : action.registry? w = some c.here)
    (order : ∀ retrieval, action = .operate (.retrieve retrieval) → w.LooksInOrder t c.here) :
    c.EndsAlike (w.asked t action) (w'.asked t action) := by
  unfold World.asked
  split
  · rename_i retrieval
    have named : w.registryNamed? retrieval.registry = some c.here := on
    rw [named, (worlds.named (Scene.Arises.tidy reached.arises)).mpr named]
    cases Handle.ofAddress? retrieval.address with
    | none => exact alike
    | some h =>
      show c.EndsAlike (w.noted t) (w'.noted t)
      intro v
      rw [World.thread_noted, World.thread_noted]
      split
      · refine (alike t).noted fun some_left unlooked => order retrieval rfl ?_ ?_
        · rw [(alike t).left] at some_left
          obtain ⟨other, left⟩ := List.exists_mem_of_ne_nil _ some_left
          exact List.any_eq_true.mpr ⟨other, List.mem_filter.mp left⟩
        · obtain ⟨x, live⟩ := reached.registry_named named
          exact worlds.unknown live ((alike t).unlooked unlooked).1
      · exact alike v
  · exact alike

theorem planned (alike : c.EndsAlike w w') (plans : c.Plans w w' after after') :
    c.EndsAlike after after' :=
  fun t => (alike t).keep (plans.one t).plan (plans.other t) (plans.names t)

-- What is asked elsewhere, the one thread alone is asked.
theorem spared (alike : c.EndsAlike w w') (spares : c.Spares w after)
    (names : after.isIn c.here = w.isIn c.here) : c.EndsAlike after w' := by
  intro t
  rcases spares.plans t with same | noted
  · exact (alike t).keep same (.refl _) fun retrieval _ => congrFun names retrieval
  · exact (alike t).noted_alone.keep noted (.refl _) fun retrieval _ => congrFun names retrieval

-- A thread has ended, if it ran, and no other has changed.
theorem ended (alike : c.EndsAlike w w') (aside : World.Aside t w after) (asideToo : World.Aside t w' after')
    (gone : after.thread t = .fresh) (goneToo : after'.thread t = .fresh) : c.EndsAlike after after' := by
  intro u
  rw [aside.isIn]
  by_cases here : u = t
  · rw [here, gone, goneToo]
    exact .fresh _
  · rw [aside.others u here, asideToo.others u here]
    exact alike u

end EndsAlike

end Counterpart

/-! A lookup is left. -/

-- It is left by a thread, which is started if it does not run.
structure World.Left (t : ThreadId) (retrieval : Retrieval) (w after : World) : Prop where
  rest : ∃ threads, after = { w with threads, journal := .answered none .done :: w.journal }
  running : ∀ u, after.threads.contains u = (decide (u = t) || w.threads.contains u)
  thread : ∀ u, after.thread u
    = if u = t then { w.thread t with atExit := (w.thread t).atExit ++ [retrieval] } else w.thread u

theorem World.Left.isIn {w after : World} {t : ThreadId} {retrieval : Retrieval}
    (left : Left t retrieval w after) (r : RegistryId) : after.isIn r = w.isIn r := by
  obtain ⟨threads, rfl⟩ := left.rest
  rfl

theorem Machine.run_left (w : World) (t : ThreadId) (retrieval : Retrieval) :
    World.Left t retrieval w (w.machineFor (.act t (.operate (.retrieveAtExit retrieval)))).run.world := by
  have last : (w.machineFor (.act t (.operate (.retrieveAtExit retrieval)))).run.world
      = ((w.startThread t).setThread t { w.thread t with atExit := (w.thread t).atExit ++ [retrieval] }).note
        (.answered none .done) := by
    rw [run_of_idle (n := 2) rfl, ← w.thread_startThread t t]
    rfl
  obtain ⟨threads, started⟩ := w.startThread_eq t
  rw [last]
  refine ⟨?_, fun u => ?_, fun u => ?_⟩
  · rw [started]
    exact ⟨_, rfl⟩
  · show ((w.startThread t).threads.put t _).contains u = _
    rw [Table.contains_put, World.contains_startThread, ← Bool.or_assoc, Bool.or_self]
  · rw [← w.thread_startThread t u]
    exact World.thread_put (w := w.startThread t) rfl u

namespace Counterpart

variable {c : Counterpart} {w w' after after' : World} {t : ThreadId} {retrieval : Retrieval}

theorem Threads.left {live : Prop} {x y : Thread} (threads : c.Threads live x y) (atExit atExitToo : List Retrieval) :
    c.Threads live { x with atExit } { y with atExit := atExitToo } :=
  ⟨⟨threads.plain.1, threads.plain.2⟩, ⟨threads.plainToo.1, threads.plainToo.2⟩, threads.memos,
    threads.blocks, threads.alone⟩

-- By both threads, if it is one in the registry.
theorem Worlds.left (worlds : c.Worlds w w') (left : World.Left t retrieval w after)
    (leftToo : World.Left t retrieval w' after') : c.Worlds after after' ∧ c.Tells w w' after after' := by
  obtain ⟨⟨threads, rfl⟩, running, thread⟩ := left
  obtain ⟨⟨threadsToo, rfl⟩, runningToo, threadToo⟩ := leftToo
  refine ⟨worlds.rethreaded _ _ (fun u there => ?_) (fun u => ?_) [_] (List.forall_mem_singleton.mpr rfl) _,
    [_], [_], rfl, rfl, .cons (.answered .done) .nil⟩
  · rw [runningToo, Bool.or_eq_true] at there
    rw [running, Bool.or_eq_true]
    exact there.imp_right (worlds.running u)
  · rw [show ({ w with threads } : World).thread u = _ from thread u,
      show ({ w' with threads := threadsToo } : World).thread u = _ from threadToo u]
    split
    · exact (worlds.threads t).left _ _
    · exact worlds.threads u

theorem EndsAlike.left (alike : c.EndsAlike w w') (left : World.Left t retrieval w after)
    (leftToo : World.Left t retrieval w' after') (own : w.isIn c.here retrieval = true)
    (kept : retrieval.keepAs = none) (order : w.LeavesInOrder t c.here) : c.EndsAlike after after' := by
  intro u
  rw [left.isIn, left.thread, leftToo.thread]
  split
  · refine (alike t).left_both own kept fun none_left => order ?_
    rw [(alike t).left, List.filter_eq_nil_iff] at none_left
    exact List.any_eq_false.mpr none_left
  · exact alike u

-- By the one alone, if it is not.
theorem Worlds.left_alone (worlds : c.Worlds w w') (left : World.Left t retrieval w after) :
    c.Worlds after w' := by
  obtain ⟨⟨threads, rfl⟩, running, thread⟩ := left
  refine worlds.rethreaded _ w'.threads (fun u there => ?_) (fun u => ?_) [_]
    (List.forall_mem_singleton.mpr rfl) w'.journal
  · rw [running, worlds.running u there, Bool.or_true]
  · rw [show ({ w with threads } : World).thread u = _ from thread u]
    split
    · rename_i here
      exact here ▸ (worlds.threads t).left _ (w'.thread t).atExit
    · exact worlds.threads u

theorem EndsAlike.left_alone (alike : c.EndsAlike w w') (left : World.Left t retrieval w after)
    (away : w.isIn c.here retrieval = false) (kept : retrieval.keepAs = none) : c.EndsAlike after w' := by
  intro u
  rw [left.isIn, left.thread]
  split
  · rename_i here
    rw [here]
    exact (alike t).left_alone away kept
  · exact alike u

end Counterpart

end AttachedState
