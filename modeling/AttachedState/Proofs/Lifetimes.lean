import AttachedState.Proofs.Reports

/-!
Lives of lines.  A thread's memo of a registry names a line that the thread added and has kept since.
What the line holds is then told by the lookups that were made through it, and by the removals.
-/

namespace AttachedState

namespace Event

variable {t : ThreadId} {r : RegistryId} {e : Event}

-- The lookups that a thread makes through its line of a registry.
def consults (t : ThreadId) (r : RegistryId) : Event → Bool
  | lookedUp thread registry _ _ route => thread = t ∧ registry = r ∧ route ≠ .direct
  | _ => false

-- The events in which a thread's line of a registry comes or goes.
def refits (t : ThreadId) (r : RegistryId) : Event → Bool
  | lineAttached thread registry _ _ | lineDetached thread registry _ => thread = t ∧ registry = r
  | _ => false

theorem writes_eq (t : ThreadId) (r : RegistryId) (e : Event) :
    e.writes t r = (e.consults t r || e.refits t r) := by
  cases e <;> simp [writes, consults, refits]

theorem refits_of_aside (aside : e.aside = true) : e.refits t r = false := by
  have unwritten : e.writes t r = false := writes_of_aside aside
  rw [writes_eq, Bool.or_eq_false_iff] at unwritten
  exact unwritten.2

end Event

-- The line of a memo was added, and since then the thread has had no other.
structure Since (journal : List Event) (t : ThreadId) (memo : Memo) (since : List Event) : Prop where
  added : ∃ label before, journal = since ++ .lineAttached t memo.registry label memo.line :: before
  kept : ∀ e ∈ since, e.refits t memo.registry = false

section

variable {t : ThreadId} {memo : Memo} {h : Handle} {journal told since : List Event}

theorem Since.append (age : Since journal t memo since)
    (silent : ∀ e ∈ told, e.refits t memo.registry = false) :
    Since (told ++ journal) t memo (told ++ since) := by
  obtain ⟨label, before, rfl⟩ := age.added
  exact ⟨⟨label, before, (List.append_assoc _ _ _).symm⟩,
    List.forall_mem_append.mpr ⟨silent, age.kept⟩⟩

-- A line holds a handle just when the last lookup through it found the handle and the block that was
-- found has not been removed.
theorem Since.lineTold_eq_some_iff (age : Since journal t memo since) (reported : Reported journal)
    (truthful : Truthful journal) : lineTold t memo.registry journal = some h ↔
      ∃ later earlier b route, since = later ++ .lookedUp t memo.registry h (some b) route :: earlier ∧
        route ≠ .direct ∧ (∀ e ∈ later, e.consults t memo.registry = false) ∧
        ∀ entry scrubbed, .stateRemoved memo.registry entry b h scrubbed ∉ later := by
  obtain ⟨label, before, split⟩ := age.added
  rw [AttachedState.lineTold_eq_some_iff reported truthful]
  constructor
  · rintro ⟨later, earlier, b, route, last, cached, unwritten, kept⟩
    have silent : ∀ e ∈ later, e.consults t memo.registry = false := by
      intro e listed
      have quiet := unwritten e listed
      rw [Event.writes_eq, Bool.or_eq_false_iff] at quiet
      exact quiet.1
    rcases List.append_eq_append_iff.mp (split.symm.trans last) with
      ⟨between, same, rest⟩ | ⟨between, same, rest⟩
    · -- The line would have been added after the lookup.
      cases between with
      | nil => cases rest
      | cons first others =>
        cases rest
        have quiet := unwritten (.lineAttached t memo.registry label memo.line)
          (by rw [same]; exact List.mem_append_right _ List.mem_cons_self)
        simp [Event.writes] at quiet
    · cases between with
      | nil => cases rest
      | cons first others =>
        cases rest
        exact ⟨later, others, b, route, same, cached, silent, kept⟩
  · rintro ⟨later, earlier, b, route, rfl, cached, silent, kept⟩
    refine ⟨later, earlier ++ .lineAttached t memo.registry label memo.line :: before, b, route, ?_,
      cached, fun e listed => ?_, kept⟩
    · rw [split, List.append_assoc]
      rfl
    · rw [Event.writes_eq, silent e listed, age.kept e (List.mem_append_left _ listed)]
      rfl

end

namespace World

variable {w after : World} {t u : ThreadId} {told : List Event}

-- Every memo names a line that its thread added and has kept.
def Dated (w : World) : Prop :=
  ∀ t, ∀ memo ∈ (w.thread t).memos, ∃ since, Since w.journal t memo since

-- Memos may go or change in what they remember, while nothing is told of the lines of those that stay.
theorem Dated.kept (dated : w.Dated) (told : List Event) (journal : after.journal = told ++ w.journal)
    (memos : ∀ t, ∀ memo ∈ (after.thread t).memos, ∃ old ∈ (w.thread t).memos,
      old.registry = memo.registry ∧ old.line = memo.line)
    (silent : ∀ e ∈ told, ∀ t, ∀ memo ∈ (after.thread t).memos, e.refits t memo.registry = false) :
    after.Dated := by
  intro t memo known
  obtain ⟨old, knownThen, same, sameLine⟩ := memos t memo known
  obtain ⟨since, added, kept⟩ := dated t old knownThen
  rw [same, sameLine] at added
  rw [same] at kept
  rw [journal]
  exact ⟨told ++ since, Since.append ⟨added, kept⟩ fun e listed => silent e listed t memo known⟩

theorem Dated.same (dated : w.Dated) (told : List Event) (journal : after.journal = told ++ w.journal)
    (memos : ∀ t, (after.thread t).memos = (w.thread t).memos)
    (silent : ∀ e ∈ told, ∀ t r, e.refits t r = false) : after.Dated :=
  dated.kept told journal (fun t memo known => ⟨memo, by rwa [← memos], rfl, rfl⟩)
    fun e listed t memo _ => silent e listed t memo.registry

-- One thread's memos change, and there are no new ones.
theorem Dated.put {thread new : Thread} (dated : w.Dated) (told : List Event)
    (runs : w.threads.find? u = some thread) (threads : after.threads = w.threads.put u new)
    (journal : after.journal = told ++ w.journal)
    (memos : ∀ memo ∈ new.memos, ∃ old ∈ thread.memos,
      old.registry = memo.registry ∧ old.line = memo.line)
    (silent : ∀ e ∈ told, ∀ t, ∀ memo ∈ (after.thread t).memos, e.refits t memo.registry = false) :
    after.Dated := by
  refine dated.kept told journal (fun t memo known => ?_) silent
  rw [thread_put threads] at known
  split at known
  · rename_i here
    rw [here, thread_of_find? runs]
    exact memos memo known
  · exact ⟨memo, known, rfl, rfl⟩

theorem dated_attached {thread : Thread} {r : RegistryId} {label : Name} {line : Ticket}
    (dated : w.Dated) (runs : w.threads.find? u = some thread) (new : thread.memo? r = none)
    (threads : after.threads = w.threads.put u
      { thread with memos := thread.memos ++ [⟨r, line, none⟩] })
    (journal : after.journal = .lineAttached u r label line :: w.journal) : after.Dated := by
  intro t memo known
  rw [journal]
  rw [thread_put threads] at known
  have before : ∀ {memo}, memo ∈ (w.thread t).memos → ¬(u = t ∧ r = memo.registry) →
      ∃ since, Since (.lineAttached u r label line :: w.journal) t memo since := by
    intro memo known apart
    obtain ⟨since, age⟩ := dated t memo known
    have silent : ∀ e ∈ [Event.lineAttached u r label line], e.refits t memo.registry = false :=
      List.forall_mem_singleton.mpr (decide_eq_false apart)
    exact ⟨_, age.append silent⟩
  split at known
  · rename_i here
    subst here
    rcases List.mem_append.mp known with old | added
    · refine before (by rwa [thread_of_find? runs]) fun both => ?_
      exact absurd (decide_eq_true both.2.symm) (List.find?_eq_none.mp new memo old)
    · cases List.mem_singleton.mp added
      exact ⟨[], ⟨label, w.journal, rfl⟩, List.forall_mem_nil _⟩
  · rename_i elsewhere
    exact before known fun both => elsewhere both.1.symm

theorem dated_detached {thread : Thread} {memo : Memo} {rest : List Memo} (dated : w.Dated)
    (lined : w.Lined) (runs : w.threads.find? u = some thread) (memos : thread.memos = memo :: rest)
    (threads : after.threads = w.threads.put u { thread with memos := rest })
    (journal : after.journal = .lineDetached u memo.registry memo.line :: w.journal) :
    after.Dated := by
  have once := lined.once u
  rw [thread_of_find? runs, memos, List.map_cons, List.nodup_cons] at once
  refine dated.put [_] runs threads journal (fun other known => ?_) ?_
  · exact ⟨other, by rw [memos]; exact List.mem_cons_of_mem _ known, rfl, rfl⟩
  · refine List.forall_mem_singleton.mpr fun t other known => decide_eq_false ?_
    rintro ⟨rfl, same⟩
    rw [thread_put threads, if_pos rfl] at known
    exact once.1 (List.mem_map.mpr ⟨other, known, same.symm⟩)

end World

open World in
theorem Quiet.dated {w after : World} (lined : w.Lined) (dated : w.Dated) (change : Quiet w after) :
    after.Dated := by
  cases change with
  | filed | asked => exact dated.same [] rfl (fun _ => rfl) (List.forall_mem_nil _)
  | noted aside =>
    refine dated.same [_] rfl (fun _ => rfl) (List.forall_mem_singleton.mpr fun t r => ?_)
    exact Event.refits_of_aside aside
  | hit | direct => exact dated.same [_] rfl (fun _ => rfl) (List.forall_mem_singleton.mpr fun _ _ => rfl)
  | @started _ u absent =>
    exact dated.same [] rfl (memos_put rfl (by rw [thread_of_absent absent])) (List.forall_mem_nil _)
  | looked runs =>
    refine dated.same [] rfl (memos_put rfl ?_) (List.forall_mem_nil _)
    rw [Thread.noteLookup_memos, thread_of_find? runs]
  | left runs | gone runs =>
    exact dated.same [] rfl (memos_put rfl (by rw [thread_of_find? runs])) (List.forall_mem_nil _)
  | pruned runs =>
    refine dated.put [] runs rfl rfl (fun memo known => ?_) (List.forall_mem_nil _)
    exact ⟨memo, List.mem_of_mem_filter known, rfl, rfl⟩
  | forgot runs memos =>
    refine dated.put [] runs rfl rfl (fun memo known => ?_) (List.forall_mem_nil _)
    exact ⟨memo, by rw [memos]; exact List.mem_cons_of_mem _ known, rfl, rfl⟩
  | resolved runs free known live cold =>
    rename_i memo _ _ _
    refine dated.put [_] runs rfl rfl (fun other there => ?_)
      (List.forall_mem_singleton.mpr fun _ _ _ => rfl)
    obtain ⟨old, listed, rfl⟩ := List.mem_map.mp there
    split
    · exact ⟨memo, known, rfl, rfl⟩
    · exact ⟨old, listed, rfl, rfl⟩
  | detached runs free memos => exact dated_detached dated lined runs memos rfl rfl
  | attached runs free live new => exact dated_attached dated runs new rfl rfl

open World in
theorem Move.dated {s s' : Scene} (lined : s.world.Lined) (dated : s.world.Dated) (move : Move s s') :
    s'.world.Dated := by
  cases move with
  | turned | shared | unnamed | retained | spared | held | unheld | released | fell | begun
  | abandoned | entitled | disowned | opened | closed =>
    exact dated.same [] rfl (fun _ => rfl) (List.forall_mem_nil _)
  | tried | made | orphaned | dropped | enrolled | withdrawn =>
    exact dated.same [_] rfl (fun _ => rfl) (List.forall_mem_singleton.mpr fun _ _ => rfl)
  | quiet change => exact change.dated lined dated
  | ended runs free memos =>
    exact dated.same [_] rfl (memos_erase rfl runs memos) (List.forall_mem_singleton.mpr fun _ _ => rfl)
  | locked runs | unlocked first runs =>
    exact dated.same [] rfl (memos_put rfl (by rw [thread_of_find? runs])) (List.forall_mem_nil _)

theorem Scene.Arises.dated {hashing : RegistryId → Handle → UInt64} {s : Scene}
    (arisen : Arises hashing s) : s.world.Dated := by
  induction arisen with
  | refl =>
    intro t memo known
    simp only [start, World.start, World.thread, Table.find?_put, Table.find?_empty] at known
    split at known <;> cases known
  | tail before move ih => exact move.dated (Arises.lined before) ih

end AttachedState
