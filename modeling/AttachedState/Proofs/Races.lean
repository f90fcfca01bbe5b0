import AttachedState.Proofs.Operations

/-!
Races.  The threads of a race take their steps while the one that started them waits.  They hold no
locks and leave no tasks behind, so seen from the waiting thread they too only make passes.
-/

namespace AttachedState.World

open Scene Outcome

variable {hashing : RegistryId → Handle → UInt64} {w : World} {t u : ThreadId} {r : RegistryId}
  {owners : List Guard} {tasks later : List Task}

-- Another thread than the one at work holds no lock.
theorem free_of_waiting (arisen : Arises hashing ⟨w, t, owners, tasks⟩) (other : u ≠ t) :
    (w.thread u).depth = 0 := by
  rw [(Arises.locks arisen).depth u]
  exact if_neg other

theorem startThread_eq (w : World) (t : ThreadId) :
    ∃ threads, w.startThread t = { w with threads } := by
  unfold startThread
  split
  · exact ⟨w.threads, rfl⟩
  · exact ⟨_, rfl⟩

theorem thread_startThread (w : World) (t u : ThreadId) :
    (w.startThread t).thread u = w.thread u := by
  unfold startThread
  split
  · rfl
  · rename_i absent
    rw [thread_put (w := w) rfl]
    split
    · rename_i here
      rw [here, thread_of_absent (Table.not_contains_iff.mp (Bool.not_eq_true _ ▸ absent))]
    · rfl

theorem startThread_quiets (w : World) (u : ThreadId) :
    Quiets w (w.startThread u) ∧ (w.startThread u).Runs u := by
  unfold startThread
  split
  · rename_i present
    exact ⟨.refl, Table.contains_iff.mp present⟩
  · rename_i absent
    have missing : w.threads.find? u = none := Table.not_contains_iff.mp (by simpa using absent)
    exact ⟨.single (.started missing), _, Table.find?_put_self ..⟩

/-! Attempts to create state. -/

-- A block without extensions, about to be registered.
def bareSite (r : RegistryId) (b : BlockId) (h : Handle) : Construction :=
  { nested := none, creation := ⟨"", "", h.address, false⟩, registry := r, block := b, handle := h
    slots := [], pending := [] }

-- The reference that a creation has to its registry goes while the registry has a name.
theorem spared_named {name : Name} (tidy : w.Tidy) (named : w.registryNamed? name = some r) :
    Pass ⟨w, t, owners, .releaseRegistry r :: later⟩ ⟨w, t, owners, later⟩ := by
  refine Pass.of_move (.spared rfl ?_) rfl rfl
  unfold needsRegistry
  rw [refersToRegistry_of_named tidy named]
  rfl

theorem attempt_passes (arisen : Arises hashing ⟨w, t, owners, later⟩) (runs : w.Runs u)
    (other : u ≠ t) {name : Name} (named : w.registryNamed? name = some r) (h : Handle) :
    Passes ⟨w, t, owners, later⟩
      ⟨(w.attempt u r h).2, t, owners ++ (w.attempt u r h).1.toList, later⟩ ∧
    (w.attempt u r h).2.registryNames = w.registryNames := by
  have tidy := Arises.tidy arisen
  obtain ⟨registry, live⟩ := (Arises.live arisen).registry_named tidy named
  have free := free_of_waiting arisen other
  have begun : Pass ⟨w, t, owners, later⟩ ⟨{ w with next := w.next + 1 }, t, owners,
      .construct (bareSite r ⟨w.next⟩ h) :: later⟩ :=
    Pass.of_move (.begun (bareSite r ⟨w.next⟩ h) registry live rfl nofun nofun) rfl rfl
  unfold attempt
  simp only [takeNumber]
  cases inserted : registry.contexts.insert h ⟨w.next⟩ with
  | error back =>
    rw [underLock_refused (w := { w with next := w.next + 1 }) runs free live inserted]
    simp only [Option.toList_none, List.append_nil]
    have asked : Pass ⟨{ w with next := w.next + 1 }, t, owners,
        .construct (bareSite r ⟨w.next⟩ h) :: later⟩ ⟨({ w with next := w.next + 1 } :
          World).setRegistry r { registry with holder := none }, t, owners,
          .construct (bareSite r ⟨w.next⟩ h) :: later⟩ := Pass.quiet (.asked live)
    have abandoned := Pass.of_move (Move.abandoned _ (bareSite r ⟨w.next⟩ h) later
      (s := ⟨({ w with next := w.next + 1 } : World).setRegistry r { registry with holder := none },
        t, owners, .construct (bareSite r ⟨w.next⟩ h) :: later⟩) rfl rfl) rfl rfl
    have tidyThen := (asked.move.tidy (begun.move.tidy tidy))
    exact ⟨(((Relation.ReflTransGen.single begun).tail asked).tail abandoned).tail
      (spared_named tidyThen named), rfl⟩
  | ok done =>
    obtain ⟨entry, contexts⟩ := done
    rw [underLock_register (w := { w with next := w.next + 1 }) runs free live inserted]
    simp only [Option.toList_some]
    have enrolled := Pass.of_move (Move.enrolled (bareSite r ⟨w.next⟩ h) registry entry contexts later
      (s := ⟨{ w with next := w.next + 1 }, t, owners,
        .construct (bareSite r ⟨w.next⟩ h) :: later⟩) rfl live inserted) rfl rfl
    have tidyThen := enrolled.move.tidy (begun.move.tidy tidy)
    exact ⟨((Relation.ReflTransGen.single begun).tail enrolled).tail
      (spared_named tidyThen named), rfl⟩

theorem registryNamed?_same {after : World} (same : after.registryNames = w.registryNames)
    (name : Name) : after.registryNamed? name = w.registryNamed? name := by
  unfold registryNamed?
  rw [same]

theorem attempts_passes (arisen : Arises hashing ⟨w, t, owners, later⟩)
    (outside : ∀ n, t ≠ .racer n) {name : Name} (named : w.registryNamed? name = some r) (h : Handle)
    (n : Nat) :
    Passes ⟨w, t, owners, later⟩
      ⟨(attempts r h n w).2, t, owners ++ (attempts r h n w).1, later⟩ ∧
    (attempts r h n w).2.registryNames = w.registryNames := by
  induction n with
  | zero =>
    simp only [attempts, List.append_nil, and_true]
    exact .refl
  | succ n ih =>
    obtain ⟨before, names⟩ := ih
    obtain ⟨starting, runs⟩ := startThread_quiets (attempts r h n w).2 (.racer n)
    have started := before.trans (starting.passes t (owners ++ (attempts r h n w).1) later)
    have namesThen := starting.same.2.2.1.trans names
    obtain ⟨last, namesLast⟩ := attempt_passes (Relation.ReflTransGen.trans arisen (Passes.moves started))
      runs (Ne.symm (outside n)) ((registryNamed?_same namesThen name).trans named) h
    have whole := started.trans last
    simp only [attempts]
    split <;> rename_i given <;> rw [given] at whole namesLast
    · simp only [Option.toList_some, List.append_assoc] at whole
      exact ⟨whole, namesLast.trans namesThen⟩
    · simp only [Option.toList_none, List.append_nil] at whole
      exact ⟨whole, namesLast.trans namesThen⟩

/-! Giving up what a race left. -/

-- The owners are given up one after the other; what is left of each is done after the race.
theorem giveUps_passes (owners : List Guard) (first : List Task)
    (arisen : Arises hashing ⟨w, t, owners, first ++ later⟩) (runs : w.Runs t)
    (releases : ∀ task ∈ first, task.releases = true) :
    let after := owners.foldl (fun (w, first) g =>
      ((w.giveUp t g).world, first ++ (w.giveUp t g).first)) (w, first)
    Passes ⟨w, t, owners, first ++ later⟩ ⟨after.1, t, [], after.2 ++ later⟩ ∧
      ∀ task ∈ after.2, task.releases = true := by
  induction owners generalizing w first with
  | nil => exact ⟨.refl, releases⟩
  | cons g rest ih =>
    obtain ⟨pass, gives, _⟩ := giveUp_spec first arisen runs
    obtain ⟨passes, light⟩ := ih _ (arisen.tail pass.move) (pass.runs runs) (by
      intro task listed
      rcases List.mem_append.mp listed with old | new
      · exact releases task old
      · rw [gives] at new
        exact guardTasks_release g task new)
    exact ⟨Relation.ReflTransGen.head pass passes, light⟩

theorem endRacers_passes (arisen : Arises hashing ⟨w, t, owners, tasks⟩)
    (outside : ∀ n, t ≠ .racer n) (n : Nat) :
    Passes ⟨w, t, owners, tasks⟩ ⟨endRacers n w, t, owners, tasks⟩ := by
  induction n with
  | zero => exact .refl
  | succ n ih =>
    have arisenThen : Arises hashing _ := Relation.ReflTransGen.trans arisen ih.moves
    have free := free_of_waiting arisenThen (Ne.symm (outside n))
    have dropped := dropMemos_quiets free
    obtain ⟨thread, there, memos, _⟩ := thread_dropMemos (endRacers n w) (.racer n)
    have freeThen : thread.depth = 0 := by
      rw [← thread_of_find? there, dropped.depth, free]
    have ended : Pass ⟨(endRacers n w).dropMemos (.racer n), t, owners, tasks⟩
        ⟨endRacers (n + 1) w, t, owners, tasks⟩ := by
      refine ⟨.ended there freeThen memos, rfl, fun runs => ?_, ?_⟩
      · obtain ⟨mine, found⟩ := runs
        refine ⟨mine, ?_⟩
        simp only [endRacers, note, Table.find?_erase, if_neg (outside n)]
        exact found
      · simp only [endRacers]
        rw [thread_erase (w := (endRacers n w).dropMemos (.racer n)) rfl, if_neg (outside n)]
    exact (ih.trans (dropped.passes t owners tasks)).tail ended

theorem underLock?_error {α : Type} {look : Registry → α} {cause : Panic}
    (refused : w.underLock? t r look = .error cause) : cause = .lockHeld := by
  unfold underLock? underLock at refused
  split at refused <;> cases refused
  rfl

theorem raceToCreate_passed (arisen : Arises hashing ⟨w, t, [], later⟩) (runs : w.Runs t)
    (outside : ∀ n, t ≠ .racer n) (name : Name) (address : UInt64) (threads : Nat) :
    (w.raceToCreate t name address threads).Passed w t later := by
  unfold raceToCreate
  split
  · exact passed_fail rfl
  · exact passed_fail rfl
  · rename_i r h named _
    obtain ⟨trying, _⟩ := attempts_passes arisen outside named h (w.entrants r threads)
    have arisenThen : Arises hashing _ := Relation.ReflTransGen.trans arisen trying.moves
    obtain ⟨giving, releases⟩ := giveUps_passes (attempts r h (w.entrants r threads) w).1 []
      arisenThen (trying.runs runs) (List.forall_mem_nil _)
    have arisenLast : Arises hashing _ := Relation.ReflTransGen.trans arisenThen giving.moves
    have ending := endRacers_passes arisenLast outside (w.entrants r threads)
    refine ⟨(trying.trans giving).trans ending, releases, ?_⟩
    simp only
    split
    · rfl
    · rename_i cause refused
      rw [underLock?_error refused]
      rfl
    · rename_i cause refused _
      rw [underLock?_error refused]
      rfl

/-! Lookups by several threads. -/

theorem lookUpTimes_quiets {contexts : HandleMap BlockId} (runs : w.Runs u)
    (live : w.map? r = some contexts) (h : Handle) (n : Nat) :
    Quiets w (lookUpTimes u r h n w).2 := by
  induction n with
  | zero => exact .refl
  | succ n ih =>
    obtain ⟨looking, _⟩ := lookUp_spec (ih.runs runs) ((ih.maps r).trans live) h
    have whole := Relation.ReflTransGen.trans ih looking
    simp only [lookUpTimes]
    split <;> rename_i looked <;> rw [looked] at whole <;> exact whole

theorem lookUpRacing_quiets {contexts : HandleMap BlockId} (live : w.map? r = some contexts)
    (h : Handle) (rounds n : Nat) : Quiets w (lookUpRacing r h rounds n w).2 := by
  induction n with
  | zero => exact .refl
  | succ n ih =>
    obtain ⟨starting, runs⟩ := startThread_quiets (lookUpRacing r h rounds n w).2 (.racer n)
    have started := Relation.ReflTransGen.trans ih starting
    exact started.trans (lookUpTimes_quiets runs ((Quiets.maps started r).trans live) h rounds)

theorem raceToRetrieve_passed (arisen : Arises hashing ⟨w, t, [], later⟩)
    (outside : ∀ n, t ≠ .racer n) (name : Name) (address : UInt64) (threads rounds : Nat) :
    (w.raceToRetrieve name address threads rounds).Passed w t later := by
  unfold raceToRetrieve
  split
  · exact passed_fail rfl
  · exact passed_fail rfl
  · rename_i r h named _
    obtain ⟨registry, live⟩ := (Arises.live arisen).registry_named (Arises.tidy arisen) named
    have looking := (lookUpRacing_quiets (map?_of_find? live) h rounds (w.entrants r threads)).passes
      t [] later
    have ending := endRacers_passes (Relation.ReflTransGen.trans arisen looking.moves) outside
      (w.entrants r threads)
    exact ⟨looking.trans ending, List.forall_mem_nil _, rfl⟩

/-! Every operation. -/

theorem operate_passed (arisen : Arises hashing ⟨w, t, [], later⟩) (runs : w.Runs t)
    (outside : ∀ n, t ≠ .racer n) (operation : Operation) :
    (w.operate t operation).Passed w t later := by
  cases operation with
  | openRegistry registry looks =>
    cases looks
    · exact newRegistry_passed w t later registry
    · exact openRegistry_passed runs registry
  | shareRegistry => exact shareRegistry_passed arisen _ _
  | dropRegistry => exact dropRegistry_passed w t later _
  | openSpace => exact openSpace_passed w t later _
  | shareSpace => exact shareSpace_passed w t later _ _
  | dropSpace => exact dropSpace_passed w t later _
  | registerKey => exact registerKey_passed w t later _ _ _
  | dropKey => exact dropKey_passed w t later _
  | destroy => exact destroy_passed arisen runs _
  | retrieve => exact retrieve_passed arisen runs _
  | hold => exact hold_passed arisen _ _
  | release => exact release_passed w t later _
  | read => exact readKey_passed w t later _ _
  | showSlot | showBlock => exact ofSubject_passed w t later _ fun _ => rfl
  | showState => exact showState_passed arisen runs _ _
  | showRegistry | countContexts | countCaches => exact askRegistry_passed arisen runs _ fun _ => rfl
  | contains => exact contains_passed arisen runs _ _
  | retrieveAtExit => exact leaveForExit_passed runs _
  | raceToCreate => exact raceToCreate_passed arisen runs outside _ _ _
  | raceForKeys => exact raceForKeys_passed w t later _ _ _
  | raceToRetrieve => exact raceToRetrieve_passed arisen outside _ _ _ _
  | showKey name layout =>
    simp only [operate, showKey]
    split
    · exact passed_fail rfl
    · exact passed_of .refl rfl
  | keyIsIn key space =>
    simp only [operate, keyIsIn]
    split
    · exact passed_of .refl rfl
    · exact passed_fail rfl
  | showSpace space layout =>
    simp only [operate, showSpace]
    split
    · exact passed_fail rfl
    · exact passed_of .refl rfl
  | isRegistered space slot =>
    simp only [operate, isRegistered]
    split
    · exact passed_fail rfl
    · exact passed_of .refl rfl

end AttachedState.World
