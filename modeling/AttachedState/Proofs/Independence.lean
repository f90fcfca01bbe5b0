import AttachedState.Proofs.Exits

/-!
Independence.  What a session is answered about one registry does not depend on the others: if
everything that is done with these is left out, the answers are the same, the same contexts get the
same entries, threads get the same lines there, the same lookups miss, and the blocks that are found
correspond to each other.  So it is with the lookups that threads leave for their ends, whether these
are made before the thread gives up its lines or after that.
-/

namespace AttachedState

/-! Sessions that work with several registries. -/

namespace Command

-- A thread works with registries, leaves a lookup for its end, or ends.
inductive Orderly (w : World) : Command → Prop where
  | act (t : ThreadId) {action : Action} (ofSession : (Command.act t action).ofSession)
      (orderly : action.Orderly w)
      (order : ∀ retrieval, action = .operate (.retrieve retrieval) →
        ∀ r, w.registryNamed? retrieval.registry = some r → w.LooksInOrder t r) :
      Orderly w (.act t action)
  | leave (t : ThreadId) (retrieval : Retrieval)
      (ofSession : (Command.act t (.operate (.retrieveAtExit retrieval))).ofSession)
      (kept : retrieval.keepAs = none)
      (order : ∀ r, w.registryNamed? retrieval.registry = some r → w.LeavesInOrder t r) :
      Orderly w (.act t (.operate (.retrieveAtExit retrieval)))
  | endThread (name : Name) (order : ∀ r, w.EndsInOrder (.worker name) r) : Orderly w (.endThread name)

-- Whether a command is on a registry.
def isOn (w : World) (r : RegistryId) : Command → Bool
  | act _ action => action.registry? w = some r
  | endThread _ => false

def ends : Command → Bool
  | act .. => false
  | endThread _ => true

end Command

-- What a session is told of a command, and what happened meanwhile, the latest first.
structure Account where
  report : Report
  told : List Event

namespace World

def after (w : World) (command : Command) : World := (w.machineFor command).run.world

def afterAll (w : World) (commands : List Command) : World := commands.foldl after w

def account (w : World) (traced : Bool) (command : Command) : Account :=
  ⟨(w.obey traced command).1,
    (w.after command).journal.take ((w.after command).journal.length - w.journal.length)⟩

def Orderly (w : World) : List Command → Prop
  | [] => True
  | command :: rest => command.Orderly w ∧ (w.after command).Orderly rest

-- The accounts of some of the commands.
def accounts (traced : Bool) (chosen : World → Command → Bool) (w : World) : List Command → List Account
  | [] => []
  | command :: rest =>
    let later := (w.after command).accounts traced chosen rest
    if chosen w command then w.account traced command :: later else later

-- The commands without those on other registries.
def withoutOthers (r : RegistryId) (w : World) : List Command → List Command
  | [] => []
  | command :: rest =>
    let later := (w.after command).withoutOthers r rest
    if command.isOn w r || command.ends then command :: later else later

-- A world in which no registry has been worked with.  There may be key spaces and keys.
structure Unused (w : World) : Prop where
  registries : w.registries = (World.start w.hashing).registries
  threads : ∀ t, w.thread t = .fresh
  registryNames : w.registryNames = .empty
  states : w.states = .empty
  held : w.held = .empty
  blocks : w.blocks = .empty
  unborn : w.births = []

theorem orderly_append {w : World} {front back : List Command} :
    w.Orderly (front ++ back) ↔ w.Orderly front ∧ (w.afterAll front).Orderly back := by
  induction front generalizing w with
  | nil => simp [Orderly, afterAll]
  | cons command rest ih =>
    simp only [List.cons_append, Orderly, ih, and_assoc]
    rfl

end World

namespace Machine

variable {hashing : RegistryId → Handle → UInt64} {w : World} {t : ThreadId} {command : Command}

theorem Reached.after (reached : Reached hashing ⟨w, t, []⟩) (ofSession : command.ofSession) :
    ∃ u, Reached hashing ⟨w.after command, u, []⟩ := by
  have begun : (w.machineFor command).Reached hashing := reached.on (.single (.told rfl ofSession))
  refine ⟨(w.machineFor command).run.thread, ?_⟩
  have last := begun.on (later_steps _ (w.machineFor command).work)
  have idle : (w.machineFor command).run.tasks = [] := tasks_run _
  rw [← idle]
  exact last

end Machine

theorem Command.Orderly.ofSession {w : World} {command : Command} (orderly : command.Orderly w) :
    command.ofSession := by
  cases orderly with
  | act t ofSession | leave t retrieval ofSession => exact ofSession
  | endThread name => exact True.intro

namespace Counterpart

variable {c d : Counterpart}

/-! Reports. -/

-- What is told alike is logged alike.
theorem Events.logged? (global : c.there = globalRegistry ↔ c.here = globalRegistry) (traced : Bool)
    {e e' : Event} (same : c.Events e e') : e'.logged? traced = e.logged? traced := by
  have line : ∀ line, Event.lineText c.there line = Event.lineText c.here line := by
    intro line
    unfold Event.lineText
    simp only [global]
  cases same with
  | objectDropped owns h alike =>
    unfold Event.logged? Event.entry? Event.notice?
    simp only [Object.value_eq alike]
  | lineAttached t label ticket =>
    unfold Event.logged? Event.entry? Event.notice?
    simp only [line]
  | lookedUp owned t h route =>
    unfold Event.logged? Event.entry?
    simp only
    cases route <;> simp [Event.notice?]
  | _ => rfl

theorem Events.reportOf (global : c.there = globalRegistry ↔ c.here = globalRegistry) (traced : Bool)
    {told told' : List Event} (same : List.Forall₂ c.Events told told') :
    reportOf traced told' = reportOf traced told := by
  have logged : ∀ {events events' : List Event}, List.Forall₂ c.Events events events' →
      events'.reverse.filterMap (·.logged? traced) = events.reverse.filterMap (·.logged? traced) := by
    intro events events' same
    rw [List.filterMap_reverse, List.filterMap_reverse]
    congr 1
    induction same with
    | nil => rfl
    | cons first _ ih => rw [List.filterMap_cons, List.filterMap_cons, first.logged? global, ih]
  have all := logged same
  cases same with
  | nil => rfl
  | cons first rest =>
    have before := logged rest
    cases first with
    | answered answer => exact congrArg (Report.mk answer) before
    | _ => exact congrArg (Report.mk .done) all

/-! Accounts. -/

-- The same is reported, and the same was told.
structure Agrees (c : Counterpart) (a a' : Account) : Prop where
  report : a'.report = a.report
  told : List.Forall₂ c.Events a.told a'.told

theorem Extends.agrees (extends' : c.Extends d) {a a' : Account} (agree : c.Agrees a a') :
    d.Agrees a a' := ⟨agree.report, agree.told.imp fun _ _ => extends'.events⟩

-- The same was told of the registry and of its counterpart.
def AgreesOn (c : Counterpart) (a a' : Account) : Prop :=
  List.Forall₂ c.Events (a.told.filter (·.about? = some c.here))
    (a'.told.filter (·.about? = some c.there))

theorem Extends.agreesOn (extends' : c.Extends d) {a a' : Account} (agree : c.AgreesOn a a') :
    d.AgreesOn a a' := by
  unfold AgreesOn
  rw [extends'.here, extends'.there]
  exact agree.imp fun _ _ => extends'.events

section Runs

variable {hashing hashingToo : RegistryId → Handle → UInt64} {w w' : World} {u v : ThreadId}
  {command : Command} {commands : List Command}

theorem Tells.agrees (tells : c.Tells w w' (w.after command) (w'.after command))
    (global : c.there = globalRegistry ↔ c.here = globalRegistry) (traced : Bool) :
    c.Agrees (w.account traced command) (w'.account traced command) := by
  obtain ⟨told, told', journal, journalToo, both⟩ := tells
  refine ⟨?_, ?_⟩
  · exact (Machine.report_of_journal journalToo).trans ((Events.reportOf global traced both).trans
      (Machine.report_of_journal journal).symm)
  · unfold World.account
    simp only [journal, journalToo, List.length_append, Nat.add_sub_cancel, List.take_left]
    exact both

theorem TellsOf.agreesOn (tells : c.TellsOf w w' (w.after command) (w'.after command)) (traced : Bool) :
    c.AgreesOn (w.account traced command) (w'.account traced command) := by
  obtain ⟨told, told', journal, journalToo, both⟩ := tells
  unfold AgreesOn World.account
  simp only [journal, journalToo, List.length_append, Nat.add_sub_cancel, List.take_left]
  exact both

-- Two worlds in which the same was done with two registries, and threads will end alike there.
structure Abreast (c : Counterpart) (w w' : World) : Prop where
  worlds : c.Worlds w w'
  ends : c.EndsAlike w w'

namespace Abreast

-- A command on the registry is carried out in both worlds.
theorem both (abreast : c.Abreast w w') (reached : Machine.Reached hashing ⟨w, u, []⟩)
    (reachedToo : Machine.Reached hashingToo ⟨w', v, []⟩) (orderly : command.Orderly w)
    (on : command.isOn w c.here = true) : ∃ d, c.Extends d ∧
      d.Tells w w' (w.after command) (w'.after command) ∧
      d.Abreast (w.after command) (w'.after command) := by
  cases orderly with
  | @act t action ofSession orderly order =>
    have here : action.registry? w = some c.here := of_decide_eq_true on
    obtain ⟨d, extends', tells, plans, worlds⟩ :=
      abreast.worlds.round reached reachedToo ofSession orderly here
    have asked := abreast.ends.asked abreast.worlds reached here fun retrieval asks =>
      order retrieval asks c.here (by rw [asks] at here; exact here)
    exact ⟨d, extends', tells, worlds, (asked.extend extends').planned plans⟩
  | leave t retrieval ofSession kept order =>
    have left := Machine.run_left w t retrieval
    have leftToo := Machine.run_left w' t retrieval
    obtain ⟨worlds, tells⟩ := abreast.worlds.left left leftToo
    exact ⟨c, .refl c, tells, worlds,
      abreast.ends.left left leftToo on kept (order c.here (of_decide_eq_true on))⟩
  | endThread name => cases on

-- One on another registry is carried out in the first world alone.
theorem elsewhere (abreast : c.Abreast w w') (reached : Machine.Reached hashing ⟨w, u, []⟩)
    (orderly : command.Orderly w) (off : command.isOn w c.here = false) (goesOn : command.ends = false) :
    c.Abreast (w.after command) w' := by
  obtain ⟨x, reachedThen⟩ := reached.after orderly.ofSession
  cases orderly with
  | @act t action ofSession orderly order =>
    obtain ⟨spares, worlds⟩ := abreast.worlds.round_elsewhere reached ofSession orderly (of_decide_eq_false off)
    -- The registry gets no name and loses none.
    have names : (w.after (.act t action)).isIn c.here = w.isIn c.here := funext fun _ =>
      decide_eq_decide.mpr ((worlds.named (Scene.Arises.tidy reachedThen.arises)).symm.trans
        (abreast.worlds.named (Scene.Arises.tidy reached.arises)))
    exact ⟨worlds, abreast.ends.spared spares names⟩
  | leave t retrieval ofSession kept order =>
    have left := Machine.run_left w t retrieval
    exact ⟨abreast.worlds.left_alone left, abreast.ends.left_alone left off kept⟩
  | endThread name => cases goesOn

-- A thread ends in both worlds.
theorem ending (abreast : c.Abreast w w') (reached : Machine.Reached hashing ⟨w, u, []⟩)
    (reachedToo : Machine.Reached hashingToo ⟨w', v, []⟩) (orderly : command.Orderly w)
    (ends : command.ends = true) : c.TellsOf w w' (w.after command) (w'.after command) ∧
      c.Abreast (w.after command) (w'.after command) := by
  cases orderly with
  | act | leave => cases ends
  | endThread name order =>
    have alike := abreast.ends (.worker name)
    obtain ⟨worlds, told⟩ := abreast.worlds.exited reached reachedToo alike (order c.here)
    obtain ⟨aside, gone⟩ := Machine.ending_aside alike.kept
    obtain ⟨asideToo, goneToo⟩ := Machine.ending_aside alike.kept_both
    exact ⟨told, worlds, abreast.ends.ended aside asideToo gone goneToo⟩

end Abreast

-- By induction on the commands: what is done with the registry is done in both worlds, a thread ends in
-- both, and anything else is done in the first one alone.
theorem Abreast.agree (abreast : c.Abreast w w') (reached : Machine.Reached hashing ⟨w, u, []⟩)
    (reachedToo : Machine.Reached hashingToo ⟨w', v, []⟩) (orderly : w.Orderly commands) :
    ∃ d, c.Extends d ∧ d.Abreast (w.afterAll commands) (w'.afterAll (w.withoutOthers c.here commands)) ∧
      ∀ traced,
        List.Forall₂ d.Agrees (w.accounts traced (fun w command => command.isOn w c.here) commands)
          (w'.accounts traced (fun _ command => !command.ends) (w.withoutOthers c.here commands)) ∧
        List.Forall₂ d.AgreesOn (w.accounts traced (fun _ command => command.ends) commands)
          (w'.accounts traced (fun _ command => command.ends) (w.withoutOthers c.here commands)) := by
  induction commands generalizing c w w' u v with
  | nil => exact ⟨c, .refl c, abreast, fun _ => ⟨.nil, .nil⟩⟩
  | cons command rest ih =>
    obtain ⟨first, orderly⟩ := orderly
    obtain ⟨u', reachedThen⟩ := reached.after first.ofSession
    obtain ⟨v', reachedTooThen⟩ := reachedToo.after first.ofSession
    cases ends : command.ends with
    | true =>
      have off : command.isOn w c.here = false := by
        cases first <;> first | rfl | cases ends
      obtain ⟨tells, abreastThen⟩ := abreast.ending reached reachedToo first ends
      obtain ⟨d, extends', last, later⟩ := ih abreastThen reachedThen reachedTooThen orderly
      simp only [World.accounts, World.withoutOthers, off, ends, Bool.or_true, if_true, Bool.not_true,
        Bool.false_eq_true, if_false]
      exact ⟨d, extends', last, fun traced =>
        ⟨(later traced).1, .cons (extends'.agreesOn (tells.agreesOn traced)) (later traced).2⟩⟩
    | false =>
      cases on : command.isOn w c.here with
      | true =>
        obtain ⟨d, extends', tells, abreastThen⟩ := abreast.both reached reachedToo first on
        obtain ⟨e, extendsThen, last, later⟩ := ih abreastThen reachedThen reachedTooThen orderly
        rw [extends'.here] at last later
        have agree := fun traced => extendsThen.agrees (tells.agrees abreastThen.worlds.global traced)
        simp only [World.accounts, World.withoutOthers, on, ends, Bool.true_or, if_true, Bool.not_false,
          Bool.false_eq_true, if_false]
        exact ⟨e, extends'.trans extendsThen, last, fun traced =>
          ⟨.cons (agree traced) (later traced).1, (later traced).2⟩⟩
      | false =>
        have abreastThen := abreast.elsewhere reached first on ends
        simp only [World.accounts, World.withoutOthers, on, ends, Bool.or_self, Bool.false_eq_true, if_false]
        exact ih abreastThen reachedThen reachedToo orderly

end Runs

end Counterpart

namespace World

variable {hashing : RegistryId → Handle → UInt64} {w : World} {t u : ThreadId} {r : RegistryId}
  {h : Handle} {creation : Creation} {commands : List Command}

-- A registry of a world in which none was worked with is its own counterpart, or that of the next
-- registry if it is not there yet.
def ownCounterpart (w : World) (r : RegistryId) : Counterpart where
  here := r
  there := if r.number < w.next then r else ⟨w.next⟩
  owns _ := false
  block := id

theorem ownCounterpart_global (positive : 0 < w.next) (r : RegistryId) :
    (w.ownCounterpart r).there = globalRegistry ↔ (w.ownCounterpart r).here = globalRegistry := by
  show (if r.number < w.next then r else ⟨w.next⟩) = globalRegistry ↔ r = globalRegistry
  split
  · rfl
  · rename_i late
    refine iff_of_false (fun same => ?_) (fun same => ?_)
    · have zero : w.next = 0 := congrArg RegistryId.number same
      omega
    · rw [same] at late
      exact late positive

-- There is the global registry only.
theorem Unused.find? (unused : w.Unused) (s : RegistryId) : w.registries.find? s
    = if s = globalRegistry then some (.fresh globalName (w.hashing globalRegistry)) else none := by
  rw [unused.registries]
  simp only [start, Table.find?_put, Table.find?_empty]

theorem Unused.bare (unused : w.Unused) (s : RegistryId) {contexts : HandleMap BlockId} (ticket : Ticket)
    (entry : Handle × BlockId) (found : w.map? s = some contexts) :
    contexts.entry? ticket ≠ some entry := by
  intro there
  unfold map? at found
  rw [unused.find?] at found
  split at found <;> cases found
  cases (HandleMap.entry?_empty _ ticket).symm.trans there

theorem Unused.next_pos (unused : w.Unused) (reached : Machine.Reached hashing ⟨w, u, []⟩) :
    0 < w.next :=
  (Scene.Arises.numbered reached.arises).registries globalRegistry _
    (map?_of_find? ((unused.find? globalRegistry).trans (if_pos rfl)))

theorem Unused.worlds (unused : w.Unused) (reached : Machine.Reached hashing ⟨w, u, []⟩) (r : RegistryId) :
    (w.ownCounterpart r).Worlds w w := by
  have nothing : ∀ {b} {p : Prop}, (w.ownCounterpart r).owns b = true → p :=
    fun owns => absurd owns Bool.false_ne_true
  have global := ownCounterpart_global (unused.next_pos reached) r
  exact {
    injective := fun _ _ => nothing
    old := fun _ => nothing
    unborn := fun late => if_neg (Nat.not_lt.mpr late)
    global
    keys := rfl
    names := by
      rw [unused.registryNames]
      rfl
    states := by
      rw [unused.states]
      rfl
    held := by
      rw [unused.held]
      rfl
    registry := by
      rw [unused.find?, unused.find?]
      simp only [global]
      split
      · exact .some ⟨rfl, rfl, .empty _ _ _⟩
      · exact .none
    running := fun _ => id
    threads := fun u => by
      rw [unused.threads]
      exact .fresh
    blocks := fun _ => nothing
    inert := fun b block found => by
      rw [unused.blocks] at found
      cases found
    guards := fun name g found => by
      rw [unused.states] at found
      cases found
    apart := fun s contexts ticket h b found there => absurd there (unused.bare s ticket _ found)
    alone := fun s contexts ticket entry found there => absurd there (unused.bare s ticket entry found)
    created := fun s entry b h slots listed => by
      have born := mem_births.mpr ⟨s, entry, h, slots, listed⟩
      rw [unused.unborn] at born
      cases born }

theorem Unused.endsAlike (unused : w.Unused) (c : Counterpart) : c.EndsAlike w w := by
  intro t
  rw [unused.threads]
  exact .fresh _

-- A handle that a registry does not have can be registered there.
theorem admits (reached : Machine.Reached hashing ⟨w, u, []⟩)
    (ofSession : (Command.act t (.create creation [])).ofSession)
    (named : w.registryNamed? creation.registry = some r)
    (address : Handle.ofAddress? creation.address = some h)
    (new : w.states.find? creation.state = none) (absent : ∀ entry b, ¬w.Registered r entry h b) :
    ∃ entry b, w.Enrolls (w.after (.act t (.create creation []))) r entry h b := by
  let m := w.machineFor (.act t (.create creation []))
  let site : Construction := ⟨none, creation, r, ⟨w.next⟩, h, [], []⟩
  obtain ⟨threads, started⟩ := w.startThread_eq t
  have world : m.world = { w with threads } := started
  obtain ⟨begun, _, _⟩ := reached.begun ofSession
  have begins : Machine.Begins hashing m false [] site [] := by
    refine ⟨begun, (begun.depth t).trans (if_pos rfl), rfl, rfl, address, ?_, ?_, rfl, ?_, rfl⟩ <;> rw [world]
    · exact named
    · exact new
  have maps : ∀ s, m.world.map? s = w.map? s := fun s => by
    rw [world]
    rfl
  have free : ∀ entry b, ¬m.world.Registered r entry h b := fun entry b =>
    (registered_of_map?_eq (maps r)).not.mpr (absent entry b)
  have first := begins.begun free
  have waits : (m.step.steps 0).tasks = [.construct site] := by
    show m.step.tasks = _
    rw [first]
  have same : ∀ s, w.map? s = (m.step.steps 0).world.map? s := fun s => by
    rw [← maps s, Machine.steps, first]
    rfl
  obtain ⟨entry, description, enrolled, _, _, _, _, next⟩ := begins.enrolls waits
    (fun entry b there => absent entry b ((registered_of_map?_eq (same r)).mpr there))
    (by rw [Machine.steps, first]; exact begins.new)
  have last : m.step.steps 3
      = ⟨(m.step.steps 1).world.note (.answered none (.block description none)), t, []⟩ := by
    rw [Machine.steps_succ, next]
    rfl
  refine ⟨entry, ⟨w.next⟩, enrolled.of_maps same fun s => ?_⟩
  show m.run.world.map? s = _
  rw [← Machine.run_step, Machine.run_of_idle (n := 3) (by rw [last]), last]
  rfl

-- What a command comes to for a registry, whatever the other registries have.
structure Separate (w : World) (r : RegistryId) (command : Command) : Prop where
  -- A handle that the registry does not have can be registered there.
  admits : ∀ t creation h, command = .act t (.create creation []) →
    w.registryNamed? creation.registry = some r → Handle.ofAddress? creation.address = some h →
    w.states.find? creation.state = none → (∀ entry b, ¬w.Registered r entry h b) →
    ∃ entry b, w.Enrolls (w.after command) r entry h b
  -- What is done with other registries changes nothing in it, and nothing that threads remember of it.
  undisturbed : command.isOn w r = false → command.ends = false →
    (w.after command).registries.find? r = w.registries.find? r ∧
    (w.registries.contains r = true → ∀ t, ((w.after command).thread t).memo? r = (w.thread t).memo? r ∧
      ∀ memo, (w.thread t).memo? r = some memo → ∀ h,
        (w.after command).remembered? memo h = w.remembered? memo h)
  -- Whoever has looked something up in it found a block that was registered there.
  own : ∀ t h b route, .lookedUp t r h (some b) route ∈ (w.after command).journal →
    (w.after command).home? b = some r
  -- Of the next registry to be opened nobody remembers anything.
  new : ∀ t, ∀ memo ∈ (w.thread t).memos, memo.registry ≠ ⟨w.next⟩

end World

namespace Counterpart

variable {hashing : RegistryId → Handle → UInt64} {c : Counterpart} {w w' after : World} {u : ThreadId}

theorem Spares.memo? (spares : c.Spares w after) (live : w.registries.contains c.here = true)
    (t : ThreadId) : (after.thread t).memo? c.here = (w.thread t).memo? c.here := by
  unfold Thread.memo?
  rw [← List.head?_filter, ← List.head?_filter, spares.memos live t]

theorem Spares.remembered? (spares : c.Spares w after) (worlds : c.Worlds w w') {t : ThreadId} {memo : Memo}
    (live : w.registries.contains c.here = true)
    (known : (w.thread t).memos.find? (·.registry = c.here) = some memo) (h : Handle) :
    after.remembered? memo h = w.remembered? memo h := by
  obtain ⟨registry, found⟩ := Table.contains_iff.mp live
  have here : memo.registry = c.here := by simpa using List.find?_some known
  have same : after.registry memo.registry = w.registry memo.registry := by
    unfold World.registry
    rw [here, spares.registry, found]
    rfl
  have kept : memo.block.filter after.blocks.contains = memo.block.filter w.blocks.contains := by
    cases remembered : memo.block with
    | none => rfl
    | some b =>
      have owns := (worlds.threads t).blocks memo (List.mem_of_find?_eq_some known) here b remembered
      have there : after.blocks.contains b = w.blocks.contains b := by
        simp only [Table.contains, spares.blocks b owns]
      rw [Option.filter_some, Option.filter_some, there]
  unfold World.remembered?
  rw [same, kept]

-- A lookup finds what was registered in the registry before.
theorem Worlds.home_of_lookedUp (worlds : c.Worlds w w') (arisen : Scene.Arises hashing ⟨w, u, [], []⟩)
    {t : ThreadId} {h : Handle} {b : BlockId} {route : Route}
    (told : .lookedUp t c.here h (some b) route ∈ w.journal) : w.home? b = some c.here := by
  obtain ⟨later, earlier, journal⟩ := List.append_of_mem told
  have found := Scene.Arises.truthful arisen later earlier t c.here h (some b) route journal
  obtain ⟨entry, slots, listed⟩ := created_of_mapped found.symm
  have created : .stateCreated c.here entry b h slots ∈ w.journal := by
    rw [journal]
    exact List.mem_append_right _ (List.mem_cons_of_mem _ listed)
  exact (worlds.home_iff (World.mem_births.mpr ⟨_, _, _, _, created⟩)).mpr
    ((worlds.created _ _ _ _ _ created).mpr rfl)

theorem Worlds.separate (worlds : c.Worlds w w') (reached : Machine.Reached hashing ⟨w, u, []⟩)
    {command : Command} (orderly : command.Orderly w) {d : Counterpart} {last : World}
    (here : d.here = c.here) (worldsThen : d.Worlds (w.after command) last) : w.Separate c.here command := by
  obtain ⟨v, reachedThen⟩ := reached.after orderly.ofSession
  refine ⟨?_, fun off goesOn => ?_, fun t h b route told => ?_, fun t memo known same => ?_⟩
  · rintro t creation h rfl named address new absent
    exact World.admits reached orderly.ofSession named address new absent
  · cases orderly with
    | endThread name => cases goesOn
    | act t ofSession tidy =>
      obtain ⟨spares, _⟩ := worlds.round_elsewhere reached ofSession tidy (of_decide_eq_false off)
      exact ⟨spares.registry, fun live t =>
        ⟨spares.memo? live t, fun memo known h => spares.remembered? worlds live known h⟩⟩
    | leave u retrieval =>
      have left := Machine.run_left w u retrieval
      obtain ⟨threads, same⟩ := left.rest
      refine ⟨congrArg (·.registries.find? c.here) same, fun _ t => ⟨?_, fun memo _ h => ?_⟩⟩
      · unfold World.after
        rw [left.thread]
        split
        · rename_i here
          rw [here]
          rfl
        · rfl
      · unfold World.after
        rw [same]
        rfl
  · rw [← here] at told ⊢
    exact worldsThen.home_of_lookedUp reachedThen.arises told
  · have low := (Scene.Arises.numbered reached.arises).memos t memo known
    rw [same] at low
    exact Nat.lt_irrefl _ low

end Counterpart

open World in
theorem Machine.Reached.afterAll {hashing : RegistryId → Handle → UInt64} {w : World} {u : ThreadId}
    {commands : List Command} (reached : Reached hashing ⟨w, u, []⟩) (orderly : w.Orderly commands) :
    ∃ v, Reached hashing ⟨w.afterAll commands, v, []⟩ := by
  induction commands generalizing w u with
  | nil => exact ⟨u, reached⟩
  | cons command rest ih =>
    obtain ⟨v, reachedThen⟩ := reached.after orderly.1.ofSession
    exact ih reachedThen orderly.2

theorem registries_independent {hashing : RegistryId → Handle → UInt64} {w : World} {u : ThreadId}
    {commands : List Command} (unused : w.Unused) (reached : Machine.Reached hashing ⟨w, u, []⟩)
    (orderly : w.Orderly commands) (r : RegistryId) :
    (∃ c : Counterpart, c.here = r ∧
      (∀ b d, c.owns b = true → c.owns d = true → c.block b = c.block d → b = d) ∧
      ∀ traced, List.Forall₂ c.Agrees (w.accounts traced (fun w command => command.isOn w r) commands)
        (w.accounts traced (fun _ command => !command.ends) (w.withoutOthers r commands)) ∧
        List.Forall₂ c.AgreesOn (w.accounts traced (fun _ command => command.ends) commands)
          (w.accounts traced (fun _ command => command.ends) (w.withoutOthers r commands))) ∧
    ∀ front command back, commands = front ++ command :: back →
      (w.afterAll front).Separate r command := by
  obtain ⟨c, rfl, abreast⟩ : ∃ c : Counterpart, c.here = r ∧ c.Abreast w w :=
    ⟨w.ownCounterpart r, rfl, unused.worlds reached r, unused.endsAlike _⟩
  refine ⟨?_, ?_⟩
  · obtain ⟨d, extends', last, agree⟩ := abreast.agree reached reached orderly
    exact ⟨d, extends'.here, last.worlds.injective, agree⟩
  · rintro front command back rfl
    obtain ⟨before, first, _⟩ := World.orderly_append.mp orderly
    obtain ⟨d, extends', now, _⟩ := abreast.agree reached reached before
    have withIt : w.Orderly (front ++ [command]) := World.orderly_append.mpr ⟨before, first, True.intro⟩
    obtain ⟨e, extendsThen, next, _⟩ := abreast.agree reached reached withIt
    obtain ⟨v, reachedNow⟩ := reached.afterAll before
    rw [World.afterAll, List.foldl_append] at next
    rw [← extends'.here]
    exact now.worlds.separate reachedNow first (extendsThen.here.trans extends'.here.symm) next.worlds

/-! A session in which the same context gets state in two registries, and a thread that looked it up in
both looks it up once more, in both, when it has given its memos up. -/

def visitor : ThreadId := .worker "visitor"

def visitorLooks (registry : Name) : Retrieval := ⟨registry, 64, false, none, none⟩

def twoRegistries : List Command :=
  [.act .main (.operate (.openRegistry "other")), .act .main (.create ⟨"other", "two", 64, false⟩ []),
    .act .main (.create ⟨globalName, "one", 64, false⟩ []),
    .act visitor (.operate (.retrieveAtExit (visitorLooks "other"))),
    .act visitor (.operate (.retrieveAtExit (visitorLooks globalName))),
    .act visitor (.operate (.retrieve (visitorLooks "other"))),
    .act visitor (.operate (.retrieve (visitorLooks globalName))), .endThread "visitor"]

def globalRegistryOnly : List Command :=
  [.act .main (.create ⟨globalName, "one", 64, false⟩ []),
    .act visitor (.operate (.retrieveAtExit (visitorLooks globalName))),
    .act visitor (.operate (.retrieve (visitorLooks globalName))), .endThread "visitor"]

theorem unused_start (hashing : RegistryId → Handle → UInt64) : (World.start hashing).Unused := by
  refine ⟨rfl, fun t => ?_, rfl, rfl, rfl, rfl, rfl⟩
  simp only [World.thread, World.start, Table.find?_put, Table.find?_empty]
  split <;> rfl

theorem orderly_twoRegistries : (World.start fun _ _ => 0).Orderly twoRegistries := by
  obtain ⟨unleft, _⟩ := World.inOrder_of_none_left fun t =>
    congrArg Thread.atExit ((unused_start fun _ _ => 0).threads t)
  refine ⟨.act _ True.intro (.operate (.openRegistry _ _ (unleft _))) ?_,
    .act _ True.intro (.create _ _ ?_ (List.forall_mem_nil _)) ?_,
    .act _ True.intro (.create _ _ ?_ (List.forall_mem_nil _)) ?_,
    .leave _ _ True.intro rfl fun _ _ _ looked => absurd looked Bool.false_ne_true,
    .leave _ _ True.intro rfl fun _ _ _ looked => absurd looked Bool.false_ne_true,
    .act _ True.intro (.operate (.retrieve _ ?_)) fun _ _ _ _ _ _ looked => absurd looked Bool.false_ne_true,
    .act _ True.intro (.operate (.retrieve _ ?_)) fun _ _ _ _ _ _ _ => rfl,
    .endThread _ fun r left unknown => ?_, True.intro⟩
  · intro _ asks
    cases asks
  · intro g found
    cases found
  · intro _ asks
    cases asks
  · intro g found
    cases found
  · intro _ asks
    cases asks
  · intro _ _ keeps
    cases keeps
  · intro _ _ keeps
    cases keeps
  · -- It has looked something up in both.
    obtain ⟨retrieval, listed, own⟩ := List.any_eq_true.mp left
    have either : retrieval ∈ [visitorLooks "other", visitorLooks globalName] := listed
    simp only [List.mem_cons, List.not_mem_nil, or_false] at either
    rcases either with rfl | rfl
    · cases show some ⟨1⟩ = some r from of_decide_eq_true own
      cases show true = false from unknown
    · cases show some globalRegistry = some r from of_decide_eq_true own
      cases show true = false from unknown

theorem registries_independent_two : (World.start fun _ _ => 0).Orderly twoRegistries ∧
    (World.start fun _ _ => 0).withoutOthers globalRegistry twoRegistries = globalRegistryOnly ∧
    (∃ c : Counterpart, c.here = globalRegistry ∧ ∀ traced, List.Forall₂ c.Agrees
      ((World.start fun _ _ => 0).accounts traced (fun w command => command.isOn w globalRegistry) twoRegistries)
      ((World.start fun _ _ => 0).accounts traced (fun _ command => !command.ends) globalRegistryOnly) ∧
      List.Forall₂ c.AgreesOn
        ((World.start fun _ _ => 0).accounts traced (fun _ command => command.ends) twoRegistries)
        ((World.start fun _ _ => 0).accounts traced (fun _ command => command.ends) globalRegistryOnly)) ∧
    (∃ answer b line, ((World.start fun _ _ => 0).accounts false (fun _ command => command.ends) twoRegistries).map
        (fun account => account.told.filter (·.about? = some globalRegistry))
      = [[.exitRetrieved (some globalRegistry) answer (some 0),
        .lookedUp visitor globalRegistry ⟨64, by decide⟩ (some b) .direct,
        .lineDetached visitor globalRegistry line]]) ∧
    ∃ entry other b d, ((World.start fun _ _ => 0).afterAll twoRegistries).Registered globalRegistry entry
        ⟨64, by decide⟩ b ∧
      ((World.start fun _ _ => 0).afterAll twoRegistries).Registered ⟨1⟩ other ⟨64, by decide⟩ d := by
  have rest : (World.start fun _ _ => 0).withoutOthers globalRegistry twoRegistries = globalRegistryOnly := rfl
  obtain ⟨⟨c, here, _, agree⟩, _⟩ := registries_independent (unused_start _) .refl orderly_twoRegistries
    globalRegistry
  exact ⟨orderly_twoRegistries, rest, ⟨c, here, rest ▸ agree⟩, ⟨_, _, _, rfl⟩, ⟨1, 1⟩, ⟨1, 1⟩, _, _,
    ⟨_, rfl, rfl⟩, _, rfl, rfl⟩

end AttachedState
