import AttachedState.Proofs.Lookups
import AttachedState.Proofs.Scrubs

/-!
What the journal reports is right.  A lookup is told to be answered from a line just when the line
held the handle; a removal is told of the block that the handle had, with the number of threads whose
line held the handle.  So the history of a line tells what it holds.
-/

namespace AttachedState

-- What an event reports is what the journal says so far.
def Event.Right (earlier : List Event) : Event → Prop
  | lookedUp t r h _ route => route = .line ↔ lineTold t r earlier = some h
  | stateCreated r _ _ h _ => mapped r h earlier = none
  | stateRemoved r _ b h scrubbed => mapped r h earlier = some b ∧ ∃ threads : List ThreadId,
    threads.Nodup ∧ (∀ t, t ∈ threads ↔ lineTold t r earlier = some h) ∧ scrubbed = threads.length
  | _ => True

def Reported (journal : List Event) : Prop :=
  ∀ later e earlier, journal = later ++ e :: earlier → e.Right earlier

namespace Reported

variable {e : Event} {journal : List Event}

theorem nil : Reported [] := by
  intro later e earlier split
  cases later <;> cases split

theorem cons (reported : Reported journal) (right : e.Right journal) : Reported (e :: journal) := by
  intro later e' earlier split
  cases later with
  | nil =>
    cases split
    exact right
  | cons first rest =>
    cases split
    exact reported rest e' earlier rfl

theorem tail (reported : Reported (e :: journal)) : Reported journal :=
  fun later e' earlier split => reported (e :: later) e' earlier (by rw [split]; rfl)

theorem head (reported : Reported (e :: journal)) : e.Right journal := reported [] e journal rfl

end Reported

/-! The history of a line. -/

section History

variable {t : ThreadId} {r : RegistryId} {h : Handle} {b : BlockId} {journal : List Event}

-- A handle keeps its block until this is removed, and whatever is told meanwhile.
theorem mapped_cons_of_kept {e : Event} (right : e.Right journal) (before : mapped r h journal = some b)
    (kept : ∀ entry scrubbed, e ≠ .stateRemoved r entry b h scrubbed) :
    mapped r h (e :: journal) = some b ∧ e.removes r h = false := by
  cases e with
  | stateCreated registry entry block handle slots =>
    refine ⟨?_, rfl⟩
    simp only [mapped]
    rw [if_neg]
    · exact before
    · rintro ⟨rfl, rfl⟩
      have free : mapped registry handle journal = none := right
      cases free.symm.trans before
  | stateRemoved registry entry block handle scrubbed =>
    have apart : ¬(registry = r ∧ handle = h) := by
      rintro ⟨rfl, rfl⟩
      have had : mapped registry handle journal = some block := right.1
      cases had.symm.trans before
      exact kept entry scrubbed rfl
    refine ⟨?_, decide_eq_false apart⟩
    simp only [mapped]
    rw [if_neg apart]
    exact before
  | _ => exact ⟨before, rfl⟩

-- What a thread found stays in its line as long as it writes nothing else there and the block that it
-- found is not removed.
theorem lineTold_since {later earlier : List Event} {route : Route} (cached : route ≠ .direct)
    (found : mapped r h earlier = some b)
    (reported : Reported (later ++ .lookedUp t r h (some b) route :: earlier))
    (unwritten : ∀ e ∈ later, e.writes t r = false)
    (kept : ∀ entry scrubbed, .stateRemoved r entry b h scrubbed ∉ later) :
    lineTold t r (later ++ .lookedUp t r h (some b) route :: earlier) = some h ∧
      mapped r h (later ++ .lookedUp t r h (some b) route :: earlier) = some b := by
  induction later with
  | nil => exact ⟨if_pos ⟨rfl, rfl, cached⟩, found⟩
  | cons e rest ih =>
    obtain ⟨holds, has⟩ := ih reported.tail (fun e listed => unwritten e (List.mem_cons_of_mem _ listed))
      fun entry scrubbed listed => kept entry scrubbed (List.mem_cons_of_mem _ listed)
    obtain ⟨still, unremoved⟩ := mapped_cons_of_kept reported.head has fun entry scrubbed same =>
      kept entry scrubbed (by rw [same]; exact List.mem_cons_self)
    refine ⟨?_, still⟩
    have first : lineTold t r (e :: rest ++ .lookedUp t r h (some b) route :: earlier)
        = e.relines t r (lineTold t r (rest ++ .lookedUp t r h (some b) route :: earlier)) := rfl
    rw [first, Event.relines_of_silent (unwritten e List.mem_cons_self), holds]
    intro other held
    rw [holds] at held
    cases held
    exact unremoved

theorem lineTold_eq_some_iff (reported : Reported journal) (truthful : Truthful journal) :
    lineTold t r journal = some h ↔ ∃ later earlier b route,
      journal = later ++ .lookedUp t r h (some b) route :: earlier ∧ route ≠ .direct ∧
      (∀ e ∈ later, e.writes t r = false) ∧
      ∀ entry scrubbed, .stateRemoved r entry b h scrubbed ∉ later := by
  constructor
  · intro holds
    obtain ⟨later, earlier, b, route, split, cached, silent⟩ := lookedUp_of_lineTold holds
    refine ⟨later, earlier, b, route, split, cached, fun e listed => (silent e listed).1, ?_⟩
    intro entry scrubbed listed
    have removed := (silent _ listed).2
    simp [Event.removes] at removed
  · rintro ⟨later, earlier, b, route, rfl, cached, unwritten, kept⟩
    have found := truthful later earlier t r h (some b) route rfl
    exact (lineTold_since cached found.symm reported unwritten kept).1

end History

/-! Moves. -/

namespace Scene.Arises

variable {hashing : RegistryId → Handle → UInt64} {s s' : Scene} {t : ThreadId} {memo : Memo}
  {registry : Registry} {h : Handle}

-- A line that holds a handle stands for a block that is in the world.
theorem remembered?_of_lineOf (arisen : Arises hashing s) (known : memo ∈ (s.world.thread t).memos)
    (live : s.world.registries.find? memo.registry = some registry)
    (holds : s.world.lineOf t memo.registry = some h) : ∃ b, s.world.remembered? memo h = some b := by
  have lined := arisen.lined
  have here := (lined.lineHolds_iff known live).mpr holds
  obtain ⟨b, block, stored⟩ := lined.faithful t memo known registry live h
    (by simpa [Registry.lineHolds] using here)
  have mapped := World.map?_of_find? live
  obtain ⟨entry, there⟩ := (HandleMap.get?_eq_some_iff (arisen.owned.valid _ _ mapped)).mp stored
  obtain ⟨present, found⟩ := arisen.live.block_registered arisen.tidy ⟨_, mapped, there⟩
  refine ⟨b, World.remembered?_eq_some.mpr ⟨?_, block, Table.contains_iff.mpr ⟨present, found⟩⟩⟩
  rwa [World.registry_of_find? live]

theorem right_of_quiet {w : World} (arisen : Arises hashing s) (change : Quiet s.world w) :
    w.journal = s.world.journal ∨
      ∃ e : Event, e.Right s.world.journal ∧ w.journal = e :: s.world.journal := by
  have told := arisen.lineOf_eq
  have mine : ∀ {u : ThreadId} {thread : Thread} {memo : Memo},
      s.world.threads.find? u = some thread → memo ∈ thread.memos →
      memo ∈ (s.world.thread u).memos := by
    intro u thread memo runs known
    rwa [World.thread_of_find? runs]
  cases change with
  | @noted _ e aside =>
    refine .inr ⟨e, ?_, rfl⟩
    cases e <;> trivial
  | filed | started | looked | left | pruned | asked | forgot | gone => exact .inl rfl
  | attached | detached =>
    refine .inr ⟨_, ?_, rfl⟩
    trivial
  | hit runs known live holds block present =>
    refine .inr ⟨_, ?_, rfl⟩
    refine ⟨fun _ => ?_, fun _ => rfl⟩
    rw [← told _ (Table.contains_iff.mpr ⟨_, live⟩)]
    exact (arisen.lined.lineHolds_iff (mine runs known) live).mp holds
  | resolved runs free known live cold =>
    refine .inr ⟨_, ?_, rfl⟩
    refine ⟨nofun, fun holds => ?_⟩
    rw [← told _ (Table.contains_iff.mpr ⟨_, live⟩)] at holds
    obtain ⟨b, remembered⟩ := arisen.remembered?_of_lineOf (mine runs known) live holds
    cases cold.symm.trans remembered
  | direct runs free gone live =>
    refine .inr ⟨_, ?_, rfl⟩
    refine ⟨nofun, fun holds => ?_⟩
    rw [← told _ (Table.contains_iff.mpr ⟨_, live⟩), World.lineOf_of_forgotten] at holds
    · cases holds
    · have none_left := arisen.forgotten _ (by rw [World.thread_of_find? runs, gone])
      unfold Thread.memo?
      rw [none_left]
      rfl

-- What a move tells is right.
theorem right_of_move (arisen : Arises hashing s) (move : Move s s') :
    s'.world.journal = s.world.journal ∨
      ∃ e : Event, e.Right s.world.journal ∧ s'.world.journal = e :: s.world.journal := by
  have told := arisen.lineOf_eq
  cases move with
  | turned | locked | unlocked | opened | shared | unnamed | retained | spared | closed | held | unheld
  | released | fell | begun | abandoned | entitled | disowned => exact .inl rfl
  | ended | tried | made | orphaned | dropped =>
    refine .inr ⟨_, ?_, rfl⟩
    trivial
  | quiet change => exact arisen.right_of_quiet change
  | enrolled site registry entry contexts rest first live inserted =>
    refine .inr ⟨_, ?_, rfl⟩
    have mapped := World.map?_of_find? live
    show AttachedState.mapped site.registry site.handle s.world.journal = none
    rw [← arisen.recorded _ _ mapped]
    exact HandleMap.get?_fresh (arisen.owned.valid _ _ mapped) inserted
  | withdrawn g registry contexts front back before after hands tasks live removed =>
    have mapped := World.map?_of_find? live
    have there : s.world.registries.contains g.registry = true := Table.contains_iff.mpr ⟨_, live⟩
    refine .inr ⟨_, ?_, rfl⟩
    refine ⟨?_, s.world.threadsHolding g.registry g.handle,
      World.nodup_threadsHolding arisen.tidy, fun t => ?_, ?_⟩
    · rw [← arisen.recorded _ _ mapped]
      exact (HandleMap.get?_eq_some_iff (arisen.owned.valid _ _ mapped)).mpr
        ⟨_, HandleMap.entry?_of_remove? removed⟩
    · rw [World.mem_threadsHolding, told _ there]
    · exact arisen.tended.holding arisen.lined arisen.tidy live g.handle

theorem reported (arisen : Arises hashing s) : Reported s.world.journal := by
  induction arisen with
  | refl => exact .nil
  | tail before move ih =>
    rcases right_of_move before move with same | ⟨e, right, told⟩
    · rw [same]
      exact ih
    · rw [told]
      exact ih.cons right

end Scene.Arises

end AttachedState
