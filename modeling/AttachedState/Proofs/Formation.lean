import AttachedState.Proofs.Machines

/-!
Formation.  A block is formed by its factories, one after the other.  The turn of a factory takes a
machine from one construction to the next: the factory's own actions are done, it makes its object, and
an object that lay in its slot is dropped.
-/

namespace AttachedState

-- A factory that does not panic makes an object, which goes into its slot; what lay there is to be dropped.
theorem World.make_ok {w after : World} {t : ThreadId} {site : Construction} {f : Factory} {value : Value}
    (made : w.makeValue t site.handle f = (.ok value, after)) :
    ∃ object : Object, object.value = value ∧ object.onDrop = f.dropActions ∧
      (w.make t site f).1.journal = .objectMade site.block f.slot object :: after.journal ∧
      (w.make t site f).2 = ((site.built.object? f.slot).elim [] fun earlier =>
          [.dropObject site.block site.handle earlier, .noteOverwritten site.handle f.slot]) ++
        [.construct { site with slots := site.slots.set f.slot (some object) }] := by
  refine ⟨⟨⟨after.next⟩, value, site.creation.registry, f.dropActions⟩, rfl, rfl, ?_⟩
  unfold make
  rw [made]
  cases lies : site.built.object? f.slot <;> exact ⟨rfl, rfl⟩

namespace Machine

variable {start : Machine} {rest : List Task} {site now last : Construction} {f : Factory} {object : Object}
  {made more : List (Factory × Object)} {k n : Nat}

-- The turn of a factory, from step `k` to step `n`.  What is left of the list after it is pending in the
-- construction; in step `j` it makes its object.
structure Makes (start : Machine) (rest : List Task) (site : Construction) (f : Factory) (object : Object)
    (k j n : Nat) : Prop where
  waits : (start.steps k).tasks = .construct { site with pending := f :: site.pending } :: rest
  started : (start.steps (k + 1)).world.journal
    = .factoryStarted site.block f.slot site.handle :: (start.steps k).world.journal
  own : (start.steps (k + 1)).tasks = f.before.map (.perform true) ++ .make site f :: rest
  busy : ∀ i, k < i → i < j → ∃ first, first ≠ [] ∧ (start.steps i).tasks = first ++ .make site f :: rest
  after : k < j
  making : (start.steps j).tasks = .make site f :: rest
  value : ((start.steps j).world.makeValue start.thread site.handle f).1 = .ok object.value
  onDrop : object.onDrop = f.dropActions
  told : .objectMade site.block f.slot object ∈ (start.steps (j + 1)).world.journal
  -- A slot that was empty holds the object at once.
  vacant : site.built.object? f.slot = none → n = j + 1
  -- Otherwise the earlier object is dropped, with all that it does then, before anything else happens.
  overwrites : ∀ earlier, site.built.object? f.slot = some earlier → j + 1 < n ∧
    (start.steps (j + 1)).tasks = .dropObject site.block site.handle earlier ::
      .noteOverwritten site.handle f.slot ::
      .construct { site with slots := site.slots.set f.slot (some object) } :: rest ∧
    ∀ i, j < i → i < n → ∃ first, first ≠ [] ∧ (start.steps i).tasks
      = first ++ .construct { site with slots := site.slots.set f.slot (some object) } :: rest
  later : j < n
  placed : (start.steps n).tasks
    = .construct { site with slots := site.slots.set f.slot (some object) } :: rest

-- The turns of some factories, one after the other, with the object that each of them made.
inductive Forms (start : Machine) (rest : List Task) :
    Construction → Nat → List (Factory × Object) → Nat → Construction → Prop
  | nil (site : Construction) (k : Nat) : Forms start rest site k [] k site
  | cons {site last : Construction} {f : Factory} {object : Object} {k j n i : Nat}
      {made : List (Factory × Object)} (first : start.Makes rest site f object k j n)
      (later : Forms start rest { site with slots := site.slots.set f.slot (some object) } n made i last) :
      Forms start rest { site with pending := f :: site.pending } k ((f, object) :: made) i last

-- A factory whose turn has come makes its object, or it panics.
theorem makes_or_panics (site : Construction)
    (waits : (start.steps k).tasks = .construct { site with pending := f :: site.pending } :: rest) :
    (∃ object j n, start.Makes rest site f object k j n) ∨
    ∃ j cause, k < j ∧ (start.steps j).tasks = .make site f :: rest ∧
      ((start.steps j).world.makeValue start.thread site.handle f).1 = .error cause := by
  have first := step_of_cons waits
  rw [← steps_succ] at first
  have own : (start.steps (k + 1)).tasks = f.before.map (.perform true) ++ .make site f :: rest := by
    rw [first]
    simp [World.take, World.construct]
  -- The factory's own actions are done first.
  obtain ⟨j, after, making, busy⟩ := steps_on _ own
  have stepped := step_of_cons making
  rw [← steps_succ, thread_steps] at stepped
  cases value : (start.steps j).world.makeValue start.thread site.handle f with
  | mk result world =>
    cases result with
    | error cause => exact .inr ⟨j, cause, after, making, by rw [value]⟩
    | ok given =>
      obtain ⟨object, is, onDrop, told, tasks⟩ := World.make_ok value
      have next : (start.steps (j + 1)).tasks = _ := congrArg Machine.tasks stepped
      simp only [World.take, tasks] at next
      have started : (start.steps (k + 1)).world.journal
          = .factoryStarted site.block f.slot site.handle :: (start.steps k).world.journal := by
        rw [first]
        rfl
      have there : .objectMade site.block f.slot object ∈ (start.steps (j + 1)).world.journal := by
        rw [stepped]
        simp only [World.take, told, List.mem_cons_self]
      refine .inl ⟨object, j, ?_⟩
      cases lies : site.built.object? f.slot with
      | none =>
        rw [lies] at next
        refine ⟨j + 1, ⟨waits, started, own, busy, after, making, by rw [value, is], onDrop, there,
          fun _ => rfl, fun earlier lay => ?_, Nat.lt_succ_self j, next⟩⟩
        rw [lies] at lay
        cases lay
      | some earlier =>
        rw [lies] at next
        -- Then the earlier object is dropped, with what it does then.
        have dropping : (start.steps (j + 1)).tasks
            = [.dropObject site.block site.handle earlier, .noteOverwritten site.handle f.slot] ++
              .construct { site with slots := site.slots.set f.slot (some object) } :: rest := next
        obtain ⟨n, later, placed, dropped⟩ := steps_on _ dropping
        have some_steps : n ≠ j + 1 := by
          rintro rfl
          rw [dropping] at placed
          cases placed
        refine ⟨n, ⟨waits, started, own, busy, after, making, by rw [value, is], onDrop, there,
          fun empty => ?_, fun other lay => ?_, later, placed⟩⟩
        · rw [lies] at empty
          cases empty
        · rw [lies] at lay
          cases lay
          exact ⟨by omega, dropping, dropped⟩

-- A construction comes to an end: all factories have had their turns, or one of them panics.
theorem forms_or_panics (site : Construction) (left : List Factory)
    (waits : (start.steps k).tasks = .construct { site with pending := left } :: rest) :
    ∃ made n last, start.Forms rest { site with pending := left } k made n last ∧
      ((last.pending = [] ∧ (start.steps n).tasks = .construct last :: rest) ∨
      ∃ f later j cause, last.pending = f :: later ∧ n < j ∧
        (start.steps j).tasks = .make { last with pending := later } f :: rest ∧
        ((start.steps j).world.makeValue start.thread site.handle f).1 = .error cause) := by
  induction left generalizing k site with
  | nil => exact ⟨[], k, _, .nil _ k, .inl ⟨rfl, waits⟩⟩
  | cons f left ih =>
    rcases makes_or_panics { site with pending := left } waits with
      ⟨object, j, n, makes⟩ | ⟨j, cause, later, making, panics⟩
    · obtain ⟨made, i, last, forms, ends⟩ :=
        ih { site with slots := site.slots.set f.slot (some object) } makes.placed
      exact ⟨(f, object) :: made, i, last, .cons makes forms, ends⟩
    · exact ⟨[], k, _, .nil _ k, .inr ⟨f, left, j, cause, rfl, later, making, panics⟩⟩

end Machine

/-! What the slots hold. -/

-- The slots when objects were put into them, one after the other.
def place (slots : List (Option Object)) (made : List (Factory × Object)) : List (Option Object) :=
  made.foldl (fun slots pair => slots.set pair.1.slot (some pair.2)) slots

-- The object that was made last for a slot.
def lastFor (made : List (Factory × Object)) (slot : Slot) : Option Object :=
  (made.filter (·.1.slot = slot)).getLast?.map (·.2)

section Places

variable {slots : List (Option Object)} {made : List (Factory × Object)} {slot : Slot}

theorem length_place (slots : List (Option Object)) (made : List (Factory × Object)) :
    (place slots made).length = slots.length := by
  induction made generalizing slots with
  | nil => rfl
  | cons pair rest ih =>
    show (place (slots.set pair.1.slot (some pair.2)) rest).length = _
    rw [ih, List.length_set]

theorem lastFor_cons (pair : Factory × Object) (made : List (Factory × Object)) (slot : Slot) :
    lastFor (pair :: made) slot
      = (lastFor made slot).or (if pair.1.slot = slot then some pair.2 else none) := by
  unfold lastFor
  split
  · rename_i here
    rw [List.filter_cons_of_pos (by simpa using here), List.getLast?_cons]
    cases (made.filter (·.1.slot = slot)).getLast? <;> rfl
  · rename_i away
    rw [List.filter_cons_of_neg (by simpa using away), Option.or_none]

-- A later object takes the place of an earlier one.
theorem getElem?_place (room : ∀ pair ∈ made, pair.1.slot < slots.length) :
    (place slots made)[slot]?.join = (lastFor made slot).or slots[slot]?.join := by
  induction made generalizing slots with
  | nil => rfl
  | cons pair rest ih =>
    have fits := room pair List.mem_cons_self
    have later : ∀ other ∈ rest, other.1.slot < (slots.set pair.1.slot (some pair.2)).length := by
      intro other listed
      rw [List.length_set]
      exact room other (List.mem_cons_of_mem _ listed)
    show (place (slots.set pair.1.slot (some pair.2)) rest)[slot]?.join = _
    rw [ih later, lastFor_cons, Option.or_assoc]
    split
    · rename_i here
      rw [← here, List.getElem?_set_self fits]
      rfl
    · rename_i away
      rw [List.getElem?_set_ne away, Option.none_or]

theorem lastFor_isSome : (lastFor made slot).isSome = true ↔ slot ∈ made.map (·.1.slot) := by
  unfold lastFor
  rw [Option.isSome_map, List.getLast?_isSome, ne_eq, List.filter_eq_nil_iff]
  simp

end Places

namespace Machine

variable {start : Machine} {rest : List Task} {site last : Construction} {made : List (Factory × Object)}
  {k n : Nat}

theorem Forms.ends (forms : start.Forms rest site k made n last) :
    site.pending = made.map (·.1) ++ last.pending ∧
      last = { site with slots := place site.slots made, pending := last.pending } := by
  induction forms with
  | nil site k => exact ⟨rfl, rfl⟩
  | cons first later ih =>
    obtain ⟨pending, same⟩ := ih
    exact ⟨congrArg (List.cons _) pending, same⟩

end Machine

end AttachedState
