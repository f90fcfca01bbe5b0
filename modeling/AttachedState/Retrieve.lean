import AttachedState.Ownership

/-!
Retrieving the block of a context, and reading from blocks.
-/

namespace AttachedState.World

-- There is no answer if one of the names stands for no key.
def readAll? (w : World) (b : BlockId) (names : List Name) : Option (List (Option Value)) :=
  names.mapM fun name => (w.keys.find? name).map fun key => w.read? key b

-- A block that was held under the name is given up afterwards.
def keep (w : World) (name : Name) (b : BlockId) : World × List Task :=
  ({ w with held := w.held.put name b }, ((w.held.find? name).map .releaseBlock).toList)

-- The names that stand for the block are taken before it is held.
def present (w : World) (retrieval : Retrieval) (b : BlockId) : Outcome :=
  match w.describe? b, retrieval.keys.mapM (w.readAll? b) with
  | some description, some values =>
    let answer := .block description values
    match retrieval.keepAs with
    | none => .of w answer
    | some name =>
      let (w, first) := w.keep name b
      ⟨w, answer, first⟩
  | _, _ => .fail w .noSuchName

-- The retrieval keeps its registry until it ends.
def retrieve (w : World) (t : ThreadId) (retrieval : Retrieval) : Outcome :=
  match Handle.ofAddress? retrieval.address with
  | none => .fail w .nullHandle
  | some h =>
  match w.registryNamed? retrieval.registry with
  | none => .fail w .noSuchName
  | some r =>
  match w.lookUp t r h with
  | (.error cause, w) => .fail w (.panic cause)
  | (.ok none, w) => .fail w ((Refusal.unregistered h).raise retrieval.strict)
  | (.ok (some b), w) =>
    let outcome := w.present retrieval b
    { outcome with first := outcome.first ++ [.releaseRegistry r] }

def leaveForExit (w : World) (t : ThreadId) (retrieval : Retrieval) : Outcome :=
  let thread := w.thread t
  .of (w.setThread t { thread with atExit := thread.atExit ++ [retrieval] }) .done

def hold (w : World) (state name : Name) : Outcome :=
  match w.states.find? state with
  | none => .fail w .noSuchName
  | some g =>
    let (w, first) := w.keep name g.block
    ⟨w, .done, first⟩

def release (w : World) (name : Name) : Outcome :=
  match w.held.find? name with
  | none => .fail w .noSuchName
  | some b => ⟨{ w with held := w.held.erase name }, .done, [.releaseBlock b]⟩

def ofSubject (w : World) (subject : Subject) (tell : Block → Answer) : Outcome :=
  match (w.subject? subject).bind w.blocks.find? with
  | none => .fail w .noSuchName
  | some block => .of w (tell block)

def readKey (w : World) (name : Name) (subject : Subject) : Outcome :=
  match w.keys.find? name with
  | none => .fail w .noSuchName
  | some key => w.ofSubject subject fun block => .value (block.read? key.slot key.kind)

def showSlot (w : World) (slot : Slot) (subject : Subject) : Outcome :=
  w.ofSubject subject fun block => .content ((block.object? slot).map (·.value))

def showBlock (w : World) (subject : Subject) (layout : Layout) : Outcome :=
  w.ofSubject subject fun block =>
    .blockShown block.handle block.slotCount block.installed (block.outline.render layout)

end AttachedState.World
