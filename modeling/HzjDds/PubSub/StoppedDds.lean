import HzjDds.Transition.Run
import Mathlib.Data.Fintype.Basic

/-!
# Entities of a stopped DDS object

Library `PubSub`. Source: `ddspubsub.py:104–152`, `ddsservice.py:50–69`. Threads start and stop a DDS
object, publish and subscribe, one statement at a time. The participant of its domain belongs to the
process: it may be made by another service too, and it stays.
-/

namespace HzjDds.PubSub

open HzjDds.Transition

universe u v

/-- The maps of a DDS object. -/
inductive DdsMap where
  | writers
  | readers
  | listeners
  deriving DecidableEq, Repr

/-- Next statement of a call (`ddspubsub.py:104–152`, `ddsservice.py:50–61`). `unwind` leaves the
`with` block of a getter with an exception. -/
inductive DdsPc (α : Type u) where
  | start
  | startReturn
  | stopReaderLock
  | clearReaders
  | clearListeners
  | stopReaderUnlock
  | stopWriterLock
  | clearWriters
  | stopWriterUnlock
  | stopReturn
  | writerLock (topic : α)
  | checkWriter (topic : α)
  | writerTopic (topic : α)
  | createWriter (topic : α)
  | storeWriter (topic : α)
  | returnWriter (topic : α)
  | unwindWriter
  | write
  | readerLock (topic : α)
  | checkReader (topic : α)
  | readerTopic (topic : α)
  | createReader (topic : α)
  | storeReader (topic : α)
  | storeListener (topic : α)
  | returnListener (topic : α)
  | unwindReader
  | addCallback
  deriving DecidableEq, Repr

/-- A DDS object, and whether its domain has a participant. `stopped` says that a `stop` has
returned and no `start` has been called since. -/
structure DdsObject (τ : Type v) (α : Type u) where
  participant : Bool := false
  entries : DdsMap → List α := fun _ ↦ []
  writerLock : Option τ := none
  readerLock : Option τ := none
  calls : τ → Option (DdsPc α) := fun _ ↦ none
  stopped : Bool := false

/-- The methods of a DDS object. -/
inductive DdsMethod (α : Type u) where
  | start
  | stop
  | publish (topic : α)
  | subscribe (topic : α)
  deriving DecidableEq, Repr

/-- A thread calls a method or executes the next statement of its call, which may raise where it
calls `cyclonedds`; or another service of the domain makes the participant. -/
inductive DdsObjectAction (τ : Type v) (α : Type u) where
  | call (thread : τ) (method : DdsMethod α)
  | next (thread : τ) (raises : Bool)
  | participate
  deriving DecidableEq, Repr

variable {τ : Type v} {α : Type u} [DecidableEq τ] [DecidableEq α]

/-- First statement of a method. -/
def DdsMethod.first : DdsMethod α → DdsPc α
  | .start => .start
  | .stop => .stopReaderLock
  | .publish topic => .writerLock topic
  | .subscribe topic => .readerLock topic

/-- The map that a getter looks its topic up in before it stores an entry in this one. -/
def DdsMap.tested : DdsMap → DdsMap
  | .writers => .writers
  | .readers | .listeners => .readers

private theorem DdsMap.forall_iff {p : DdsMap → Prop} :
    (∀ map, p map) ↔ p .writers ∧ p .readers ∧ p .listeners := by
  refine ⟨fun h ↦ ⟨h _, h _, h _⟩, fun ⟨hwriters, hreaders, hlisteners⟩ map ↦ ?_⟩
  cases map <;> assumption

/-- The lookup that a statement makes. -/
def DdsPc.tested? : DdsPc α → Option (DdsMap × α)
  | .checkWriter topic => some (.writers, topic)
  | .checkReader topic => some (.readers, topic)
  | _ => none

/-- A getter has not found its topic and may still store an entry in the map. -/
def DdsPc.storing : DdsMap → DdsPc α → Bool
  | .writers => fun pc ↦ match pc with
    | .writerTopic _ | .createWriter _ | .storeWriter _ => true
    | _ => false
  | .readers | .listeners => fun pc ↦ match pc with
    | .readerTopic _ | .createReader _ | .storeReader _ | .storeListener _ => true
    | _ => false

/-- A `stop` has cleared the map and has not returned. -/
def DdsPc.cleared : DdsMap → DdsPc α → Bool
  | .writers => fun pc ↦ match pc with
    | .stopWriterUnlock | .stopReturn => true
    | _ => false
  | .readers => fun pc ↦ match pc with
    | .clearListeners | .stopReaderUnlock | .stopWriterLock | .clearWriters | .stopWriterUnlock
    | .stopReturn => true
    | _ => false
  | .listeners => fun pc ↦ match pc with
    | .stopReaderUnlock | .stopWriterLock | .clearWriters | .stopWriterUnlock | .stopReturn => true
    | _ => false

/-- The statement stands inside a `with` block of the lock of the map. -/
def DdsPc.locks : DdsMap → DdsPc α → Bool
  | .writers => fun pc ↦ match pc with
    | .clearWriters | .stopWriterUnlock | .checkWriter _ | .writerTopic _ | .createWriter _
    | .storeWriter _ | .returnWriter _ | .unwindWriter => true
    | _ => false
  | .readers | .listeners => fun pc ↦ match pc with
    | .clearReaders | .clearListeners | .stopReaderUnlock | .checkReader _ | .readerTopic _
    | .createReader _ | .storeReader _ | .storeListener _ | .returnListener _ | .unwindReader => true
    | _ => false

namespace DdsObject

/-- The call of a thread goes on at another statement. -/
def goto (s : DdsObject τ α) (thread : τ) (pc : DdsPc α) : DdsObject τ α :=
  { s with calls := Function.update s.calls thread (some pc) }

/-- The call of a thread is over. -/
def leave (s : DdsObject τ α) (thread : τ) : DdsObject τ α :=
  { s with calls := Function.update s.calls thread none }

omit [DecidableEq τ] in
/-- `d[topic] = …` for one of the maps. -/
def store (s : DdsObject τ α) (map : DdsMap) (topic : α) : DdsObject τ α :=
  { s with
    entries := Function.update s.entries map
      (if topic ∈ s.entries map then s.entries map else s.entries map ++ [topic]) }

omit [DecidableEq τ] [DecidableEq α] in
/-- `d.clear()` for one of the maps. -/
def clear (s : DdsObject τ α) (map : DdsMap) : DdsObject τ α :=
  { s with entries := Function.update s.entries map [] }

/-- Next statement of the call of a thread. -/
def next (s : DdsObject τ α) (thread : τ) (raises : Bool) : DdsPc α → Option (DdsObject τ α)
  | .start =>
    if s.participant then some (s.goto thread .startReturn)
    else if raises then some (s.leave thread)
    else some { s.goto thread .startReturn with participant := true }
  | .startReturn => some (s.leave thread)
  | .stopReaderLock =>
    if s.readerLock.isNone then some { s.goto thread .clearReaders with readerLock := some thread }
    else none
  | .clearReaders => some ((s.clear .readers).goto thread .clearListeners)
  | .clearListeners => some ((s.clear .listeners).goto thread .stopReaderUnlock)
  | .stopReaderUnlock => some { s.goto thread .stopWriterLock with readerLock := none }
  | .stopWriterLock =>
    if s.writerLock.isNone then some { s.goto thread .clearWriters with writerLock := some thread }
    else none
  | .clearWriters => some ((s.clear .writers).goto thread .stopWriterUnlock)
  | .stopWriterUnlock => some { s.goto thread .stopReturn with writerLock := none }
  | .stopReturn => some { s.leave thread with stopped := true }
  | .writerLock topic =>
    if s.writerLock.isNone then
      some { s.goto thread (.checkWriter topic) with writerLock := some thread }
    else none
  | .checkWriter topic =>
    if topic ∈ s.entries .writers then some (s.goto thread (.returnWriter topic))
    else some (s.goto thread (.writerTopic topic))
  | .writerTopic topic =>
    if !s.participant || raises then some (s.goto thread .unwindWriter)
    else some (s.goto thread (.createWriter topic))
  | .createWriter topic =>
    if !s.participant || raises then some (s.goto thread .unwindWriter)
    else some (s.goto thread (.storeWriter topic))
  | .storeWriter topic => some ((s.store .writers topic).goto thread (.returnWriter topic))
  | .returnWriter topic =>
    if topic ∈ s.entries .writers then some { s.goto thread .write with writerLock := none }
    else some (s.goto thread .unwindWriter)
  | .unwindWriter => some { s.leave thread with writerLock := none }
  | .write => some (s.leave thread)
  | .readerLock topic =>
    if s.readerLock.isNone then
      some { s.goto thread (.checkReader topic) with readerLock := some thread }
    else none
  | .checkReader topic =>
    if topic ∈ s.entries .readers then some (s.goto thread (.returnListener topic))
    else some (s.goto thread (.readerTopic topic))
  | .readerTopic topic =>
    if !s.participant || raises then some (s.goto thread .unwindReader)
    else some (s.goto thread (.createReader topic))
  | .createReader topic =>
    if !s.participant || raises then some (s.goto thread .unwindReader)
    else some (s.goto thread (.storeReader topic))
  | .storeReader topic => some ((s.store .readers topic).goto thread (.storeListener topic))
  | .storeListener topic => some ((s.store .listeners topic).goto thread (.returnListener topic))
  | .returnListener topic =>
    if topic ∈ s.entries .listeners then
      some { s.goto thread .addCallback with readerLock := none }
    else some (s.goto thread .unwindReader)
  | .unwindReader => some { s.leave thread with readerLock := none }
  | .addCallback => some (s.leave thread)

/-- One step. -/
def step (s : DdsObject τ α) : DdsObjectAction τ α → Option (DdsObject τ α)
  | .call thread method =>
    match s.calls thread with
    | none => some { s.goto thread method.first with
        stopped := match method with
          | .start => false
          | _ => s.stopped }
    | some _ => none
  | .next thread raises => (s.calls thread).bind (s.next thread raises)
  | .participate => some { s with participant := true }

/-- A stopped object has empty maps. -/
def Empty (s : DdsObject τ α) : Prop := s.stopped = true → ∀ map, s.entries map = []

/-- Lock of a map. -/
def lock (s : DdsObject τ α) : DdsMap → Option τ
  | .writers => s.writerLock
  | .readers | .listeners => s.readerLock

/-- The object is stopped, or a `stop` has cleared the map and is about to return. -/
def Closed (s : DdsObject τ α) (map : DdsMap) : Prop :=
  s.stopped = true ∨ ∃ thread, ∃ pc ∈ s.calls thread, pc.cleared map

/-- No publish or subscribe that needs a new entity looks its topic up in a map that is closed. -/
def OpenLookup (s : DdsObject τ α) : DdsObjectAction τ α → Prop
  | .next thread _ => ∀ pc ∈ s.calls thread, ∀ test ∈ pc.tested?,
      test.2 ∉ s.entries test.1 → ¬ s.Closed test.1
  | _ => True

instance [Fintype τ] (s : DdsObject τ α) (map : DdsMap) : Decidable (s.Closed map) :=
  inferInstanceAs (Decidable (_ ∨ ∃ thread, ∃ pc ∈ s.calls thread, pc.cleared map))

instance [Fintype τ] (s : DdsObject τ α) : ∀ a, Decidable (s.OpenLookup a)
  | .next thread _ => inferInstanceAs (Decidable (∀ pc ∈ s.calls thread, ∀ test ∈ pc.tested?, _ → _))
  | .call _ _ | .participate => isTrue trivial

/-- What holds between two steps: a call inside a `with` block holds the lock, and a closed map is
empty, with no getter about to store an entry in it. -/
structure Inv (s : DdsObject τ α) : Prop where
  held : ∀ map thread pc, s.calls thread = some pc → pc.locks map → s.lock map = some thread
  empty : ∀ map, s.Closed map → s.entries map = []
  idle : ∀ map, s.Closed map → ∀ thread pc, s.calls thread = some pc → ¬ pc.storing map

omit [DecidableEq τ] [DecidableEq α] in
/-- A new object. -/
theorem inv_new : Inv ({} : DdsObject τ α) where
  held := fun _ _ _ h ↦ by contradiction
  empty := fun _ _ ↦ rfl
  idle := fun _ _ _ _ h ↦ by contradiction

/-! ## What a statement does -/

attribute [simp] DdsMap.forall_iff DdsPc.locks DdsPc.cleared DdsPc.storing

variable {s s' : DdsObject τ α} {thread : τ} {raises : Bool} {pc : DdsPc α} {map : DdsMap}

omit [DecidableEq τ] [DecidableEq α] in
private theorem locks_of_storing (h : pc.storing map) : pc.locks map := by
  cases map <;> cases pc <;> first | rfl | exact h

omit [DecidableEq τ] [DecidableEq α] in
private theorem Inv.eq_of_locks (h : Inv s) {other : τ} {pc' : DdsPc α} (hcall : s.calls thread = some pc)
    (hother : s.calls other = some pc') (hpc : pc.locks map) (hpc' : pc'.locks map) :
    other = thread :=
  Option.some.inj ((h.held map other pc' hother hpc').symm.trans (h.held map thread pc hcall hpc))

/-- What a statement does: the call goes on at another statement or is over, takes a lock that is free,
keeps those it has or gives one back; entries come in only from a getter that has not found its topic
and go only when all do. -/
structure Moves (s s' : DdsObject τ α) (thread : τ) (pc : DdsPc α) (call : Option (DdsPc α)) :
    Prop where
  calls : s'.calls = Function.update s.calls thread call
  locks : ∀ map, ∀ pc' ∈ call, pc'.locks map → s'.lock map = some thread
  others : ∀ map, s'.lock map = s.lock map ∨ s.lock map = none ∨ pc.locks map
  entries : ∀ map, s'.entries map = s.entries map ∨ s'.entries map = [] ∨ pc.storing map
  stopped : s'.stopped = true → s.stopped = true ∨ pc = .stopReturn
  cleared : ∀ map, ∀ pc' ∈ call, pc'.cleared map →
    pc.cleared map ∨ s'.entries map = [] ∧ pc.locks map
  storing : ∀ map, ∀ pc' ∈ call, pc'.storing map → pc.storing map ∨
    ∃ topic, pc.tested? = some (map.tested, topic) ∧ topic ∉ s.entries map.tested

omit [DecidableEq α] in
/-- A statement that leaves the locks and the maps, and does not begin to store. -/
theorem Moves.pass {call : Option (DdsPc α)} (hheld : ∀ map, pc.locks map → s.lock map = some thread)
    (hcalls : s'.calls = Function.update s.calls thread call) (hlock : s'.lock = s.lock)
    (hentries : s'.entries = s.entries) (hstopped : s'.stopped = s.stopped)
    (hcall : ∀ map, ∀ pc' ∈ call, (pc'.locks map → pc.locks map) ∧
      (pc'.cleared map → pc.cleared map) ∧ (pc'.storing map → pc.storing map)) :
    Moves s s' thread pc call where
  calls := hcalls
  locks := fun map pc' hpc' h ↦ by rw [hlock]; exact hheld map ((hcall map pc' hpc').1 h)
  others := fun map ↦ .inl (congrFun hlock map)
  entries := fun map ↦ .inl (congrFun hentries map)
  stopped := fun h ↦ .inl (hstopped ▸ h)
  cleared := fun map pc' hpc' h ↦ .inl ((hcall map pc' hpc').2.1 h)
  storing := fun map pc' hpc' h ↦ .inl ((hcall map pc' hpc').2.2 h)

omit [DecidableEq α] in
/-- A getter has looked its topic up in vain, and goes on to store it. -/
theorem Moves.miss (hheld : ∀ map, pc.locks map → s.lock map = some thread) {pc' : DdsPc α}
    {map : DdsMap} {topic : α} (htested : pc.tested? = some (map, topic))
    (hmissing : topic ∉ s.entries map)
    (hcall : ∀ other, (pc'.locks other → pc.locks other) ∧ pc'.cleared other = false ∧
      (pc'.storing other → other.tested = map)) : Moves s (s.goto thread pc') thread pc (some pc') where
  calls := rfl
  locks := by
    rintro other _ ⟨⟩ h
    exact hheld other ((hcall other).1 h)
  others := fun _ ↦ .inl rfl
  entries := fun _ ↦ .inl rfl
  stopped := .inl
  cleared := by
    rintro other _ ⟨⟩ h
    rw [(hcall other).2.1] at h
    cases h
  storing := by
    rintro other _ ⟨⟩ h
    obtain rfl := (hcall other).2.2 h
    exact .inr ⟨topic, htested, hmissing⟩

omit [DecidableEq α] in
/-- A statement that takes a lock. -/
theorem Moves.take {pc' : DdsPc α} (hcalls : s'.calls = Function.update s.calls thread (some pc'))
    (hlock : ∀ map, pc'.locks map = true ∧ s.lock map = none ∧ s'.lock map = some thread ∨
      pc'.locks map = false ∧ s'.lock map = s.lock map)
    (hentries : s'.entries = s.entries) (hstopped : s'.stopped = s.stopped)
    (hcleared : ∀ map, pc'.cleared map → pc.cleared map)
    (hstoring : ∀ map, pc'.storing map = false) : Moves s s' thread pc (some pc') where
  calls := hcalls
  locks := by
    rintro map _ ⟨⟩ hlocks
    rcases hlock map with ⟨-, -, h⟩ | ⟨h, -⟩
    · exact h
    · rw [h] at hlocks
      cases hlocks
  others := fun map ↦ (hlock map).elim (fun h ↦ .inr (.inl h.2.1)) fun h ↦ .inl h.2
  entries := fun map ↦ .inl (congrFun hentries map)
  stopped := fun h ↦ .inl (hstopped ▸ h)
  cleared := by
    rintro map _ ⟨⟩ h
    exact .inl (hcleared map h)
  storing := by
    rintro map _ ⟨⟩ h
    rw [hstoring] at h
    cases h

omit [DecidableEq α] in
/-- A statement that gives a lock back. -/
theorem Moves.give {call : Option (DdsPc α)}
    (hcalls : s'.calls = Function.update s.calls thread call)
    (hlock : ∀ map, s'.lock map = s.lock map ∨ pc.locks map)
    (hentries : s'.entries = s.entries) (hstopped : s'.stopped = s.stopped)
    (hcall : ∀ map, ∀ pc' ∈ call, pc'.locks map = false ∧ pc'.storing map = false ∧
      (pc'.cleared map → pc.cleared map)) : Moves s s' thread pc call where
  calls := hcalls
  locks := by
    intro map pc' hpc' h
    rw [(hcall map pc' hpc').1] at h
    cases h
  others := fun map ↦ (hlock map).imp_right .inr
  entries := fun map ↦ .inl (congrFun hentries map)
  stopped := fun h ↦ .inl (hstopped ▸ h)
  cleared := fun map pc' hpc' h ↦ .inl ((hcall map pc' hpc').2.2 h)
  storing := by
    intro map pc' hpc' h
    rw [(hcall map pc' hpc').2.1] at h
    cases h

omit [DecidableEq α] in
/-- A statement that clears a map under its lock. -/
theorem Moves.clear (hheld : ∀ map, pc.locks map → s.lock map = some thread) {pc' : DdsPc α}
    (map : DdsMap) (hpc : pc.locks map) (hlocks : ∀ other, pc'.locks other → pc.locks other)
    (hcleared : ∀ other, pc'.cleared other → pc.cleared other ∨ other = map)
    (hstoring : ∀ other, pc'.storing other = false) :
    Moves s ((s.clear map).goto thread pc') thread pc (some pc') where
  calls := rfl
  locks := by
    rintro other _ ⟨⟩ h
    exact hheld other (hlocks other h)
  others := fun _ ↦ .inl rfl
  entries := by
    intro other
    rcases eq_or_ne other map with rfl | hne
    · exact .inr (.inl (Function.update_self ..))
    · exact .inl (Function.update_of_ne hne ..)
  stopped := .inl
  cleared := by
    rintro other _ ⟨⟩ h
    rcases hcleared other h with hbefore | rfl
    · exact .inl hbefore
    · exact .inr ⟨Function.update_self .., hpc⟩
  storing := by
    rintro other _ ⟨⟩ h
    rw [hstoring] at h
    cases h

/-- A statement that stores an entry. -/
theorem Moves.store (hheld : ∀ map, pc.locks map → s.lock map = some thread) {pc' : DdsPc α}
    (map : DdsMap) (topic : α) (hpc : pc.storing map)
    (hlocks : ∀ other, pc'.locks other → pc.locks other)
    (hcleared : ∀ other, pc'.cleared other = false)
    (hstoring : ∀ other, pc'.storing other → pc.storing other) :
    Moves s ((s.store map topic).goto thread pc') thread pc (some pc') where
  calls := rfl
  locks := by
    rintro other _ ⟨⟩ h
    exact hheld other (hlocks other h)
  others := fun _ ↦ .inl rfl
  entries := by
    intro other
    rcases eq_or_ne other map with rfl | hne
    · exact .inr (.inr hpc)
    · exact .inl (Function.update_of_ne hne ..)
  stopped := .inl
  cleared := by
    rintro other _ ⟨⟩ h
    rw [hcleared] at h
    cases h
  storing := by
    rintro other _ ⟨⟩ h
    exact .inl (hstoring other h)

/-- Every statement does that. -/
theorem exists_moves (hs : s.next thread raises pc = some s')
    (hheld : ∀ map, pc.locks map → s.lock map = some thread) :
    ∃ call, Moves s s' thread pc call := by
  have hfree : ∀ {o : Option τ}, o.isNone = true → o = none := Option.isNone_iff_eq_none.mp
  cases pc with
  | start =>
    simp only [next] at hs
    split_ifs at hs <;> cases hs
    · exact ⟨some .startReturn, .pass hheld rfl rfl rfl rfl (by simp)⟩
    · exact ⟨none, .pass hheld rfl rfl rfl rfl (by simp)⟩
    · exact ⟨some .startReturn, .pass hheld rfl rfl rfl rfl (by simp)⟩
  | startReturn | write | addCallback =>
    cases hs
    exact ⟨none, .pass hheld rfl rfl rfl rfl (by simp)⟩
  | stopReaderLock =>
    simp only [next] at hs
    split_ifs at hs with hnone
    cases hs
    exact ⟨some .clearReaders, .take rfl (by simp [lock, goto, hfree hnone]) rfl rfl (by simp)
      (by simp)⟩
  | clearReaders =>
    cases hs
    exact ⟨some .clearListeners, .clear hheld .readers rfl (by simp) (by simp) (by simp)⟩
  | clearListeners =>
    cases hs
    exact ⟨some .stopReaderUnlock, .clear hheld .listeners rfl (by simp) (by simp) (by simp)⟩
  | stopReaderUnlock =>
    cases hs
    exact ⟨some .stopWriterLock, .give rfl (by simp [lock, goto]) rfl rfl (by simp)⟩
  | stopWriterLock =>
    simp only [next] at hs
    split_ifs at hs with hnone
    cases hs
    exact ⟨some .clearWriters, .take rfl (by simp [lock, goto, hfree hnone]) rfl rfl (by simp)
      (by simp)⟩
  | clearWriters =>
    cases hs
    exact ⟨some .stopWriterUnlock, .clear hheld .writers rfl (by simp) (by simp) (by simp)⟩
  | stopWriterUnlock =>
    cases hs
    exact ⟨some .stopReturn, .give rfl (by simp [lock, goto]) rfl rfl (by simp)⟩
  | stopReturn =>
    cases hs
    exact ⟨none, rfl, by simp, fun _ ↦ .inl rfl, fun _ ↦ .inl rfl, fun _ ↦ .inr rfl,
      by simp, by simp⟩
  | writerLock topic =>
    simp only [next] at hs
    split_ifs at hs with hnone
    cases hs
    exact ⟨some (.checkWriter topic), .take rfl (by simp [lock, goto, hfree hnone]) rfl rfl
      (by simp) (by simp)⟩
  | checkWriter topic =>
    simp only [next] at hs
    split_ifs at hs with hfound <;> cases hs
    · exact ⟨some (.returnWriter topic), .pass hheld rfl rfl rfl rfl (by simp)⟩
    · exact ⟨some (.writerTopic topic), .miss hheld rfl hfound (by simp [DdsMap.tested])⟩
  | writerTopic topic =>
    simp only [next] at hs
    split_ifs at hs <;> cases hs
    · exact ⟨some .unwindWriter, .pass hheld rfl rfl rfl rfl (by simp)⟩
    · exact ⟨some (.createWriter topic), .pass hheld rfl rfl rfl rfl (by simp)⟩
  | createWriter topic =>
    simp only [next] at hs
    split_ifs at hs <;> cases hs
    · exact ⟨some .unwindWriter, .pass hheld rfl rfl rfl rfl (by simp)⟩
    · exact ⟨some (.storeWriter topic), .pass hheld rfl rfl rfl rfl (by simp)⟩
  | storeWriter topic =>
    cases hs
    exact ⟨some (.returnWriter topic), .store hheld .writers topic rfl (by simp) (by simp)
      (by simp)⟩
  | returnWriter topic =>
    simp only [next] at hs
    split_ifs at hs <;> cases hs
    · exact ⟨some .write, .give rfl (by simp [lock, goto]) rfl rfl (by simp)⟩
    · exact ⟨some .unwindWriter, .pass hheld rfl rfl rfl rfl (by simp)⟩
  | unwindWriter | unwindReader =>
    cases hs
    exact ⟨none, .give rfl (by simp [lock, leave]) rfl rfl (by simp)⟩
  | readerLock topic =>
    simp only [next] at hs
    split_ifs at hs with hnone
    cases hs
    exact ⟨some (.checkReader topic), .take rfl (by simp [lock, goto, hfree hnone]) rfl rfl
      (by simp) (by simp)⟩
  | checkReader topic =>
    simp only [next] at hs
    split_ifs at hs with hfound <;> cases hs
    · exact ⟨some (.returnListener topic), .pass hheld rfl rfl rfl rfl (by simp)⟩
    · exact ⟨some (.readerTopic topic), .miss hheld rfl hfound (by simp [DdsMap.tested])⟩
  | readerTopic topic =>
    simp only [next] at hs
    split_ifs at hs <;> cases hs
    · exact ⟨some .unwindReader, .pass hheld rfl rfl rfl rfl (by simp)⟩
    · exact ⟨some (.createReader topic), .pass hheld rfl rfl rfl rfl (by simp)⟩
  | createReader topic =>
    simp only [next] at hs
    split_ifs at hs <;> cases hs
    · exact ⟨some .unwindReader, .pass hheld rfl rfl rfl rfl (by simp)⟩
    · exact ⟨some (.storeReader topic), .pass hheld rfl rfl rfl rfl (by simp)⟩
  | storeReader topic =>
    cases hs
    exact ⟨some (.storeListener topic), .store hheld .readers topic rfl (by simp) (by simp)
      (by simp)⟩
  | storeListener topic =>
    cases hs
    exact ⟨some (.returnListener topic), .store hheld .listeners topic rfl (by simp) (by simp)
      (by simp)⟩
  | returnListener topic =>
    simp only [next] at hs
    split_ifs at hs <;> cases hs
    · exact ⟨some .addCallback, .give rfl (by simp [lock, goto]) rfl rfl (by simp)⟩
    · exact ⟨some .unwindReader, .pass hheld rfl rfl rfl rfl (by simp)⟩

omit [DecidableEq τ] [DecidableEq α] in
private theorem Closed.tested (h : s.Closed map) : s.Closed map.tested := by
  refine h.imp_right fun ⟨other, pc', hother, hcleared⟩ ↦ ⟨other, pc', hother, ?_⟩
  cases map with
  | writers | readers => exact hcleared
  | listeners => cases pc' <;> first | rfl | exact hcleared

omit [DecidableEq τ] [DecidableEq α] in
private theorem not_storing_of_cleared (h : pc.cleared map) : ¬ pc.storing map := by
  cases map <;> cases pc <;> first | exact absurd h Bool.false_ne_true | exact Bool.false_ne_true

omit [DecidableEq α] in
/-- After a statement a map is closed only if it was before, or has just been cleared. -/
theorem Moves.closed {call : Option (DdsPc α)} (h : Moves s s' thread pc call)
    (hcall : s.calls thread = some pc) (hclosed : s'.Closed map) :
    s.Closed map ∨ s'.entries map = [] ∧ pc.locks map ∧ ∀ pc' ∈ call, ¬ pc'.storing map := by
  rcases hclosed with hstopped | ⟨other, pc', hother, hcleared⟩
  · refine .inl ((h.stopped hstopped).imp_right fun hpc ↦ ⟨thread, pc, hcall, ?_⟩)
    rw [hpc]
    cases map <;> rfl
  · rw [h.calls] at hother
    by_cases heq : other = thread
    · subst heq
      rw [Function.update_self] at hother
      subst hother
      refine (h.cleared map pc' rfl hcleared).imp (fun hpc ↦ .inr ⟨other, pc, hcall, hpc⟩) ?_
      rintro ⟨hempty, hlocked⟩
      refine ⟨hempty, hlocked, fun pc'' hpc'' ↦ ?_⟩
      cases hpc''
      exact not_storing_of_cleared hcleared
    · rw [Function.update_of_ne heq] at hother
      exact .inl (.inr ⟨other, pc', hother, hcleared⟩)

/-- A statement of a call keeps the invariant if it looks nothing up in vain in a closed map. -/
theorem Inv.next (h : Inv s) (hcall : s.calls thread = some pc)
    (hopen : s.OpenLookup (.next thread raises)) (hs : s.next thread raises pc = some s') :
    Inv s' := by
  obtain ⟨call, hmoves⟩ := exists_moves hs fun map ↦ h.held map thread pc hcall
  -- A call of another thread is where it was.
  have hother : ∀ other pc', s'.calls other = some pc' → other ≠ thread →
      s.calls other = some pc' := by
    intro other pc' hother hne
    rwa [hmoves.calls, Function.update_of_ne hne] at hother
  have hthread : ∀ pc', s'.calls thread = some pc' → pc' ∈ call := by
    intro pc' hpc'
    rwa [hmoves.calls, Function.update_self] at hpc'
  constructor
  case held =>
    intro map other pc' hpc' hlocks
    by_cases heq : other = thread
    · subst heq
      exact hmoves.locks map pc' (hthread pc' hpc') hlocks
    · have hlock := h.held map other pc' (hother other pc' hpc' heq) hlocks
      rcases hmoves.others map with hsame | hnone | hlocked
      · exact hsame.trans hlock
      · rw [hnone] at hlock
        contradiction
      · exact absurd (h.eq_of_locks hcall (hother other pc' hpc' heq) hlocked hlocks) heq
  case empty =>
    intro map hclosed
    rcases hmoves.closed hcall hclosed with hbefore | ⟨hempty, -⟩
    · rcases hmoves.entries map with hsame | hempty | hstoring
      · exact hsame.trans (h.empty map hbefore)
      · exact hempty
      · exact absurd hstoring (h.idle map hbefore thread pc hcall)
    · exact hempty
  case idle =>
    intro map hclosed other pc' hpc' hstoring
    rcases hmoves.closed hcall hclosed with hbefore | ⟨-, hlocked, hnot⟩
    · by_cases heq : other = thread
      · subst heq
        rcases hmoves.storing map pc' (hthread pc' hpc') hstoring with hpc | ⟨topic, htest, hmissing⟩
        · exact h.idle map hbefore other pc hcall hpc
        · exact hopen pc hcall (map.tested, topic) htest hmissing hbefore.tested
      · exact h.idle map hbefore other pc' (hother other pc' hpc' heq) hstoring
    · by_cases heq : other = thread
      · subst heq
        exact hnot pc' (hthread pc' hpc') hstoring
      · exact heq (h.eq_of_locks hcall (hother other pc' hpc' heq) hlocked
          (locks_of_storing hstoring))

omit [DecidableEq α] in
/-- A new call keeps the invariant: its first statement is outside the `with` blocks. -/
theorem Inv.call (h : Inv s) (method : DdsMethod α) {stopped : Bool}
    (hstopped : stopped = true → s.stopped = true) :
    Inv { s.goto thread method.first with stopped } := by
  have hfirst : ∀ map, ¬ method.first.locks map ∧ ¬ method.first.storing map ∧
      ¬ method.first.cleared map := by
    intro map
    cases map <;> cases method <;>
      exact ⟨Bool.false_ne_true, Bool.false_ne_true, Bool.false_ne_true⟩
  have hbefore : ∀ other pc, (s.goto thread method.first).calls other = some pc →
      pc = method.first ∨ s.calls other = some pc := by
    intro other pc hcall
    simp only [goto, Function.update_apply] at hcall
    split at hcall
    · exact .inl (Option.some.inj hcall).symm
    · exact .inr hcall
  have hclosed : ∀ map, { s.goto thread method.first with stopped }.Closed map → s.Closed map := by
    rintro map (hs | ⟨other, pc, hcall, hcleared⟩)
    · exact .inl (hstopped hs)
    · rcases hbefore other pc hcall with rfl | hcall
      · exact absurd hcleared (hfirst map).2.2
      · exact .inr ⟨other, pc, hcall, hcleared⟩
  constructor
  case held =>
    intro map other pc hcall hlocks
    rcases hbefore other pc hcall with rfl | hcall
    · exact absurd hlocks (hfirst map).1
    · cases map <;> exact h.held _ other pc hcall hlocks
  case empty => exact fun map hs ↦ h.empty map (hclosed map hs)
  case idle =>
    intro map hs other pc hcall hstoring
    rcases hbefore other pc hcall with rfl | hcall
    · exact (hfirst map).2.1 hstoring
    · exact h.idle map (hclosed map hs) other pc hcall hstoring

/-- Every step keeps the invariant if it looks nothing up in vain in a closed map. -/
theorem inv_step (s : DdsObject τ α) (a : DdsObjectAction τ α) (s' : DdsObject τ α) (h : Inv s)
    (hopen : s.OpenLookup a) (hs : step s a = some s') : Inv s' := by
  cases a with
  | call thread method =>
    simp only [step] at hs
    split at hs
    · cases hs
      exact h.call method (by cases method <;> simp)
    · contradiction
  | next thread raises =>
    obtain ⟨pc, hcall, hnext⟩ := Option.bind_eq_some_iff.mp hs
    exact h.next hcall hopen hnext
  | participate =>
    cases hs
    exact ⟨h.held, h.empty, h.idle⟩

/-- A stopped object holds no entities in every run in which no publish or subscribe that needs a new
entity looks its topic up while the object is stopped, or while a `stop` is between clearing the map
and its return. -/
theorem stopped_empty_of_openLookup {actions : List (DdsObjectAction τ α)}
    (hok : AllSteps step OpenLookup ({} : DdsObject τ α) actions) :
    AllStates step Empty ({} : DdsObject τ α) actions :=
  hok.allStates inv_new inv_step fun _ h hstopped map ↦ h.empty map (.inl hstopped)

/-- One thread starts the object; while another one makes a reader, it makes a writer and stops the
object, which waits for the reader. After the next start it makes the writer anew. -/
private def restarted : List (DdsObjectAction Bool String) :=
  [.call true .start] ++ List.replicate 2 (.next true false) ++
    [.call false (.subscribe "ping")] ++ List.replicate 3 (.next false false) ++
    [.call true (.publish "ping")] ++ List.replicate 7 (.next true false) ++ [.call true .stop] ++
    List.replicate 5 (.next false false) ++ List.replicate 8 (.next true false) ++
    [.call true .start] ++ List.replicate 2 (.next true false) ++
    [.call true (.publish "ping")] ++ List.replicate 7 (.next true false)

/-- `stopped_empty_of_openLookup` where a subscribe is in flight while `stop` runs. -/
theorem stopped_empty_of_openLookup_restarted :
    AllStates step Empty ({} : DdsObject Bool String) restarted ∧
      ∃ s, run step ({} : DdsObject Bool String) restarted = some s ∧
        s.entries .writers = ["ping"] ∧ s.entries .readers = [] := by
  exact ⟨stopped_empty_of_openLookup (by decide +kernel), _, rfl, rfl, rfl⟩

/-- A publish after `stop` makes a writer, since the participant is still there. -/
theorem publish_after_stop_stores_writer :
    ¬ ∀ actions, AllStates step Empty ({} : DdsObject Unit String) actions := by
  intro h
  have hempty := h ([.call () .start] ++ List.replicate 2 (.next () false) ++
    [.call () .stop] ++ List.replicate 8 (.next () false) ++
    [.call () (.publish "ping")] ++ List.replicate 5 (.next () false)) _ _
    (List.prefix_refl _) rfl rfl .writers
  contradiction

end DdsObject

end HzjDds.PubSub
