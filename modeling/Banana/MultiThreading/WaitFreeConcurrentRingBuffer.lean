import Banana.Library.CyclicIndex
import Banana.Library.Transition

/-!
# WaitFreeConcurrentRingBuffer

The single-producer single-consumer ring of
`multi-threading/WaitFreeConcurrentRingBuffer.h`, one load, slot access or
store a step.  An atomic index is the list of the values stored to it, its
modification order.  A thread loads its own index as it stored it last; a load
of the other index may return any value from the one this thread loaded last
on.

The invariant speaks about unbounded positions, whose slots are the positions
modulo `size_`: the producer's view of the tail is at most the tail, the tail
at most the consumer's view of the head, that at most the head, and the head
less than a round ahead of the producer's view of the tail.
-/

namespace Banana.WaitFreeConcurrentRingBuffer

variable {T : Type*}

/-- `buff_`, and the modification orders of `head_` and `tail_`, oldest value
first. -/
structure Memory (T : Type*) where
  size : ℕ
  buff : ℕ → T
  headValues : List ℕ
  tailValues : List ℕ

/-- Where the producer is in `asyncPut`: before the load of `tail_`, before
the write of the slot, before the store of `head_`. -/
inductive ProducerPc (T : Type*)
  | idle
  | atLoadTail (obj : T) (head : ℕ)
  | atWrite (obj : T) (head : ℕ)
  | atStoreHead (obj : T) (head : ℕ)

inductive ConsumerPc (T : Type*)
  | idle
  | atLoadHead (tail : ℕ)
  | atRead (tail : ℕ)
  | atStoreTail (tail : ℕ) (obj : T)

/-- A view is the place in the modification order of the other thread's index
that this thread loaded last.  The logs list the calls that have returned. -/
structure State (T : Type*) where
  memory : Memory T
  producer : ProducerPc T
  consumer : ConsumerPc T
  tailView : ℕ
  headView : ℕ
  putCalls : List (T × Bool)
  getCalls : List (Option T)

inductive Action (T : Type*)
  | asyncPut (obj : T)
  | loadTail (view : ℕ)
  | write
  | storeHead
  | asyncGet
  | loadHead (view : ℕ)
  | read
  | storeTail

def start (size : ℕ) (buff : ℕ → T) : State T where
  memory := ⟨size, buff, [0], [0]⟩
  producer := .idle
  consumer := .idle
  tailView := 0
  headView := 0
  putCalls := []
  getCalls := []

def Memory.next (m : Memory T) (index : ℕ) : ℕ := (index + 1) % m.size

/-- A call begins with the load of the thread's own index. -/
def step (s : State T) : Action T → Option (State T)
  | .asyncPut obj =>
      match s.producer, s.memory.headValues.getLast? with
      | .idle, some head => some { s with producer := .atLoadTail obj head }
      | _, _ => none
  | .loadTail view =>
      match s.producer, s.memory.tailValues[view]? with
      | .atLoadTail obj head, some tail =>
          if s.tailView ≤ view then
            if s.memory.next head = tail then
              some { s with
                producer := .idle, tailView := view, putCalls := s.putCalls ++ [(obj, false)] }
            else some { s with producer := .atWrite obj head, tailView := view }
          else none
      | _, _ => none
  | .write =>
      match s.producer with
      | .atWrite obj head =>
          some { s with
            memory.buff := Function.update s.memory.buff head obj
            producer := .atStoreHead obj head }
      | _ => none
  | .storeHead =>
      match s.producer with
      | .atStoreHead obj head =>
          some { s with
            memory.headValues := s.memory.headValues ++ [s.memory.next head]
            producer := .idle
            putCalls := s.putCalls ++ [(obj, true)] }
      | _ => none
  | .asyncGet =>
      match s.consumer, s.memory.tailValues.getLast? with
      | .idle, some tail => some { s with consumer := .atLoadHead tail }
      | _, _ => none
  | .loadHead view =>
      match s.consumer, s.memory.headValues[view]? with
      | .atLoadHead tail, some head =>
          if s.headView ≤ view then
            if tail = head then
              some { s with
                consumer := .idle, headView := view, getCalls := s.getCalls ++ [none] }
            else some { s with consumer := .atRead tail, headView := view }
          else none
      | _, _ => none
  | .read =>
      match s.consumer with
      | .atRead tail => some { s with consumer := .atStoreTail tail (s.memory.buff tail) }
      | _ => none
  | .storeTail =>
      match s.consumer with
      | .atStoreTail tail obj =>
          some { s with
            memory.tailValues := s.memory.tailValues ++ [s.memory.next tail]
            consumer := .idle
            getCalls := s.getCalls ++ [some obj] }
      | _ => none

inductive Moves (s : State T) : Action T → State T → Prop
  | asyncPut (obj : T) (head : ℕ) (hidle : s.producer = .idle)
      (hhead : s.memory.headValues.getLast? = some head) :
      Moves s (.asyncPut obj) { s with producer := .atLoadTail obj head }
  | putFull (view tail : ℕ) (obj : T) (head : ℕ) (hat : s.producer = .atLoadTail obj head)
      (htail : s.memory.tailValues[view]? = some tail) (hview : s.tailView ≤ view)
      (hfull : s.memory.next head = tail) :
      Moves s (.loadTail view)
        { s with producer := .idle, tailView := view, putCalls := s.putCalls ++ [(obj, false)] }
  | putRoom (view tail : ℕ) (obj : T) (head : ℕ) (hat : s.producer = .atLoadTail obj head)
      (htail : s.memory.tailValues[view]? = some tail) (hview : s.tailView ≤ view)
      (hroom : s.memory.next head ≠ tail) :
      Moves s (.loadTail view) { s with producer := .atWrite obj head, tailView := view }
  | write (obj : T) (head : ℕ) (hat : s.producer = .atWrite obj head) :
      Moves s .write
        { s with
          memory.buff := Function.update s.memory.buff head obj
          producer := .atStoreHead obj head }
  | storeHead (obj : T) (head : ℕ) (hat : s.producer = .atStoreHead obj head) :
      Moves s .storeHead
        { s with
          memory.headValues := s.memory.headValues ++ [s.memory.next head]
          producer := .idle
          putCalls := s.putCalls ++ [(obj, true)] }
  | asyncGet (tail : ℕ) (hidle : s.consumer = .idle)
      (htail : s.memory.tailValues.getLast? = some tail) :
      Moves s .asyncGet { s with consumer := .atLoadHead tail }
  | getEmpty (view head tail : ℕ) (hat : s.consumer = .atLoadHead tail)
      (hhead : s.memory.headValues[view]? = some head) (hview : s.headView ≤ view)
      (hempty : tail = head) :
      Moves s (.loadHead view)
        { s with consumer := .idle, headView := view, getCalls := s.getCalls ++ [none] }
  | getSome (view head tail : ℕ) (hat : s.consumer = .atLoadHead tail)
      (hhead : s.memory.headValues[view]? = some head) (hview : s.headView ≤ view)
      (hsome : tail ≠ head) :
      Moves s (.loadHead view) { s with consumer := .atRead tail, headView := view }
  | read (tail : ℕ) (hat : s.consumer = .atRead tail) :
      Moves s .read { s with consumer := .atStoreTail tail (s.memory.buff tail) }
  | storeTail (tail : ℕ) (obj : T) (hat : s.consumer = .atStoreTail tail obj) :
      Moves s .storeTail
        { s with
          memory.tailValues := s.memory.tailValues ++ [s.memory.next tail]
          consumer := .idle
          getCalls := s.getCalls ++ [some obj] }

theorem moves_of_step {s u : State T} {a : Action T} (h : step s a = some u) : Moves s a u := by
  cases a with
  | asyncPut obj =>
      cases hpc : s.producer <;> cases hlast : s.memory.headValues.getLast? <;>
        simp only [step, hpc, hlast, reduceCtorEq, Option.some.injEq] at h
      exact h ▸ .asyncPut obj _ hpc hlast
  | loadTail view =>
      cases hpc : s.producer <;> cases htail : s.memory.tailValues[view]? <;>
        simp only [step, hpc, htail, reduceCtorEq] at h
      split_ifs at h with hview hfull
      · exact Option.some.inj h ▸ .putFull view _ _ _ hpc htail hview hfull
      · exact Option.some.inj h ▸ .putRoom view _ _ _ hpc htail hview hfull
  | write =>
      cases hpc : s.producer <;> simp only [step, hpc, reduceCtorEq, Option.some.injEq] at h
      exact h ▸ .write _ _ hpc
  | storeHead =>
      cases hpc : s.producer <;> simp only [step, hpc, reduceCtorEq, Option.some.injEq] at h
      exact h ▸ .storeHead _ _ hpc
  | asyncGet =>
      cases hpc : s.consumer <;> cases hlast : s.memory.tailValues.getLast? <;>
        simp only [step, hpc, hlast, reduceCtorEq, Option.some.injEq] at h
      exact h ▸ .asyncGet _ hpc hlast
  | loadHead view =>
      cases hpc : s.consumer <;> cases hhead : s.memory.headValues[view]? <;>
        simp only [step, hpc, hhead, reduceCtorEq] at h
      split_ifs at h with hview hempty
      · exact Option.some.inj h ▸ .getEmpty view _ _ hpc hhead hview hempty
      · exact Option.some.inj h ▸ .getSome view _ _ hpc hhead hview hempty
  | read =>
      cases hpc : s.consumer <;> simp only [step, hpc, reduceCtorEq, Option.some.injEq] at h
      exact h ▸ .read _ hpc
  | storeTail =>
      cases hpc : s.consumer <;> simp only [step, hpc, reduceCtorEq, Option.some.injEq] at h
      exact h ▸ .storeTail _ _ hpc

/-- The values of the puts that returned true. -/
def storedValues (calls : List (T × Bool)) : List T :=
  calls.filterMap fun call => if call.2 then some call.1 else none

def handedOutValues (calls : List (Option T)) : List T := calls.filterMap id

theorem storedValues_snoc_false (calls : List (T × Bool)) (obj : T) :
    storedValues (calls ++ [(obj, false)]) = storedValues calls := by
  simp [storedValues]

theorem storedValues_snoc_true (calls : List (T × Bool)) (obj : T) :
    storedValues (calls ++ [(obj, true)]) = storedValues calls ++ [obj] := by
  simp [storedValues]

theorem handedOutValues_snoc_none (calls : List (Option T)) :
    handedOutValues (calls ++ [none]) = handedOutValues calls := by
  simp [handedOutValues]

theorem handedOutValues_snoc_some (calls : List (Option T)) (obj : T) :
    handedOutValues (calls ++ [some obj]) = handedOutValues calls ++ [obj] := by
  simp [handedOutValues]

/-! ## Positions -/

/-- What the producer knows at each place, the head being at position `h`. -/
def ProducerKnows (size h tailView : ℕ) (buff : ℕ → T) : ProducerPc T → Prop
  | .idle => True
  | .atLoadTail _ head => head = h % size
  | .atWrite _ head => head = h % size ∧ h + 1 < tailView + size
  | .atStoreHead obj head => head = h % size ∧ h + 1 < tailView + size ∧ buff head = obj

def ConsumerKnows (size t headView : ℕ) (stored : List T) : ConsumerPc T → Prop
  | .idle => True
  | .atLoadHead tail => tail = t % size
  | .atRead tail => tail = t % size ∧ t < headView
  | .atStoreTail tail obj => tail = t % size ∧ t < headView ∧ stored[t]? = some obj

theorem ConsumerKnows.snoc {size t headView : ℕ} {stored : List T} {pc : ConsumerPc T}
    (h : ConsumerKnows size t headView stored pc) (hview : headView ≤ stored.length) (obj : T) :
    ConsumerKnows size t headView (stored ++ [obj]) pc := by
  cases pc with
  | idle => trivial
  | atLoadHead tail => exact h
  | atRead tail => exact h
  | atStoreTail tail obj' =>
      obtain ⟨htail, hlt, hobj⟩ := h
      refine ⟨htail, hlt, ?_⟩
      rwa [List.getElem?_append_left (by omega)]

structure Inv (size : ℕ) (stored handedOut : List T) (s : State T) : Prop where
  size_eq : s.memory.size = size
  headValues : s.memory.headValues = CyclicIndex.trail size stored.length
  tailValues : s.memory.tailValues = CyclicIndex.trail size handedOut.length
  fifo : handedOut = stored.take handedOut.length
  tailView_le : s.tailView ≤ handedOut.length
  le_headView : handedOut.length ≤ s.headView
  headView_le : s.headView ≤ stored.length
  round : stored.length + 1 ≤ s.tailView + size
  slots : ∀ i, handedOut.length ≤ i → i < stored.length →
    stored[i]? = some (s.memory.buff (i % size))
  producer : ProducerKnows size stored.length s.tailView s.memory.buff s.producer
  consumer : ConsumerKnows size handedOut.length s.headView stored s.consumer

theorem inv_start {size : ℕ} (hsize : 1 ≤ size) (buff : ℕ → T) :
    Inv size [] [] (start size buff) where
  size_eq := rfl
  headValues := by simp [start, CyclicIndex.trail]
  tailValues := by simp [start, CyclicIndex.trail]
  fifo := rfl
  tailView_le := Nat.le_refl 0
  le_headView := Nat.le_refl 0
  headView_le := Nat.le_refl 0
  round := by
    change 0 + 1 ≤ 0 + size
    omega
  slots := fun i _ hi => absurd hi (Nat.not_lt_zero i)
  producer := trivial
  consumer := trivial

section Steps

variable {size : ℕ} {stored handedOut : List T} {s : State T} {obj : T} {head tail : ℕ}

/-- The slot behind the published ones is not one that the consumer may read. -/
theorem Inv.write (hs : Inv size stored handedOut s) (hat : s.producer = .atWrite obj head) :
    Inv size stored handedOut
      { s with
        memory.buff := Function.update s.memory.buff head obj
        producer := .atStoreHead obj head } := by
  have hproducer := hs.producer
  rw [hat] at hproducer
  obtain ⟨rfl, hfree⟩ := hproducer
  have hlag := hs.tailView_le
  refine { hs with slots := ?_, producer := ⟨rfl, hfree, Function.update_self _ _ _⟩ }
  intro i hti hih
  have hne : i % size ≠ stored.length % size := CyclicIndex.mod_ne_mod hih (by omega)
  change stored[i]? = some (Function.update s.memory.buff _ obj _)
  rw [Function.update_of_ne hne]
  exact hs.slots i hti hih

/-- The store of the index publishes the slot. -/
theorem Inv.storeHead (hs : Inv size stored handedOut s)
    (hat : s.producer = .atStoreHead obj head) :
    Inv size (stored ++ [obj]) handedOut
      { s with
        memory.headValues := s.memory.headValues ++ [s.memory.next head]
        producer := .idle
        putCalls := s.putCalls ++ [(obj, true)] } := by
  have hproducer := hs.producer
  rw [hat] at hproducer
  obtain ⟨rfl, hfree, hwritten⟩ := hproducer
  have hle := hs.le_headView
  have hview := hs.headView_le
  have hlen : (stored ++ [obj]).length = stored.length + 1 := List.length_append
  refine { hs with
    headValues := ?_, fifo := ?_, headView_le := ?_, round := ?_, slots := ?_,
    producer := trivial, consumer := hs.consumer.snoc hview obj }
  · change s.memory.headValues ++ [s.memory.next _] = _
    rw [hlen, CyclicIndex.trail_succ, hs.headValues, Memory.next, hs.size_eq, Nat.mod_add_mod]
  · rw [List.take_append_of_le_length (by omega)]
    exact hs.fifo
  · change s.headView ≤ (stored ++ [obj]).length
    omega
  · change (stored ++ [obj]).length + 1 ≤ s.tailView + size
    omega
  · intro i hti hih
    rw [hlen] at hih
    rcases Nat.lt_succ_iff_lt_or_eq.mp hih with hlt | rfl
    · rw [List.getElem?_append_left hlt]
      exact hs.slots i hti hlt
    · rw [List.getElem?_concat_length, ← hwritten]

/-- The store of the index gives the slot back. -/
theorem Inv.storeTail (hs : Inv size stored handedOut s)
    (hat : s.consumer = .atStoreTail tail obj) :
    Inv size stored (handedOut ++ [obj])
      { s with
        memory.tailValues := s.memory.tailValues ++ [s.memory.next tail]
        consumer := .idle
        getCalls := s.getCalls ++ [some obj] } := by
  have hconsumer := hs.consumer
  rw [hat] at hconsumer
  obtain ⟨rfl, hlt, hobj⟩ := hconsumer
  have hlag := hs.tailView_le
  have hlen : (handedOut ++ [obj]).length = handedOut.length + 1 := List.length_append
  refine { hs with
    tailValues := ?_, fifo := ?_, tailView_le := ?_, le_headView := ?_, slots := ?_,
    consumer := trivial }
  · change s.memory.tailValues ++ [s.memory.next _] = _
    rw [hlen, CyclicIndex.trail_succ, hs.tailValues, Memory.next, hs.size_eq, Nat.mod_add_mod]
  · rw [hlen, List.take_add_one, hobj, ← hs.fifo]
    rfl
  · change s.tailView ≤ (handedOut ++ [obj]).length
    omega
  · change (handedOut ++ [obj]).length ≤ s.headView
    omega
  · intro i hti hih
    exact hs.slots i (by omega) hih

end Steps

theorem Inv.step {size : ℕ} {s u : State T} {a : Action T}
    (hs : Inv size (storedValues s.putCalls) (handedOutValues s.getCalls) s)
    (h : WaitFreeConcurrentRingBuffer.step s a = some u) :
    Inv size (storedValues u.putCalls) (handedOutValues u.getCalls) u := by
  have hproducer := hs.producer
  have hconsumer := hs.consumer
  have hlag := hs.tailView_le
  cases moves_of_step h with
  | asyncPut obj head hidle hhead =>
      rw [hs.headValues, CyclicIndex.getLast?_trail] at hhead
      exact { hs with producer := (Option.some.inj hhead).symm }
  | putFull view tail obj head hat htail hnewer hfull =>
      have hround := hs.round
      rw [hs.tailValues] at htail
      obtain ⟨hle, -⟩ := CyclicIndex.getElem?_trail htail
      rw [storedValues_snoc_false]
      refine { hs with tailView_le := hle, round := ?_, producer := trivial }
      change (storedValues s.putCalls).length + 1 ≤ view + size
      omega
  | putRoom view tail obj head hat htail hnewer hroom =>
      have hround := hs.round
      rw [hs.tailValues] at htail
      obtain ⟨hle, rfl⟩ := CyclicIndex.getElem?_trail htail
      rw [hat] at hproducer
      obtain rfl := hproducer
      have hnotFull : (storedValues s.putCalls).length + 1 ≠ view + size := by
        intro heq
        apply hroom
        rw [Memory.next, hs.size_eq, Nat.mod_add_mod, heq, Nat.add_mod_right]
      refine { hs with tailView_le := hle, round := ?_, producer := ⟨rfl, ?_⟩ }
      · change (storedValues s.putCalls).length + 1 ≤ view + size
        omega
      · change (storedValues s.putCalls).length + 1 < view + size
        omega
  | write obj head hat => exact hs.write hat
  | storeHead obj head hat =>
      rw [storedValues_snoc_true]
      exact hs.storeHead hat
  | asyncGet tail hidle htail =>
      rw [hs.tailValues, CyclicIndex.getLast?_trail] at htail
      exact { hs with consumer := (Option.some.inj htail).symm }
  | getEmpty view head tail hat hhead hnewer hempty =>
      have hle := hs.le_headView
      rw [hs.headValues] at hhead
      obtain ⟨hview, -⟩ := CyclicIndex.getElem?_trail hhead
      rw [handedOutValues_snoc_none]
      exact { hs with
        le_headView := hle.trans hnewer, headView_le := hview, consumer := trivial }
  | getSome view head tail hat hhead hnewer hsome =>
      have hle := hs.le_headView
      rw [hs.headValues] at hhead
      obtain ⟨hview, rfl⟩ := CyclicIndex.getElem?_trail hhead
      rw [hat] at hconsumer
      obtain rfl := hconsumer
      have hbehind : (handedOutValues s.getCalls).length ≤ view := hle.trans hnewer
      have hne : (handedOutValues s.getCalls).length ≠ view := fun heq => hsome (by rw [heq])
      exact { hs with
        le_headView := hbehind, headView_le := hview
        consumer := ⟨rfl, Nat.lt_of_le_of_ne hbehind hne⟩ }
  | read tail hat =>
      rw [hat] at hconsumer
      obtain ⟨rfl, hlt⟩ := hconsumer
      have hpublished := hlt.trans_le hs.headView_le
      exact { hs with consumer := ⟨rfl, hlt, hs.slots _ (Nat.le_refl _) hpublished⟩ }
  | storeTail tail obj hat =>
      rw [handedOutValues_snoc_some]
      exact hs.storeTail hat

/-! ## One side of the ring -/

/-- The argument of the `asyncPut` under way. -/
def ProducerPc.obj : ProducerPc T → Option T
  | idle => none
  | atLoadTail obj _ => some obj
  | atWrite obj _ => some obj
  | atStoreHead obj _ => some obj

/-- The steps of an `asyncPut` behind its first one. -/
def Action.isPut : Action T → Bool
  | loadTail _ | write | storeHead => true
  | _ => false

def Action.isGet : Action T → Bool
  | asyncGet | loadHead _ | read | storeTail => true
  | _ => false

/-- What a step of an `asyncPut` does to the call. -/
inductive PutStep (s u : State T) : Prop
  | goesOn (hobj : u.producer.obj = s.producer.obj) (hcalls : u.putCalls = s.putCalls)
  | refuses (obj : T) (head : ℕ) (hat : s.producer = .atLoadTail obj head)
      (hidle : u.producer = .idle) (hcalls : u.putCalls = s.putCalls ++ [(obj, false)])
      (hmemory : u.memory = s.memory)
  | stores (obj : T) (hobj : s.producer.obj = some obj) (hidle : u.producer = .idle)
      (hcalls : u.putCalls = s.putCalls ++ [(obj, true)])

/-- The consumer's side stays as it is. -/
structure SameConsumer (s u : State T) : Prop where
  consumer : u.consumer = s.consumer
  headView : u.headView = s.headView
  getCalls : u.getCalls = s.getCalls

theorem putStep {s u : State T} {a : Action T} (h : step s a = some u) (ha : a.isPut = true) :
    PutStep s u ∧ SameConsumer s u := by
  cases moves_of_step h with
  | putFull view tail obj head hat => exact ⟨.refuses obj head hat rfl rfl rfl, rfl, rfl, rfl⟩
  | putRoom view tail obj head hat => exact ⟨.goesOn (by rw [hat]; rfl) rfl, rfl, rfl, rfl⟩
  | write obj head hat => exact ⟨.goesOn (by rw [hat]; rfl) rfl, rfl, rfl, rfl⟩
  | storeHead obj head hat => exact ⟨.stores obj (by rw [hat]; rfl) rfl rfl, rfl, rfl, rfl⟩
  | _ => exact Bool.noConfusion ha

inductive GetStep (s u : State T) : Prop
  | goesOn (hbusy : u.consumer ≠ .idle) (hcalls : u.getCalls = s.getCalls)
  | fails (view head : ℕ) (hat : s.consumer = .atLoadHead head)
      (hhead : s.memory.headValues[view]? = some head) (hview : s.headView ≤ view)
  | returns (obj : T) (hidle : u.consumer = .idle) (hcalls : u.getCalls = s.getCalls ++ [some obj])

structure SameProducer (s u : State T) : Prop where
  producer : u.producer = s.producer
  putCalls : u.putCalls = s.putCalls
  headView_le : s.headView ≤ u.headView

theorem getStep {s u : State T} {a : Action T} (h : step s a = some u) (ha : a.isGet = true) :
    GetStep s u ∧ SameProducer s u := by
  cases moves_of_step h with
  | asyncGet tail => exact ⟨.goesOn nofun rfl, rfl, rfl, Nat.le_refl _⟩
  | getEmpty view head tail hat hhead hview hempty =>
      exact ⟨.fails view head (hempty ▸ hat) hhead hview, rfl, rfl, hview⟩
  | getSome view head tail hat hhead hview => exact ⟨.goesOn nofun rfl, rfl, rfl, hview⟩
  | read tail hat => exact ⟨.goesOn nofun rfl, rfl, rfl, Nat.le_refl _⟩
  | storeTail tail obj hat => exact ⟨.returns obj rfl rfl, rfl, rfl, Nat.le_refl _⟩
  | _ => exact Bool.noConfusion ha

/-- A consumer that has seen one more value of `head_` than it took values does not find
the ring empty. -/
theorem Inv.head_ne {size : ℕ} {stored handedOut : List T} {s : State T}
    (hs : Inv size stored handedOut s) (hbehind : handedOut.length < s.headView) {view tail : ℕ}
    (hat : s.consumer = .atLoadHead tail) (hhead : s.memory.headValues[view]? = some tail)
    (hview : s.headView ≤ view) : False := by
  have hconsumer := hs.consumer
  have hround := hs.round
  have hlag := hs.tailView_le
  rw [hat] at hconsumer
  rw [hs.headValues] at hhead
  obtain ⟨hle, hmod⟩ := CyclicIndex.getElem?_trail hhead
  exact CyclicIndex.mod_ne_mod (by omega) (by omega) (hconsumer.symm.trans hmod)

/-- A thread may learn of more values than it has loaded. -/
theorem Inv.raise_headView {size : ℕ} {stored handedOut : List T} {s : State T}
    (hs : Inv size stored handedOut s) (hidle : s.consumer = .idle) {view : ℕ}
    (hview : view ≤ stored.length) :
    Inv size stored handedOut { s with headView := max s.headView view } := by
  have hle := hs.le_headView
  have hbound := hs.headView_le
  refine { hs with le_headView := ?_, headView_le := ?_, consumer := ?_ }
  · change handedOut.length ≤ max s.headView view
    omega
  · change max s.headView view ≤ stored.length
    omega
  · change ConsumerKnows size handedOut.length _ stored s.consumer
    rw [hidle]
    trivial

/-! ## The ring as a queue -/

/-- The loads a call makes before it knows whether it goes through. -/
def Action.isLoad : Action T → Bool
  | .asyncPut _ | .loadTail _ | .asyncGet | .loadHead _ => true
  | _ => false

theorem memory_eq_of_isLoad {s u : State T} {a : Action T} (h : step s a = some u)
    (hload : a.isLoad = true) : u.memory = s.memory := by
  cases moves_of_step h with
  | write => exact Bool.noConfusion hload
  | storeHead => exact Bool.noConfusion hload
  | storeTail => exact Bool.noConfusion hload
  | _ => rfl

theorem loads_of_put_refused {s u : State T} {a : Action T} {obj : T} (h : step s a = some u)
    (hcall : u.putCalls = s.putCalls ++ [(obj, false)]) :
    ∃ head view, s.producer = .atLoadTail obj head ∧ a = .loadTail view := by
  cases moves_of_step h with
  | putFull view tail obj' head hat =>
      obtain rfl : obj' = obj := by simpa using hcall
      exact ⟨head, view, hat, rfl⟩
  | storeHead => simp at hcall
  | _ => exact absurd hcall (by simp)

theorem loads_of_get_refused {s u : State T} {a : Action T} (h : step s a = some u)
    (hcall : u.getCalls = s.getCalls ++ [none]) :
    ∃ tail view, s.consumer = .atLoadHead tail ∧ a = .loadHead view := by
  cases moves_of_step h with
  | getEmpty view head tail hat => exact ⟨tail, view, hat, rfl⟩
  | storeTail => simp at hcall
  | _ => exact absurd hcall (by simp)

/-- The slots that hold a value no get has returned: the published ones, and
one more when the producer has written but not yet stored its index. -/
def unread (s : State T) : ℕ :=
  (storedValues s.putCalls).length - (handedOutValues s.getCalls).length +
    match s.producer with
    | .atStoreHead _ _ => 1
    | _ => 0

theorem Inv.unread_le {size : ℕ} {s : State T}
    (hs : Inv size (storedValues s.putCalls) (handedOutValues s.getCalls) s) :
    unread s ≤ size - 1 := by
  have hproducer := hs.producer
  have hround := hs.round
  have hlag := hs.tailView_le
  have hle := hs.le_headView.trans hs.headView_le
  unfold unread
  cases hpc : s.producer with
  | atStoreHead obj head =>
      rw [hpc] at hproducer
      have hfree := hproducer.2.1
      change _ + 1 ≤ size - 1
      omega
  | _ =>
      change _ + 0 ≤ size - 1
      omega

/-- The ring is a FIFO queue of `size - 1` elements for one producer and one
consumer, whatever values within their rights the loads return; the two never
meet in a slot. -/
theorem spsc_fifo {size : ℕ} (hsize : 2 ≤ size) (buff : ℕ → T) {as : List (Action T)}
    {s : State T} (hrun : Transition.run step (start size buff) as = some s) :
    handedOutValues s.getCalls <+: storedValues s.putCalls ∧
      unread s ≤ size - 1 ∧
      (∀ obj head, s.producer = .atWrite obj head →
        (∀ i, (handedOutValues s.getCalls).length ≤ i → i < (storedValues s.putCalls).length →
          i % size ≠ head) ∧
        (∀ tail, s.consumer = .atRead tail → tail ≠ head)) ∧
      (∀ i, (handedOutValues s.getCalls).length ≤ i → i < (storedValues s.putCalls).length →
        (storedValues s.putCalls)[i]? = some (s.memory.buff (i % size))) ∧
      (∀ tail, s.consumer = .atRead tail →
        tail = (handedOutValues s.getCalls).length % size ∧
        (handedOutValues s.getCalls).length < (storedValues s.putCalls).length) ∧
      (∀ a u, step s a = some u →
        (a.isLoad = true → u.memory = s.memory) ∧
        (∀ obj, u.putCalls = s.putCalls ++ [(obj, false)] →
          ∃ head view, s.producer = .atLoadTail obj head ∧ a = .loadTail view) ∧
        (u.getCalls = s.getCalls ++ [none] →
          ∃ tail view, s.consumer = .atLoadHead tail ∧ a = .loadHead view)) := by
  have hstart : Inv size (storedValues (start size buff).putCalls)
      (handedOutValues (start size buff).getCalls) (start size buff) := inv_start (by omega) buff
  have hs : Inv size (storedValues s.putCalls) (handedOutValues s.getCalls) s :=
    Transition.run_invariant
      (I := fun v => Inv size (storedValues v.putCalls) (handedOutValues v.getCalls) v)
      (fun _ _ _ hv h => hv.step h) hstart hrun
  have hround := hs.round
  have hlag := hs.tailView_le
  have hpublished : ∀ tail, s.consumer = .atRead tail →
      tail = (handedOutValues s.getCalls).length % size ∧
      (handedOutValues s.getCalls).length < (storedValues s.putCalls).length := by
    intro tail hat
    have hconsumer := hs.consumer
    rw [hat] at hconsumer
    exact ⟨hconsumer.1, Nat.lt_of_lt_of_le hconsumer.2 hs.headView_le⟩
  refine ⟨?_, hs.unread_le, ?_, hs.slots, hpublished, ?_⟩
  · rw [hs.fifo]
    exact List.take_prefix _ _
  · intro obj head hat
    have hproducer := hs.producer
    rw [hat] at hproducer
    obtain ⟨rfl, hfree⟩ := hproducer
    have hfar : ∀ i, (handedOutValues s.getCalls).length ≤ i →
        i < (storedValues s.putCalls).length → i % size ≠ (storedValues s.putCalls).length % size :=
      fun i hti hih => CyclicIndex.mod_ne_mod hih (by omega)
    refine ⟨hfar, ?_⟩
    intro tail hread
    obtain ⟨rfl, hlt⟩ := hpublished tail hread
    exact hfar _ (Nat.le_refl _) hlt
  · intro a u h
    exact ⟨memory_eq_of_isLoad h, fun obj => loads_of_put_refused h, loads_of_get_refused h⟩

/-- On two slots: a put goes through, a second one is refused on a stale tail
after the get, and goes through when it looks again. -/
def staleTail : List (Action ℕ) :=
  [.asyncPut 7, .loadTail 0, .write, .storeHead, .asyncGet, .loadHead 1, .read, .storeTail,
    .asyncPut 8, .loadTail 0, .asyncPut 9, .loadTail 1, .write]

theorem spsc_fifo_staleTail :
    ∃ s : State ℕ,
      Transition.run step (start 2 fun _ => 0) staleTail = some s ∧
      s.putCalls = [(7, true), (8, false)] ∧ handedOutValues s.getCalls = [7] ∧
      handedOutValues s.getCalls <+: storedValues s.putCalls ∧ unread s ≤ 1 := by
  refine ⟨_, rfl, rfl, rfl, ?_⟩
  have h := @spsc_fifo ℕ 2 (by decide) (fun _ => 0) staleTail _ rfl
  exact ⟨h.1, h.2.1⟩

end Banana.WaitFreeConcurrentRingBuffer
