import Banana.MultiThreading.ConcurrentRingBuffer
import Banana.MultiThreading.WaitFreeConcurrentRingBuffer

/-!
# The two ring buffers side by side

Calls of `asyncPut` and `asyncGet` one after another on a
`ConcurrentRingBuffer` and on a `WaitFreeConcurrentRingBuffer` of one size.
Both follow one bounded queue, refuse at the same calls and hand out the same
values.  They differ in what `asyncPut` returns when it stores:  only the
wait-free one has a `return` on that path.

On one thread a load of the wait-free ring returns the value stored last.
-/

namespace Banana.RingBufferInterchange

open BoundedFifo Transition

variable {T : Type*}

inductive Call (T : Type*)
  | asyncPut (obj : T)
  | asyncGet

/-- The value returned, if there is one, and the value assigned to the argument
of `asyncGet`. -/
abbrev Result (T : Type*) := Option (Bool × Option T)

/-! ## One call -/

def Call.op : Call T → ConcurrentRingBuffer.Op T
  | asyncPut obj => .asyncPut obj
  | asyncGet => .asyncGet

def resultOfRet : ConcurrentRingBuffer.Ret T → Result T
  | .returnFalse => some (false, none)
  | .returnTrue obj => some (true, some obj)
  | .void => none
  | .noReturn => none

def lockedCall (b : ConcurrentRingBuffer T) (c : Call T) :
    Option (ConcurrentRingBuffer T × Result T) :=
  match ConcurrentRingBuffer.body c.op b with
  | .finish b' r _ => some (b', resultOfRet r)
  | .wait _ => none

def waitFreePut (w : WaitFreeConcurrentRingBuffer.State T) (obj : T) :
    Option (WaitFreeConcurrentRingBuffer.State T) :=
  (run WaitFreeConcurrentRingBuffer.step w
      [.asyncPut obj, .loadTail (w.memory.tailValues.length - 1)]).bind fun u =>
    match u.producer with
    | .idle => some u
    | _ => run WaitFreeConcurrentRingBuffer.step u [.write, .storeHead]

def waitFreeGet (w : WaitFreeConcurrentRingBuffer.State T) :
    Option (WaitFreeConcurrentRingBuffer.State T) :=
  (run WaitFreeConcurrentRingBuffer.step w
      [.asyncGet, .loadHead (w.memory.headValues.length - 1)]).bind fun u =>
    match u.consumer with
    | .idle => some u
    | _ => run WaitFreeConcurrentRingBuffer.step u [.read, .storeTail]

def waitFreeCall (w : WaitFreeConcurrentRingBuffer.State T) :
    Call T → Option (WaitFreeConcurrentRingBuffer.State T × Result T)
  | .asyncPut obj =>
      (waitFreePut w obj).map fun u => (u, u.putCalls.getLast?.map fun call => (call.2, none))
  | .asyncGet =>
      (waitFreeGet w).map fun u => (u, u.getCalls.getLast?.map fun got => (got.isSome, got))

def lockedStep (b : ConcurrentRingBuffer T) (c : Call T) : Option (ConcurrentRingBuffer T) :=
  (lockedCall b c).map Prod.fst

def waitFreeStep (w : WaitFreeConcurrentRingBuffer.State T) (c : Call T) :
    Option (WaitFreeConcurrentRingBuffer.State T) :=
  (waitFreeCall w c).map Prod.fst

/-- The slots from the last value of `tail_` up to the last value of `head_`. -/
def elements (m : WaitFreeConcurrentRingBuffer.Memory T) : List T :=
  match m.tailValues.getLast?, m.headValues.getLast? with
  | some tail, some head =>
      CyclicIndex.window m.size m.buff tail (CyclicIndex.distance m.size tail head)
  | _, _ => []

/-- A put returns true exactly when it stores and false exactly when the buffer is
full; a get returns true with the first element and false exactly when the
buffer is empty. -/
def Truthful (cap : ℕ) (q : List T) (r : Result T) (q' : List T) : Call T → Prop
  | .asyncPut obj =>
      (r = some (true, none) ↔ q' = q ++ [obj]) ∧ (r = some (false, none) ↔ q.length = cap)
  | .asyncGet =>
      (∀ obj, r = some (true, some obj) ↔ q = obj :: q') ∧ (r = some (false, none) ↔ q = [])

/-- After the same calls the two buffers give the same answer to the next one, and
it is true of both. -/
def Agrees (size : ℕ) (buff buff' : ℕ → T) (before : List (Call T)) (c : Call T) : Prop :=
  ∃ b w b' w' r, run lockedStep (.new size buff) before = some b ∧
    run waitFreeStep (WaitFreeConcurrentRingBuffer.start size buff') before = some w ∧
    lockedCall b c = some (b', r) ∧ waitFreeCall w c = some (w', r) ∧
    Truthful (size - 1) b.elements r b'.elements c ∧
    Truthful (size - 1) (elements w.memory) r (elements w'.memory) c

def Interchangeable (size : ℕ) (buff buff' : ℕ → T) (calls : List (Call T)) : Prop :=
  ∀ before c after, calls = before ++ c :: after → Agrees size buff buff' before c

/-! ## The queue behind both -/

def eventOf (cap : ℕ) (q : List T) : Call T → Event T
  | .asyncPut obj => if q.length = cap then .putRefused else .put obj
  | .asyncGet => q.head?.elim .getRefused .get

def queueAfter (cap : ℕ) (q : List T) : Call T → List T
  | .asyncPut obj => if q.length = cap then q else q ++ [obj]
  | .asyncGet => q.tail

def lockedResult : Event T → Result T
  | .put _ => none
  | .get obj => some (true, some obj)
  | .putRefused => some (false, none)
  | .getRefused => some (false, none)

def waitFreeResult : Event T → Result T
  | .put _ => some (true, none)
  | e => lockedResult e

theorem truthful_waitFreeResult (cap : ℕ) (q : List T) (c : Call T) :
    Truthful cap q (waitFreeResult (eventOf cap q c)) (queueAfter cap q c) c := by
  cases c with
  | asyncPut obj =>
      by_cases hfull : q.length = cap <;>
        simp [Truthful, eventOf, queueAfter, waitFreeResult, lockedResult, hfull]
  | asyncGet =>
      cases q <;> simp [Truthful, eventOf, queueAfter, waitFreeResult, lockedResult]

/-! ## The buffer with the lock -/

structure LockedHolds (size : ℕ) (q : List T) (b : ConcurrentRingBuffer T) : Prop where
  valid : b.Valid
  size_eq : b.size = size
  elements : b.elements = q

theorem lockedHolds_new {size : ℕ} (hsize : 1 ≤ size) (buff : ℕ → T) :
    LockedHolds size [] (.new size buff) :=
  ⟨ConcurrentRingBuffer.valid_new hsize buff, rfl, ConcurrentRingBuffer.elements_new hsize buff⟩

theorem LockedHolds.call {size : ℕ} {q : List T} {b : ConcurrentRingBuffer T}
    (h : LockedHolds size q b) (c : Call T) :
    ∃ b', lockedCall b c = some (b', lockedResult (eventOf (size - 1) q c)) ∧
      LockedHolds size (queueAfter (size - 1) q c) b' := by
  obtain ⟨hvalid, rfl, rfl⟩ := h
  cases c with
  | asyncPut obj =>
      by_cases hfull : b.next b.head = b.tail
      · have hlen := hvalid.full_iff.mp hfull
        refine ⟨b, ?_, hvalid, rfl, ?_⟩
        · simp [lockedCall, Call.op, ConcurrentRingBuffer.body, ConcurrentRingBuffer.asyncPut,
            hfull, resultOfRet, eventOf, hlen, lockedResult]
        · rw [queueAfter, if_pos hlen]
      · have hlen := mt hvalid.full_iff.mpr hfull
        refine ⟨b.push obj, ?_, hvalid.push obj, rfl, ?_⟩
        · simp [lockedCall, Call.op, ConcurrentRingBuffer.body, ConcurrentRingBuffer.asyncPut,
            hfull, resultOfRet, eventOf, hlen, lockedResult]
        · rw [queueAfter, if_neg hlen, hvalid.elements_push obj hfull]
  | asyncGet =>
      by_cases hempty : b.tail = b.head
      · have hnil := hvalid.empty_iff.mp hempty
        refine ⟨b, ?_, hvalid, rfl, ?_⟩
        · simp [lockedCall, Call.op, ConcurrentRingBuffer.body, ConcurrentRingBuffer.asyncGet,
            hempty, resultOfRet, eventOf, hnil, lockedResult]
        · rw [queueAfter, hnil, List.tail_nil]
      · have hcons := hvalid.elements_pop hempty
        refine ⟨b.pop, ?_, hvalid.pop, rfl, ?_⟩
        · simp [lockedCall, Call.op, ConcurrentRingBuffer.body, ConcurrentRingBuffer.asyncGet,
            hempty, resultOfRet, eventOf, hcons, lockedResult]
        · rw [queueAfter, hcons, List.tail_cons]

/-! ## The wait-free buffer -/

open WaitFreeConcurrentRingBuffer in
/-- Between two calls the ring holds the values put and not yet taken. -/
structure WaitFreeHolds (size : ℕ) (q : List T) (w : State T) : Prop where
  inv : Inv size (storedValues w.putCalls) (handedOutValues w.getCalls) w
  producer : w.producer = .idle
  consumer : w.consumer = .idle
  queue : storedValues w.putCalls = handedOutValues w.getCalls ++ q

section WaitFree

open WaitFreeConcurrentRingBuffer

variable {size : ℕ} {q : List T} {w : State T}

theorem waitFreeHolds_start {size : ℕ} (hsize : 1 ≤ size) (buff : ℕ → T) :
    WaitFreeHolds size [] (start size buff) :=
  ⟨inv_start hsize buff, rfl, rfl, rfl⟩

theorem WaitFreeHolds.length_stored (h : WaitFreeHolds size q w) :
    (storedValues w.putCalls).length = (handedOutValues w.getCalls).length + q.length := by
  rw [h.queue, List.length_append]

theorem WaitFreeHolds.length_lt (h : WaitFreeHolds size q w) : q.length < size := by
  have hlen := h.length_stored
  have hround := h.inv.round
  have hlag := h.inv.tailView_le
  omega

/-- The positions of the queue are the slots between the two indices. -/
theorem WaitFreeHolds.elements_eq (h : WaitFreeHolds size q w) : elements w.memory = q := by
  have hlen := h.length_stored
  have hlt := h.length_lt
  have hdistance : CyclicIndex.distance size ((handedOutValues w.getCalls).length % size)
      ((storedValues w.putCalls).length % size) = q.length := by
    rw [hlen, CyclicIndex.distance_add_mod hlt]
  rw [elements, h.inv.tailValues, h.inv.headValues, CyclicIndex.getLast?_trail,
    CyclicIndex.getLast?_trail, h.inv.size_eq]
  change CyclicIndex.window _ _ _ _ = q
  rw [hdistance]
  refine List.ext_getElem (CyclicIndex.length_window _ _ _) fun i hi hi' => ?_
  have hslot := h.inv.slots ((handedOutValues w.getCalls).length + i) (by omega) (by omega)
  rw [h.queue, List.getElem?_append_right (by omega), Nat.add_sub_cancel_left,
    List.getElem?_eq_getElem hi'] at hslot
  simp only [CyclicIndex.window, List.getElem_map, List.getElem_range, Nat.mod_add_mod]
  exact (Option.some.inj hslot).symm

/-- The next head is the tail when the queue is full. -/
theorem WaitFreeHolds.full_iff (h : WaitFreeHolds size q w) :
    w.memory.next ((storedValues w.putCalls).length % size) =
        (handedOutValues w.getCalls).length % size ↔ q.length = size - 1 := by
  have hlen := h.length_stored
  have hlt := h.length_lt
  rw [Memory.next, h.inv.size_eq, Nat.mod_add_mod]
  constructor
  · intro heq
    by_contra hroom
    exact CyclicIndex.mod_ne_mod (by omega) (by omega) heq.symm
  · intro hfull
    rw [show (storedValues w.putCalls).length + 1 = (handedOutValues w.getCalls).length + size by
      omega, Nat.add_mod_right]

theorem WaitFreeHolds.empty_iff (h : WaitFreeHolds size q w) :
    (handedOutValues w.getCalls).length % size = (storedValues w.putCalls).length % size ↔
      q = [] := by
  have hlen := h.length_stored
  have hlt := h.length_lt
  rw [← List.length_eq_zero_iff]
  constructor
  · intro heq
    by_contra hsome
    exact CyclicIndex.mod_ne_mod (by omega) (by omega) heq
  · intro hnil
    rw [hlen, hnil, Nat.add_zero]

theorem getElem?_last_trail (n k : ℕ) :
    (CyclicIndex.trail n k)[(CyclicIndex.trail n k).length - 1]? = some (k % n) := by
  rw [← List.getLast?_eq_getElem?, CyclicIndex.getLast?_trail]

/-- The loads of a put see the latest indices. -/
theorem WaitFreeHolds.run_loads_put (h : WaitFreeHolds size q w) (obj : T) :
    run step w [.asyncPut obj, .loadTail (w.memory.tailValues.length - 1)] =
      some (if q.length = size - 1 then
        { w with tailView := w.memory.tailValues.length - 1,
                 putCalls := w.putCalls ++ [(obj, false)] }
      else { w with producer := .atWrite obj ((storedValues w.putCalls).length % size),
                    tailView := w.memory.tailValues.length - 1 }) := by
  have hview : w.tailView ≤ w.memory.tailValues.length - 1 := by
    have hlag := h.inv.tailView_le
    rw [h.inv.tailValues]
    simpa [CyclicIndex.trail] using hlag
  have hhead : w.memory.headValues.getLast? = some ((storedValues w.putCalls).length % size) := by
    rw [h.inv.headValues, CyclicIndex.getLast?_trail]
  have htail : w.memory.tailValues[w.memory.tailValues.length - 1]? =
      some ((handedOutValues w.getCalls).length % size) := by
    rw [h.inv.tailValues, getElem?_last_trail]
  by_cases hfull : q.length = size - 1
  · have hnext := h.full_iff.mpr hfull
    simp [run, step, h.producer, hhead, htail, hview, hnext, hfull]
  · have hnext := mt h.full_iff.mp hfull
    simp [run, step, h.producer, hhead, htail, hview, hnext, hfull]

theorem WaitFreeHolds.run_loads_get (h : WaitFreeHolds size q w) :
    run step w [.asyncGet, .loadHead (w.memory.headValues.length - 1)] =
      some (if q = [] then
        { w with headView := w.memory.headValues.length - 1, getCalls := w.getCalls ++ [none] }
      else { w with consumer := .atRead ((handedOutValues w.getCalls).length % size),
                    headView := w.memory.headValues.length - 1 }) := by
  have hview : w.headView ≤ w.memory.headValues.length - 1 := by
    have hlag := h.inv.headView_le
    rw [h.inv.headValues]
    simpa [CyclicIndex.trail] using hlag
  have htail : w.memory.tailValues.getLast? =
      some ((handedOutValues w.getCalls).length % size) := by
    rw [h.inv.tailValues, CyclicIndex.getLast?_trail]
  have hhead : w.memory.headValues[w.memory.headValues.length - 1]? =
      some ((storedValues w.putCalls).length % size) := by
    rw [h.inv.headValues, getElem?_last_trail]
  by_cases hnil : q = []
  · have heq := h.empty_iff.mpr hnil
    simp [run, step, h.consumer, hhead, htail, hview, heq, hnil]
  · have hne := mt h.empty_iff.mp hnil
    simp [run, step, h.consumer, hhead, htail, hview, hne, hnil]

theorem WaitFreeHolds.of_run {q' : List T} {u : State T} {as : List (Action T)}
    (h : WaitFreeHolds size q w) (hrun : run step w as = some u) (hproducer : u.producer = .idle)
    (hconsumer : u.consumer = .idle)
    (hqueue : storedValues u.putCalls = handedOutValues u.getCalls ++ q') :
    WaitFreeHolds size q' u :=
  ⟨run_invariant (I := fun v => Inv size (storedValues v.putCalls) (handedOutValues v.getCalls) v)
    (fun _ _ _ hv hstep => hv.step hstep) h.inv hrun, hproducer, hconsumer, hqueue⟩

theorem WaitFreeHolds.put (h : WaitFreeHolds size q w) (obj : T) :
    ∃ u, waitFreePut w obj = some u ∧
      u.putCalls = w.putCalls ++ [(obj, decide (q.length ≠ size - 1))] ∧
      WaitFreeHolds size (if q.length = size - 1 then q else q ++ [obj]) u := by
  have hloads := h.run_loads_put obj
  by_cases hfull : q.length = size - 1
  · rw [if_pos hfull] at hloads
    refine ⟨_, ?_, ?_, h.of_run hloads h.producer h.consumer ?_⟩
    · rw [waitFreePut, hloads, Option.bind_some, h.producer]
    · simp [hfull]
    · rw [if_pos hfull]
      simpa [storedValues_snoc_false] using h.queue
  · rw [if_neg hfull] at hloads
    have hrest : run step w ([.asyncPut obj, .loadTail (w.memory.tailValues.length - 1)] ++
        [.write, .storeHead]) = some
          { w with
            memory.buff := Function.update w.memory.buff
              ((storedValues w.putCalls).length % size) obj
            memory.headValues := w.memory.headValues ++
              [w.memory.next ((storedValues w.putCalls).length % size)]
            tailView := w.memory.tailValues.length - 1
            producer := .idle
            putCalls := w.putCalls ++ [(obj, true)] } := by
      rw [run_append, hloads, Option.bind_some]
      rfl
    refine ⟨_, ?_, ?_, h.of_run hrest rfl h.consumer ?_⟩
    · rw [run_append] at hrest
      rw [waitFreePut, ← hrest, hloads, Option.bind_some, Option.bind_some]
    · simp [hfull]
    · rw [if_neg hfull, storedValues_snoc_true, h.queue, List.append_assoc]

theorem WaitFreeHolds.get (h : WaitFreeHolds size q w) :
    ∃ u, waitFreeGet w = some u ∧ u.getCalls = w.getCalls ++ [q.head?] ∧
      WaitFreeHolds size q.tail u := by
  have hloads := h.run_loads_get
  cases q with
  | nil =>
      rw [if_pos rfl] at hloads
      refine ⟨_, ?_, rfl, h.of_run hloads h.producer h.consumer ?_⟩
      · rw [waitFreeGet, hloads, Option.bind_some, h.consumer]
      · rw [handedOutValues_snoc_none]
        exact h.queue
  | cons obj q =>
      rw [if_neg (by simp)] at hloads
      have hlen := h.length_stored
      have hslot := h.inv.slots _ le_rfl (by simp [hlen])
      rw [h.queue, List.getElem?_append_right le_rfl, Nat.sub_self,
        List.getElem?_cons_zero] at hslot
      have hrest : run step w ([.asyncGet, .loadHead (w.memory.headValues.length - 1)] ++
          [.read, .storeTail]) = some
            { w with
              memory.tailValues := w.memory.tailValues ++
                [w.memory.next ((handedOutValues w.getCalls).length % size)]
              headView := w.memory.headValues.length - 1
              consumer := .idle
              getCalls := w.getCalls ++ [some obj] } := by
        rw [run_append, hloads, Option.bind_some, Option.some.inj hslot]
        rfl
      refine ⟨_, ?_, rfl, h.of_run hrest h.producer rfl ?_⟩
      · rw [run_append] at hrest
        rw [waitFreeGet, ← hrest, hloads, Option.bind_some, Option.bind_some]
      · rw [handedOutValues_snoc_some, h.queue, List.append_assoc]
        rfl

theorem WaitFreeHolds.call (h : WaitFreeHolds size q w) (c : Call T) :
    ∃ w', waitFreeCall w c = some (w', waitFreeResult (eventOf (size - 1) q c)) ∧
      WaitFreeHolds size (queueAfter (size - 1) q c) w' := by
  cases c with
  | asyncPut obj =>
      obtain ⟨u, hput, hlog, hu⟩ := h.put obj
      refine ⟨u, ?_, hu⟩
      rw [waitFreeCall, hput, Option.map_some, hlog, List.getLast?_concat, Option.map_some,
        eventOf]
      by_cases hfull : q.length = size - 1 <;> simp [hfull, waitFreeResult, lockedResult]
  | asyncGet =>
      obtain ⟨u, hget, hlog, hu⟩ := h.get
      refine ⟨u, ?_, hu⟩
      rw [waitFreeCall, hget, Option.map_some, hlog, List.getLast?_concat, Option.map_some,
        eventOf]
      cases q <;> rfl

end WaitFree

/-! ## Side by side -/

/-- After the same calls both hold the same queue. -/
theorem exists_runs {size : ℕ} (hsize : 1 ≤ size) (buff buff' : ℕ → T) (calls : List (Call T)) :
    ∃ b w, run lockedStep (.new size buff) calls = some b ∧
      run waitFreeStep (WaitFreeConcurrentRingBuffer.start size buff') calls = some w ∧
      LockedHolds size (calls.foldl (queueAfter (size - 1)) []) b ∧
      WaitFreeHolds size (calls.foldl (queueAfter (size - 1)) []) w := by
  induction calls using List.reverseRecOn with
  | nil => exact ⟨_, _, rfl, rfl, lockedHolds_new hsize buff, waitFreeHolds_start hsize buff'⟩
  | append_singleton calls c ih =>
      obtain ⟨b, w, hb, hw, hlocked, hfree⟩ := ih
      obtain ⟨b', hcall, hlocked'⟩ := hlocked.call c
      obtain ⟨w', hcall', hfree'⟩ := hfree.call c
      rw [List.foldl_concat]
      refine ⟨b', w', run_concat_eq_some.mpr ⟨b, hb, ?_⟩, run_concat_eq_some.mpr ⟨w, hw, ?_⟩,
        hlocked', hfree'⟩
      · rw [lockedStep, hcall, Option.map_some]
      · rw [waitFreeStep, hcall', Option.map_some]

/-- The answers differ where an element is stored, and nowhere else. -/
theorem agrees_iff {size : ℕ} (hsize : 1 ≤ size) (buff buff' : ℕ → T) (before : List (Call T))
    (c : Call T) :
    Agrees size buff buff' before c ↔
      ∀ obj, c = .asyncPut obj →
        (before.foldl (queueAfter (size - 1)) []).length = size - 1 := by
  obtain ⟨b, w, hb, hw, hlocked, hfree⟩ := exists_runs hsize buff buff' before
  obtain ⟨b', hcall, hlocked'⟩ := hlocked.call c
  obtain ⟨w', hcall', hfree'⟩ := hfree.call c
  constructor
  · rintro ⟨b₁, w₁, b₁', w₁', r, hb₁, hw₁, hcall₁, hcall₁', -⟩ obj rfl
    obtain rfl := Option.some.inj (hb.symm.trans hb₁)
    obtain rfl := Option.some.inj (hw.symm.trans hw₁)
    have hlockedResult := congrArg (Option.map Prod.snd) (hcall.symm.trans hcall₁)
    have hfreeResult := congrArg (Option.map Prod.snd) (hcall'.symm.trans hcall₁')
    by_contra hroom
    rw [eventOf, if_neg hroom] at hlockedResult hfreeResult
    obtain rfl : none = r := by simpa [lockedResult] using hlockedResult
    simp [waitFreeResult] at hfreeResult
  · intro hfull
    have hsame : lockedResult (eventOf (size - 1) (before.foldl (queueAfter (size - 1)) []) c) =
        waitFreeResult (eventOf (size - 1) (before.foldl (queueAfter (size - 1)) []) c) := by
      cases c with
      | asyncPut obj => rw [eventOf, if_pos (hfull obj rfl), waitFreeResult]; nofun
      | asyncGet =>
          rw [eventOf]
          cases before.foldl (queueAfter (size - 1)) [] <;> rfl
    have htrue := truthful_waitFreeResult (size - 1)
      (before.foldl (queueAfter (size - 1)) []) c
    refine ⟨b, w, b', w', _, hb, hw, hsame ▸ hcall, hcall', ?_, ?_⟩
    · rw [hlocked.elements, hlocked'.elements]
      exact htrue
    · rw [hfree.elements_eq, hfree'.elements_eq]
      exact htrue

theorem foldl_queueAfter_of_gets {cap : ℕ} {calls : List (Call T)}
    (hgets : ∀ obj, .asyncPut obj ∉ calls) : calls.foldl (queueAfter cap) [] = [] := by
  induction calls with
  | nil => rfl
  | cons c calls ih =>
      cases c with
      | asyncPut obj => exact absurd List.mem_cons_self (hgets obj)
      | asyncGet => exact ih fun obj hmem => hgets obj (List.mem_cons_of_mem _ hmem)

/-- A buffer of one slot is full and empty at once. -/
theorem foldl_queueAfter_zero (calls : List (Call T)) :
    calls.foldl (queueAfter 0) [] = [] := by
  induction calls with
  | nil => rfl
  | cons c calls ih => cases c <;> exact ih

theorem Interchangeable.of_append {size : ℕ} {buff buff' : ℕ → T} {calls rest : List (Call T)}
    (h : Interchangeable size buff buff' (calls ++ rest)) :
    Interchangeable size buff buff' calls := by
  rintro before c after rfl
  exact h before c (after ++ rest) (by simp)

/-- With room for an element the first put tells the two apart. -/
theorem not_mem_of_interchangeable {size : ℕ} (hsize : 2 ≤ size) {buff buff' : ℕ → T}
    {calls : List (Call T)} (h : Interchangeable size buff buff' calls) (obj : T) :
    .asyncPut obj ∉ calls := by
  induction calls using List.reverseRecOn generalizing obj with
  | nil => exact List.not_mem_nil
  | append_singleton calls c ih =>
      have hgets := ih h.of_append
      have hlast := (agrees_iff (by omega) buff buff' calls c).mp (h calls c [] rfl) obj
      rw [foldl_queueAfter_of_gets hgets, List.length_nil] at hlast
      intro hmem
      rcases List.mem_append.mp hmem with hmem | hmem
      · exact hgets obj hmem
      · have hfull := hlast (List.mem_singleton.mp hmem).symm
        omega

/-- The two buffers can stand for each other exactly when no `asyncPut` stores:
with one slot, where every put is refused, and where nothing is put. -/
theorem interchangeable_iff {size : ℕ} (hsize : 1 ≤ size) (buff buff' : ℕ → T)
    (calls : List (Call T)) :
    Interchangeable size buff buff' calls ↔ size = 1 ∨ ∀ obj, .asyncPut obj ∉ calls := by
  constructor
  · intro h
    rcases Nat.eq_or_lt_of_le hsize with hone | htwo
    · exact .inl hone.symm
    · exact .inr fun obj => not_mem_of_interchangeable htwo h obj
  · rintro hquiet before c after rfl
    rw [agrees_iff hsize]
    rintro obj rfl
    rcases hquiet with rfl | hgets
    · rw [foldl_queueAfter_zero, List.length_nil]
    · exact absurd (by simp) (hgets obj)

theorem interchangeable_iff_oneSlot :
    Interchangeable 1 (fun _ => 0) (fun _ => 0) [.asyncPut 7, .asyncGet] :=
  (interchangeable_iff (T := ℕ) le_rfl (fun _ => 0) (fun _ => 0) [.asyncPut 7, .asyncGet]).mpr
    (.inl rfl)

/-- Three slots, one put: the locked buffer returns nothing. -/
theorem not_interchangeable_onePut :
    ¬ Interchangeable 3 (fun _ => 0) (fun _ => 0) [.asyncPut 7] ∧
      ∃ b, lockedCall (.new 3 fun _ => 0) (.asyncPut 7) = some (b, none) ∧ b.elements = [7] := by
  refine ⟨fun h => ?_, _, rfl, rfl⟩
  exact not_mem_of_interchangeable (by decide) h 7 (by simp)

end Banana.RingBufferInterchange
