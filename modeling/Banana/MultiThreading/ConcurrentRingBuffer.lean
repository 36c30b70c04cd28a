import Banana.Library.BoundedFifo
import Banana.Library.CyclicIndex
import Banana.Library.Monitor

/-!
# ConcurrentRingBuffer

The ring buffer of `multi-threading/ConcurrentRingBuffer.h`, body by body as
the methods run under `mtx_`.  Indices are `size_t`, but they stay below
`size_ < 2 ^ 64`, so `index + 1` never wraps and natural numbers do.

The queue held by a buffer is the list of slots from `tail_` up to `head_`.
Each body is one step of the abstract bounded queue of capacity `size_ - 1`,
and by `Monitor.run_log_invariant` so is every interleaving of threads.
-/

namespace Banana

open Monitor

variable {T τ : Type*}

/-- What `mtx_` guards. -/
structure ConcurrentRingBuffer (T : Type*) where
  buff : ℕ → T
  size : ℕ
  head : ℕ
  tail : ℕ

namespace ConcurrentRingBuffer

inductive Condvar
  | condNotFull
  | condNotEmpty
  deriving DecidableEq

inductive Op (T : Type*)
  | syncPut (obj : T)
  | asyncPut (obj : T)
  | syncGet
  | asyncGet

/-- How a call ends: without a value, by `return false`, by `return true`
after assigning `obj`, or at the closing brace of a `bool` function that has
no `return` there. -/
inductive Ret (T : Type*)
  | void
  | returnFalse
  | returnTrue (obj : T)
  | noReturn

/-- The constructor; `buff` is whatever `new T[size]` holds. -/
def new (size : ℕ) (buff : ℕ → T) : ConcurrentRingBuffer T := ⟨buff, size, 0, 0⟩

def next (b : ConcurrentRingBuffer T) (index : ℕ) : ℕ := (index + 1) % b.size

/-- `buff_[head_] = obj; head_ = _next(head_);` -/
def push (b : ConcurrentRingBuffer T) (obj : T) : ConcurrentRingBuffer T :=
  { b with buff := Function.update b.buff b.head obj, head := b.next b.head }

def pop (b : ConcurrentRingBuffer T) : ConcurrentRingBuffer T :=
  { b with tail := b.next b.tail }

abbrev Body (T : Type*) :=
  ConcurrentRingBuffer T → Pass (ConcurrentRingBuffer T) (Ret T) Condvar

def syncPut (obj : T) : Body T := fun b =>
  if b.next b.head = b.tail then .wait .condNotFull
  else .finish (b.push obj) .void (some .condNotEmpty)

/-- After storing the element the source runs into the closing brace. -/
def asyncPut (obj : T) : Body T := fun b =>
  if b.next b.head = b.tail then .finish b .returnFalse none
  else .finish (b.push obj) .noReturn (some .condNotEmpty)

def syncGet : Body T := fun b =>
  if b.tail = b.head then .wait .condNotEmpty
  else .finish b.pop (.returnTrue (b.buff b.tail)) (some .condNotFull)

def asyncGet : Body T := fun b =>
  if b.tail = b.head then .finish b .returnFalse none
  else .finish b.pop (.returnTrue (b.buff b.tail)) (some .condNotFull)

def body : Op T → Body T
  | .syncPut obj => syncPut obj
  | .asyncPut obj => asyncPut obj
  | .syncGet => syncGet
  | .asyncGet => asyncGet

/-! ## The queue a buffer holds -/

structure Valid (b : ConcurrentRingBuffer T) : Prop where
  head_lt : b.head < b.size
  tail_lt : b.tail < b.size

/-- The slots from `tail_` up to `head_`, cyclically. -/
def elements (b : ConcurrentRingBuffer T) : List T :=
  CyclicIndex.window b.size b.buff b.tail (CyclicIndex.distance b.size b.tail b.head)

theorem valid_new {size : ℕ} (hsize : 1 ≤ size) (buff : ℕ → T) : (new size buff).Valid :=
  ⟨hsize, hsize⟩

@[simp] theorem elements_new {size : ℕ} (hsize : 1 ≤ size) (buff : ℕ → T) :
    (new size buff).elements = [] := by
  simp [elements, new, CyclicIndex.distance_self hsize]

theorem next_eq_next (b : ConcurrentRingBuffer T) (index : ℕ) :
    b.next index = CyclicIndex.next b.size index := rfl

namespace Valid

variable {b : ConcurrentRingBuffer T}

theorem next_lt (hb : b.Valid) (index : ℕ) : b.next index < b.size :=
  Nat.mod_lt _ (Nat.zero_lt_of_lt hb.head_lt)

theorem push (hb : b.Valid) (obj : T) : (b.push obj).Valid := ⟨hb.next_lt _, hb.tail_lt⟩

theorem pop (hb : b.Valid) : b.pop.Valid := ⟨hb.head_lt, hb.next_lt _⟩

theorem length_elements (hb : b.Valid) :
    b.elements.length < b.size := by
  rw [elements, CyclicIndex.length_window]
  exact CyclicIndex.distance_lt (Nat.zero_lt_of_lt hb.head_lt) _ _

theorem full_iff (hb : b.Valid) :
    b.next b.head = b.tail ↔ b.elements.length = b.size - 1 := by
  rw [next_eq_next, CyclicIndex.next_eq_iff_distance hb.tail_lt hb.head_lt, elements,
    CyclicIndex.length_window]
  have hlt := hb.head_lt
  omega

theorem empty_iff (hb : b.Valid) : b.tail = b.head ↔ b.elements = [] := by
  rw [← List.length_eq_zero_iff, elements, CyclicIndex.length_window,
    CyclicIndex.distance_eq_zero_iff hb.tail_lt hb.head_lt]

theorem elements_push (hb : b.Valid) (obj : T) (hroom : b.next b.head ≠ b.tail) :
    (b.push obj).elements = b.elements ++ [obj] := by
  have hdist := CyclicIndex.distance_next_head hb.tail_lt hb.head_lt hroom
  have hslot := CyclicIndex.add_distance_mod hb.tail_lt hb.head_lt
  have hlt := CyclicIndex.distance_lt (Nat.zero_lt_of_lt hb.head_lt) b.tail b.head
  change CyclicIndex.window b.size (Function.update b.buff b.head obj) b.tail
    (CyclicIndex.distance b.size b.tail (CyclicIndex.next b.size b.head)) = _
  rw [hdist, CyclicIndex.window_succ_back, hslot, Function.update_self]
  refine congrArg (· ++ [obj]) ?_
  have hold := CyclicIndex.window_update b.buff b.tail hlt obj
  rwa [hslot] at hold

theorem elements_pop (hb : b.Valid) (hsome : b.tail ≠ b.head) :
    b.elements = b.buff b.tail :: b.pop.elements := by
  have hdist := CyclicIndex.distance_next_tail hb.tail_lt hb.head_lt hsome
  rw [elements, ← hdist, CyclicIndex.window_succ_front, Nat.mod_eq_of_lt hb.tail_lt]
  rfl

end Valid

/-! ## Each body is a step of the abstract queue -/

def event : Op T × Ret T → BoundedFifo.Event T
  | (.syncPut obj, _) => .put obj
  | (.asyncPut _, .returnFalse) => .putRefused
  | (.asyncPut obj, _) => .put obj
  | (_, .returnTrue obj) => .get obj
  | (_, _) => .getRefused

/-- The values stored by the puts of a log, in lock order. -/
def storedValues (log : List (Op T × Ret T)) : List T := BoundedFifo.puts (log.map event)

def handedOutValues (log : List (Op T × Ret T)) : List T := BoundedFifo.gets (log.map event)

inductive Finishes (b : ConcurrentRingBuffer T) (op : Op T) :
    ConcurrentRingBuffer T → Ret T → Option Condvar → Prop
  | stores (obj : T) (r : Ret T) (hop : op = .syncPut obj ∨ op = .asyncPut obj)
      (hevent : event (op, r) = .put obj) (hroom : b.next b.head ≠ b.tail) :
      Finishes b op (b.push obj) r (some .condNotEmpty)
  | handsOut (hop : op = .syncGet ∨ op = .asyncGet)
      (hevent : event (op, .returnTrue (b.buff b.tail)) = .get (b.buff b.tail))
      (hsome : b.tail ≠ b.head) :
      Finishes b op b.pop (.returnTrue (b.buff b.tail)) (some .condNotFull)
  | refuses (hop : ((∃ obj, op = .asyncPut obj) ∧ b.next b.head = b.tail) ∨
      (op = .asyncGet ∧ b.tail = b.head)) : Finishes b op b .returnFalse none

theorem finishes_of_body {b b' : ConcurrentRingBuffer T} {op : Op T} {r : Ret T}
    {n : Option Condvar} (h : body op b = .finish b' r n) : Finishes b op b' r n := by
  cases op with
  | syncPut obj =>
      by_cases hfull : b.next b.head = b.tail
      · simp [body, syncPut, hfull] at h
      · obtain ⟨rfl, rfl, rfl⟩ : b.push obj = b' ∧ .void = r ∧ some .condNotEmpty = n := by
          simpa [body, syncPut, hfull] using h
        exact .stores obj _ (.inl rfl) rfl hfull
  | asyncPut obj =>
      by_cases hfull : b.next b.head = b.tail
      · obtain ⟨rfl, rfl, rfl⟩ : b = b' ∧ .returnFalse = r ∧ none = n := by
          simpa [body, asyncPut, hfull] using h
        exact .refuses (.inl ⟨⟨obj, rfl⟩, hfull⟩)
      · obtain ⟨rfl, rfl, rfl⟩ : b.push obj = b' ∧ .noReturn = r ∧ some .condNotEmpty = n := by
          simpa [body, asyncPut, hfull] using h
        exact .stores obj _ (.inr rfl) rfl hfull
  | syncGet =>
      by_cases hempty : b.tail = b.head
      · simp [body, syncGet, hempty] at h
      · obtain ⟨rfl, rfl, rfl⟩ :
            b.pop = b' ∧ .returnTrue (b.buff b.tail) = r ∧ some .condNotFull = n := by
          simpa [body, syncGet, hempty] using h
        exact .handsOut (.inl rfl) rfl hempty
  | asyncGet =>
      by_cases hempty : b.tail = b.head
      · obtain ⟨rfl, rfl, rfl⟩ : b = b' ∧ .returnFalse = r ∧ none = n := by
          simpa [body, asyncGet, hempty] using h
        exact .refuses (.inr ⟨rfl, hempty⟩)
      · obtain ⟨rfl, rfl, rfl⟩ :
            b.pop = b' ∧ .returnTrue (b.buff b.tail) = r ∧ some .condNotFull = n := by
          simpa [body, asyncGet, hempty] using h
        exact .handsOut (.inr rfl) rfl hempty

theorem of_body_wait {b : ConcurrentRingBuffer T} {op : Op T} {c : Condvar}
    (h : body op b = .wait c) :
    ((∃ obj, op = .syncPut obj) ∧ c = .condNotFull ∧ b.next b.head = b.tail) ∨
      (op = .syncGet ∧ c = .condNotEmpty ∧ b.tail = b.head) := by
  cases op with
  | syncPut obj =>
      by_cases hfull : b.next b.head = b.tail
      · have hc : .condNotFull = c := by simpa [body, syncPut, hfull] using h
        exact .inl ⟨⟨obj, rfl⟩, hc.symm, hfull⟩
      · simp [body, syncPut, hfull] at h
  | asyncPut obj =>
      by_cases hfull : b.next b.head = b.tail <;> simp [body, asyncPut, hfull] at h
  | syncGet =>
      by_cases hempty : b.tail = b.head
      · have hc : .condNotEmpty = c := by simpa [body, syncGet, hempty] using h
        exact .inr ⟨rfl, hc.symm, hempty⟩
      · simp [body, syncGet, hempty] at h
  | asyncGet =>
      by_cases hempty : b.tail = b.head <;> simp [body, asyncGet, hempty] at h

theorem Finishes.valid {b b' : ConcurrentRingBuffer T} {op : Op T} {r : Ret T}
    {n : Option Condvar} (h : Finishes b op b' r n) (hb : b.Valid) :
    b'.Valid ∧ b'.size = b.size := by
  cases h with
  | stores obj => exact ⟨hb.push obj, rfl⟩
  | handsOut => exact ⟨hb.pop, rfl⟩
  | refuses => exact ⟨hb, rfl⟩

theorem Finishes.step {b b' : ConcurrentRingBuffer T} {op : Op T} {r : Ret T}
    {n : Option Condvar} (h : Finishes b op b' r n) (hb : b.Valid) :
    BoundedFifo.Step (b.size - 1) b.elements (event (op, r)) b'.elements := by
  cases h with
  | stores obj r _ hevent hroom =>
      have hlen := hb.length_elements
      have hfull := mt hb.full_iff.mpr hroom
      rw [hb.elements_push obj hroom, hevent]
      exact .put _ obj (by omega)
  | handsOut _ hevent hsome =>
      rw [hb.elements_pop hsome, hevent]
      exact .get _ _
  | refuses hop =>
      rcases hop with ⟨⟨obj, rfl⟩, hfull⟩ | ⟨rfl, hempty⟩
      · exact .putRefused _ (hb.full_iff.mp hfull)
      · rw [hb.empty_iff.mp hempty]
        exact .getRefused

theorem Finishes.eq_of_refused {b b' : ConcurrentRingBuffer T} {op : Op T} {r : Ret T}
    {n : Option Condvar} (h : Finishes b op b' r n)
    (hput : (event (op, r)).stored = none) (hget : (event (op, r)).handedOut = none) :
    b' = b := by
  cases h with
  | stores obj r _ hevent => simp [hevent, BoundedFifo.Event.stored] at hput
  | handsOut _ hevent => simp [hevent, BoundedFifo.Event.handedOut] at hget
  | refuses => rfl

/-! ## Many threads -/

abbrev System (T τ : Type*) := State (ConcurrentRingBuffer T) (Op T) (Ret T) Condvar τ

variable [Fintype τ] [DecidableEq τ]

/-- The log of a run is a history of the abstract queue of capacity
`size - 1`, which holds exactly the elements in the buffer. -/
theorem runs_log {size : ℕ} (hsize : 1 ≤ size) (buff : ℕ → T)
    {as : List (Action (Op T) τ)} {s : System T τ}
    (hrun : Transition.run (step body) (start (new size buff)) as = some s) :
    s.shared.Valid ∧ s.shared.size = size ∧
      BoundedFifo.Runs (size - 1) (s.log.map event) s.shared.elements := by
  refine run_log_invariant
    (I := fun log b => b.Valid ∧ b.size = size ∧
      BoundedFifo.Runs (size - 1) (log.map event) b.elements) ?_ ?_ hrun
  · rintro log b op b' r n ⟨hb, hbsize, hruns⟩ hbody
    have hfin := finishes_of_body hbody
    obtain ⟨hb', hb'size⟩ := hfin.valid hb
    refine ⟨hb', hb'size.trans hbsize, ?_⟩
    have hstep := hfin.step hb
    rw [hbsize] at hstep
    simpa using hruns.snoc _ _ _ _ hstep
  · refine ⟨valid_new hsize buff, rfl, ?_⟩
    rw [start, elements_new hsize]
    exact .nil

theorem storedValues_snoc (log : List (Op T × Ret T)) (e : Op T × Ret T) :
    storedValues (log ++ [e]) = storedValues log ++ (event e).stored.toList := by
  simp [storedValues]

theorem handedOutValues_snoc (log : List (Op T × Ret T)) (e : Op T × Ret T) :
    handedOutValues (log ++ [e]) = handedOutValues log ++ (event e).handedOut.toList := by
  simp [handedOutValues]

theorem shared_eq_of_step {s u : System T τ} {a : Action (Op T) τ}
    (h : step body s a = some u) (hput : storedValues u.log = storedValues s.log)
    (hget : handedOutValues u.log = handedOutValues s.log) : u.shared = s.shared := by
  cases moves_of_step h with
  | waits => rfl
  | finishes t op b' r n wake _ _ hbody _ =>
      change storedValues (s.log ++ [(op, r)]) = _ at hput
      change handedOutValues (s.log ++ [(op, r)]) = _ at hget
      rw [storedValues_snoc] at hput
      rw [handedOutValues_snoc] at hget
      exact (finishes_of_body hbody).eq_of_refused (by simpa using hput) (by simpa using hget)
  | spurious => rfl

/-- Whatever the threads do, the buffer is one FIFO queue of capacity
`size - 1`. -/
theorem refines_bounded_fifo {size : ℕ} (hsize : 1 ≤ size) (buff : ℕ → T)
    {as : List (Action (Op T) τ)} {s : System T τ}
    (hrun : Transition.run (step body) (start (new size buff)) as = some s) :
    s.shared.head < size ∧ s.shared.tail < size ∧ s.shared.size = size ∧
      BoundedFifo.Runs (size - 1) (s.log.map event) s.shared.elements ∧
      storedValues s.log = handedOutValues s.log ++ s.shared.elements ∧
      handedOutValues s.log <+: storedValues s.log ∧
      s.shared.elements.length ≤ size - 1 ∧
      ∀ a u, step body s a = some u → storedValues u.log = storedValues s.log →
        handedOutValues u.log = handedOutValues s.log → u.shared = s.shared := by
  obtain ⟨hvalid, hsz, hruns⟩ := runs_log hsize buff hrun
  have hfifo : storedValues s.log = handedOutValues s.log ++ s.shared.elements := hruns.puts_eq
  refine ⟨hsz ▸ hvalid.head_lt, hsz ▸ hvalid.tail_lt, hsz, hruns, hfifo, ?_,
    hruns.length_le, fun a u => shared_eq_of_step⟩
  rw [hfifo]
  exact List.prefix_append _ _

/-- Two threads on a buffer of two slots: a get sleeps, a put wakes it, a
second put is refused, and the get goes through. -/
def twoThreads : List (Action (Op ℕ) (Fin 2)) :=
  [.call 0 .syncGet none, .call 1 (.syncPut 7) (some 0), .call 1 (.asyncPut 8) none,
    .resume 0 none]

theorem refines_bounded_fifo_twoThreads :
    ∃ s : System ℕ (Fin 2),
      Transition.run (step body) (start (new 2 fun _ => 0)) twoThreads = some s ∧
      handedOutValues s.log = [7] ∧ handedOutValues s.log <+: storedValues s.log := by
  refine ⟨_, rfl, rfl, ?_⟩
  exact (@refines_bounded_fifo ℕ (Fin 2) _ _ 2 (by decide) (fun _ => 0) twoThreads _
    rfl).2.2.2.2.2.1

end ConcurrentRingBuffer

end Banana
