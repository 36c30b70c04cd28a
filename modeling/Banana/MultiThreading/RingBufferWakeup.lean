import Banana.MultiThreading.ConcurrentRingBuffer

/-!
# No lost wake-up in ConcurrentRingBuffer

The two condition variables of the ring buffer are accounted for by the
elements that a sleeping `syncGet` could take and the slots that a sleeping
`syncPut` could fill.  Every put that goes through notifies `condNotEmpty_`
and every get that goes through notifies `condNotFull_`, so the rule for
monitors applies, whichever sleeper is picked and whoever barges in between.
-/

namespace Banana.ConcurrentRingBuffer

open Monitor Threads

variable {T τ : Type*}

def condvar : Op T → Option Condvar
  | .syncPut _ => some .condNotFull
  | .syncGet => some .condNotEmpty
  | _ => none

def freeSlots (b : ConcurrentRingBuffer T) : ℕ := b.size - 1 - b.elements.length

/-- How many sleepers of a condition variable the buffer could serve. -/
def serves : Condvar → ConcurrentRingBuffer T → ℕ
  | .condNotFull, b => b.freeSlots
  | .condNotEmpty, b => b.elements.length

theorem Valid.freeSlots_add {b : ConcurrentRingBuffer T} (hb : b.Valid) :
    b.freeSlots + b.elements.length = b.size - 1 := by
  have hlen := hb.length_elements
  unfold freeSlots
  omega

theorem Valid.serves_push {b : ConcurrentRingBuffer T} (hb : b.Valid) (obj : T)
    (hroom : b.next b.head ≠ b.tail) :
    (b.push obj).elements.length = b.elements.length + 1 ∧
      (b.push obj).freeSlots + 1 = b.freeSlots := by
  have hlen : (b.push obj).elements.length = b.elements.length + 1 := by
    rw [hb.elements_push obj hroom, List.length_append, List.length_singleton]
  have hfree := hb.freeSlots_add
  have hfree' : (b.push obj).freeSlots + (b.push obj).elements.length = b.size - 1 :=
    (hb.push obj).freeSlots_add
  omega

theorem Valid.serves_pop {b : ConcurrentRingBuffer T} (hb : b.Valid) (hsome : b.tail ≠ b.head) :
    b.pop.elements.length + 1 = b.elements.length ∧ b.pop.freeSlots = b.freeSlots + 1 := by
  have hlen : b.pop.elements.length + 1 = b.elements.length := by
    rw [hb.elements_pop hsome, List.length_cons]
  have hfree := hb.freeSlots_add
  have hfree' : b.pop.freeSlots + b.pop.elements.length = b.size - 1 := hb.pop.freeSlots_add
  omega

theorem accounting : Accounting (body : Op T → Body T) condvar Valid serves where
  keeps hb hbody := ((finishes_of_body hbody).valid hb).1
  waits hbody := by
    rcases of_body_wait hbody with ⟨⟨obj, rfl⟩, rfl, -⟩ | ⟨rfl, rfl, -⟩ <;> rfl
  exhausted hb hbody := by
    rcases of_body_wait hbody with ⟨-, rfl, hfull⟩ | ⟨-, rfl, hempty⟩
    · have hlen := hb.full_iff.mp hfull
      have hfree := hb.freeSlots_add
      change freeSlots _ = 0
      omega
    · exact List.length_eq_zero_iff.mpr (hb.empty_iff.mp hempty)
  rises hb hbody c := by
    cases finishes_of_body hbody with
    | stores obj _ _ _ hroom =>
        obtain ⟨hlen, hfree⟩ := hb.serves_push obj hroom
        cases c <;> simp only [serves, reduceCtorEq, Option.some.injEq, if_true, if_false] <;>
          omega
    | handsOut _ _ hsome =>
        obtain ⟨hlen, hfree⟩ := hb.serves_pop hsome
        cases c <;> simp only [serves, reduceCtorEq, Option.some.injEq, if_true, if_false] <;>
          omega
    | refuses => simp
  consumes {op s s' r n c} hb hbody hop := by
    cases finishes_of_body hbody with
    | stores obj _ hcall _ hroom =>
        obtain ⟨hlen, hfree⟩ := hb.serves_push obj hroom
        rcases hcall with rfl | rfl
        · obtain rfl : Condvar.condNotFull = c := Option.some.inj hop
          change freeSlots _ < freeSlots _
          omega
        · simp [condvar] at hop
    | handsOut hcall _ hsome =>
        obtain ⟨hlen, hfree⟩ := hb.serves_pop hsome
        rcases hcall with rfl | rfl
        · obtain rfl : Condvar.condNotEmpty = c := Option.some.inj hop
          change List.length _ < List.length _
          omega
        · simp [condvar] at hop
    | refuses hcall =>
        rcases hcall with ⟨⟨obj, rfl⟩, -⟩ | ⟨rfl, -⟩ <;> simp [condvar] at hop

variable [Fintype τ] [DecidableEq τ]

/-- Threads asleep in `syncGet`, not notified. -/
def getSleepers (s : System T τ) : ℕ := count (sleepsOn .condNotEmpty) s.status

def getWoken (s : System T τ) : ℕ := count (wokenOn .condNotEmpty) s.status

def putSleepers (s : System T τ) : ℕ := count (sleepsOn .condNotFull) s.status

def putWoken (s : System T τ) : ℕ := count (wokenOn .condNotFull) s.status

/-- While a `syncGet` is asleep there are no more elements than woken gets, and
while a `syncPut` is asleep no more free slots than woken puts.  So nobody is
left asleep next to work, and gets and puts are never all asleep together. -/
theorem no_lost_wakeup {size : ℕ} (hsize : 2 ≤ size) (buff : ℕ → T)
    {as : List (Action (Op T) τ)} {s : System T τ}
    (hrun : Transition.run (step body) (start (new size buff)) as = some s) :
    (∀ t op c, s.status t = .asleep op c ∨ s.status t = .woken op c →
      (op = .syncGet ∧ c = .condNotEmpty) ∨ ((∃ obj, op = .syncPut obj) ∧ c = .condNotFull)) ∧
      (0 < getSleepers s → s.shared.elements.length ≤ getWoken s) ∧
      (0 < putSleepers s → size - 1 - s.shared.elements.length ≤ putWoken s) ∧
      (0 < getSleepers s → getWoken s = 0 → s.shared.tail = s.shared.head) ∧
      (0 < putSleepers s → putWoken s = 0 → s.shared.next s.shared.head = s.shared.tail) ∧
      ¬ (0 < getSleepers s ∧ 0 < putSleepers s ∧ getWoken s = 0 ∧ putWoken s = 0) := by
  obtain ⟨hvalid, hwaiting, hattended⟩ :=
    run_attended accounting (valid_new (by omega : 1 ≤ size) buff) hrun
  have hsz := (runs_log (by omega) buff hrun).2.1
  have hfree := hvalid.freeSlots_add
  have hgets : 0 < getSleepers s → s.shared.elements.length ≤ getWoken s :=
    hattended .condNotEmpty
  have hputs : 0 < putSleepers s → s.shared.freeSlots ≤ putWoken s :=
    hattended .condNotFull
  refine ⟨?_, hgets, ?_, ?_, ?_, ?_⟩
  · intro t op c hst
    have hop := hwaiting t op c hst
    cases op with
    | syncPut obj => exact .inr ⟨⟨obj, rfl⟩, (Option.some.inj hop).symm⟩
    | asyncPut obj => simp [condvar] at hop
    | syncGet => exact .inl ⟨rfl, (Option.some.inj hop).symm⟩
    | asyncGet => simp [condvar] at hop
  · intro hpos
    rw [← hsz]
    exact hputs hpos
  · intro hpos hwoken
    have hle := hgets hpos
    rw [hvalid.empty_iff, ← List.length_eq_zero_iff]
    omega
  · intro hpos hwoken
    have hle := hputs hpos
    rw [hvalid.full_iff]
    omega
  · rintro ⟨hget, hput, hgetWoken, hputWoken⟩
    have hle := hgets hget
    have hle' := hputs hput
    omega

/-- Two gets sleep, and a put wakes one of them. -/
def threeThreads : List (Action (Op ℕ) (Fin 3)) :=
  [.call 0 .syncGet none, .call 1 .syncGet none, .call 2 (.syncPut 7) (some 0)]

/-- The get that sleeps on is left the element by a woken one, and when that has taken it
the buffer is empty. -/
theorem no_lost_wakeup_threeThreads :
    (∃ s : System ℕ (Fin 3),
      Transition.run (step body) (start (new 2 fun _ => 0)) threeThreads = some s ∧
      getSleepers s = 1 ∧ s.shared.elements = [7] ∧ s.shared.elements.length ≤ getWoken s) ∧
    ∃ s : System ℕ (Fin 3),
      Transition.run (step body) (start (new 2 fun _ => 0)) (threeThreads ++ [.resume 0 none]) =
        some s ∧
      getSleepers s = 1 ∧ getWoken s = 0 ∧ s.shared.tail = s.shared.head := by
  constructor
  · refine ⟨_, rfl, rfl, rfl, ?_⟩
    exact (@no_lost_wakeup ℕ (Fin 3) _ _ 2 (by decide) (fun _ => 0) threeThreads _
      rfl).2.1 (by decide)
  · refine ⟨_, rfl, rfl, rfl, ?_⟩
    exact (@no_lost_wakeup ℕ (Fin 3) _ _ 2 (by decide) (fun _ => 0)
      (threeThreads ++ [.resume 0 none]) _ rfl).2.2.2.1 (by decide) rfl

end Banana.ConcurrentRingBuffer
