import Banana.Network.LibeventReactor
import Mathlib.Data.List.Count

/-!
# Who releases what a reactor owns

The pointers of a `LibeventRector`, with a log of what is allocated, used and
released.  `__stop` calls `destroyReactor` while connections may still be there:
each `Stream` calls `removeEventHandler` when it is destroyed, and the destructor of
the reactor calls `destroyReactor` once more.

`destroyReactor` sets two of its four pointers to null.  A table that was deleted
reads as its destructor left it.  Descriptors are inside the table here.
-/

namespace Banana.ReactorRelease

open LibeventReactor Transition

/-- An object that libevent made on a base. -/
structure Made where
  id : ℕ
  base : ℕ
  deriving DecidableEq

inductive Resource
  | base (id : ℕ)
  | listener (made : Made)
  | acceptCallback (id : ℕ)
  | table (id : ℕ)
  | event (made : Made)
  deriving DecidableEq

inductive Access
  | alloc (r : Resource)
  | use (r : Resource)
  | release (r : Resource)
  deriving DecidableEq

/-- The fields of the class, the bundles of its table, and the log. -/
structure LibeventRector where
  pBase : Option ℕ
  pListener : Option Made
  pAcceptCallback : Option ℕ
  pEventBundleMap : Option ℕ
  maxFds : ℕ
  pEvent : ℕ → Direction → Option Made
  allocated : ℕ
  log : List Access

namespace LibeventRector

def new : LibeventRector := ⟨none, none, none, none, 0, fun _ _ => none, 0, []⟩

def note (x : LibeventRector) (as : List Access) : LibeventRector := { x with log := x.log ++ as }

def setEvent (x : LibeventRector) (fd : ℕ) (d : Direction) (e : Option Made) : LibeventRector :=
  { x with pEvent := Function.update x.pEvent fd (Function.update (x.pEvent fd) d e) }

def initReactor (x : LibeventRector) (baseNew : Bool) (maxFds : ℕ) : Bool × LibeventRector :=
  if baseNew then
    (true, { x with
      pBase := some x.allocated
      pEventBundleMap := some (x.allocated + 1)
      maxFds := maxFds
      pEvent := fun _ _ => none
      allocated := x.allocated + 2
      log := x.log ++ [.alloc (.base x.allocated), .alloc (.table (x.allocated + 1))] })
  else (false, { x with pBase := none })

/-! ## What destroyReactor does -/

/-- What the destructor of one bundle frees. -/
def bundleEvents (x : LibeventRector) (fd : ℕ) : List Made :=
  (x.pEvent fd .write).toList ++ (x.pEvent fd .read).toList

def tableEvents (x : LibeventRector) : List Made :=
  (List.range x.maxFds).reverse.flatMap x.bundleEvents

/-- The base is `b`. -/
def addAccept (x : LibeventRector) (b : ℕ) (lib : Libevent) (events : BitVec 16) :
    Bool × LibeventRector :=
  if events &&& eventAccept ≠ 0 ∧ x.pAcceptCallback = none then
    let c := x.allocated
    let x : LibeventRector := { x with
      pAcceptCallback := some c
      allocated := x.allocated + 1
      log := x.log ++ [.alloc (.acceptCallback c), .use (.base b)] }
    if lib.listenerNew then
      let l : Made := ⟨x.allocated, b⟩
      (true, { x with
        pListener := some l
        allocated := x.allocated + 1
        log := x.log ++ [.alloc (.listener l)] })
    else (false, { x with pListener := none })
  else (true, x)

/-- The table is `t`. -/
def addDirection (x : LibeventRector) (b t : ℕ) (lib : Libevent) (d : Direction) (fd : ℕ)
    (events : BitVec 16) : Bool × LibeventRector :=
  if Wants events d then
    let x := x.note [.use (.table t)]
    match x.pEvent fd d with
    | some e => (lib.eventAdd d, x.note [.use (.event e)])
    | none =>
        if lib.eventNew d then
          let e : Made := ⟨x.allocated, b⟩
          let x : LibeventRector := { x with
            allocated := x.allocated + 1
            log := x.log ++ [.use (.base b), .alloc (.event e), .use (.event e)] }
          (lib.eventAdd d, x.setEvent fd d (some e))
        else (false, x.note [.use (.base b)])
  else (true, x)

def addEventHandler (x : LibeventRector) (b t : ℕ) (lib : Libevent) (fd : ℕ)
    (events : BitVec 16) : Bool × LibeventRector :=
  match x.addAccept b lib events with
  | (false, x) => (false, x)
  | (true, x) =>
      match x.addDirection b t lib .read fd events with
      | (false, x) => (false, x)
      | (true, x) => x.addDirection b t lib .write fd events

/-- `event_add` or `event_del` on the event of a bundle, if there is one. -/
def useEvent (x : LibeventRector) (t : ℕ) (fd : ℕ) (events : BitVec 16) (d : Direction) :
    LibeventRector :=
  if Wants events d then
    match x.pEvent fd d with
    | some e => x.note [.use (.table t), .use (.event e)]
    | none => x.note [.use (.table t)]
  else x

def enableEvent (x : LibeventRector) (t : ℕ) (fd : ℕ) (events : BitVec 16) : LibeventRector :=
  (x.useEvent t fd events .write).useEvent t fd events .read

def disableEvent (x : LibeventRector) (t : ℕ) (fd : ℕ) (events : BitVec 16) : LibeventRector :=
  (x.useEvent t fd events .read).useEvent t fd events .write

def removeEvent (x : LibeventRector) (t : ℕ) (fd : ℕ) (events : BitVec 16) (d : Direction) :
    LibeventRector :=
  if Wants events d then
    match x.pEvent fd d with
    | some e =>
        (x.note [.use (.table t), .use (.event e), .release (.event e)]).setEvent fd d none
    | none => x.note [.use (.table t)]
  else x

def removeEventHandler (x : LibeventRector) (t : ℕ) (fd : ℕ) (events : BitVec 16) :
    LibeventRector :=
  (x.removeEvent t fd events .read).removeEvent t fd events .write

end LibeventRector

/-- `onAccept` and `onEvent` are the callbacks that libevent invokes. -/
inductive Op
  | initReactor (baseNew : Bool) (maxFds : ℕ)
  | addEventHandler (lib : Libevent) (fd : ℕ) (events : BitVec 16)
  | enableEvent (fd : ℕ) (events : BitVec 16)
  | disableEvent (fd : ℕ) (events : BitVec 16)
  | removeEventHandler (fd : ℕ) (events : BitVec 16)
  | onAccept
  | onEvent (fd : ℕ) (d : Direction)

open LibeventRector

def step (x : LibeventRector) : Op → Option LibeventRector
  | .initReactor baseNew maxFds => some (x.initReactor baseNew maxFds).2
  | .addEventHandler lib fd events =>
      match x.pBase, x.pEventBundleMap with
      | some b, some t =>
          if fd < x.maxFds then some (x.addEventHandler b t lib fd events).2 else none
      | _, _ => none
  | .enableEvent fd events =>
      match x.pEventBundleMap with
      | some t => if fd < x.maxFds then some (x.enableEvent t fd events) else none
      | none => none
  | .disableEvent fd events =>
      match x.pEventBundleMap with
      | some t => if fd < x.maxFds then some (x.disableEvent t fd events) else none
      | none => none
  | .removeEventHandler fd events =>
      match x.pEventBundleMap with
      | some t => if fd < x.maxFds then some (x.removeEventHandler t fd events) else none
      | none => none
  | .onAccept =>
      match x.pListener, x.pAcceptCallback with
      | some _, some c => some (x.note [.use (.acceptCallback c)])
      | _, _ => none
  | .onEvent fd d =>
      match x.pEventBundleMap, x.pEvent fd d with
      | some t, some _ => some (x.note [.use (.table t)])
      | _, _ => none

/-- What the destructor of a `Stream` does with its reactor. -/
def streamDestructor (fd : ℕ) : List Op :=
  if 0 < fd then [.removeEventHandler fd eventRead, .removeEventHandler fd eventWrite] else []

/-- The pointers are those of the reactor of `LibeventReactor`. -/
structure Sees {Cb : Type*} (x : LibeventRector) (r : Reactor Cb) : Prop where
  acceptCallback : r.acceptCallback = none ↔ x.pAcceptCallback = none
  listener : r.listener = x.pListener.isSome
  event : ∀ (fd : ℕ) d, (r.slots fd d).event = none ↔ x.pEvent fd d = none

section Sees

variable {Cb : Type*} {x y : LibeventRector} {r : Reactor Cb}

theorem Sees.note (h : Sees x r) (as : List Access) : Sees (x.note as) r :=
  ⟨h.acceptCallback, h.listener, h.event⟩

theorem setEvent_pEvent (x : LibeventRector) (fd : ℕ) (d : Direction) (e : Option Made)
    (fd' : ℕ) (d' : Direction) :
    (x.setEvent fd d e).pEvent fd' d' = if fd' = fd ∧ d' = d then e else x.pEvent fd' d' := by
  unfold setEvent
  by_cases hfd : fd' = fd
  · subst hfd
    by_cases hd : d' = d
    · subst hd
      simp
    · simp [hd]
  · simp [hfd]

theorem Sees.setEvent (h : Sees x r) {fd : ℕ} {d : Direction} {e : Option Made}
    {slot : EventSlot Cb} (hnone : slot.event = none ↔ e = none) :
    Sees (x.setEvent fd d e) (r.setSlot fd d slot) := by
  refine ⟨h.acceptCallback, h.listener, fun fd' d' => ?_⟩
  rw [setSlot_slots, setEvent_pEvent]
  simp only [Int.natCast_inj]
  split_ifs
  · exact hnone
  · exact h.event fd' d'

/-- The slot of a direction is written, and its event stays or stays away. -/
theorem Sees.setSlot (h : Sees x r) {fd : ℕ} {d : Direction} {slot : EventSlot Cb}
    (hnone : slot.event = none ↔ x.pEvent fd d = none) : Sees x (r.setSlot fd d slot) := by
  refine ⟨h.acceptCallback, h.listener, fun fd' d' => ?_⟩
  rw [setSlot_slots]
  simp only [Int.natCast_inj]
  split_ifs with hsame
  · rw [hsame.1, hsame.2]
    exact hnone
  · exact h.event fd' d'

theorem Sees.addAccept (h : Sees x r) (b : ℕ) (lib : Libevent) (events : BitVec 16)
    (cb : Option Cb) :
    (x.addAccept b lib events).1 = (r.addAccept lib events cb).1 ∧
      Sees (x.addAccept b lib events).2 (r.addAccept lib events cb).2 := by
  unfold LibeventRector.addAccept Reactor.addAccept
  simp only [h.acceptCallback]
  split_ifs with hwants hnew
  · exact ⟨hnew.symm, iff_of_false nofun nofun, hnew, h.event⟩
  · have hfalse := Bool.eq_false_of_not_eq_true hnew
    exact ⟨hfalse.symm, iff_of_false nofun nofun, hfalse, h.event⟩
  · exact ⟨rfl, h⟩

theorem Sees.addDirection (h : Sees x r) (b t : ℕ) (lib : Libevent) (d : Direction) (fd : ℕ)
    (events : BitVec 16) (cb : Option Cb) :
    (x.addDirection b t lib d fd events).1 = (r.addDirection lib d fd events cb).1 ∧
      Sees (x.addDirection b t lib d fd events).2 (r.addDirection lib d fd events cb).2 := by
  unfold LibeventRector.addDirection Reactor.addDirection
  by_cases hwants : Wants events d
  · rw [if_pos hwants, if_pos hwants, EventSlot.add]
    have hevent := h.event fd d
    dsimp only [LibeventRector.note]
    cases hp : x.pEvent fd d with
    | some e =>
        cases hslot : (r.slots fd d).event with
        | none => exact absurd (hevent.mp hslot) (by simp [hp])
        | some pending =>
            have hsome : x.pEvent fd d ≠ none := by simp [hp]
            cases lib.eventAdd d with
            | true => exact ⟨rfl, ((h.note _).note _).setSlot (iff_of_false nofun hsome)⟩
            | false => exact ⟨rfl, ((h.note _).note _).setSlot hevent⟩
    | none =>
        rw [hevent.mpr hp]
        cases lib.eventNew d with
        | false => exact ⟨rfl, ((h.note _).note _).setSlot hevent⟩
        | true =>
            have hmade (as : List Access) :
                Sees { x with allocated := x.allocated + 1, log := as } r :=
              ⟨h.acceptCallback, h.listener, h.event⟩
            cases lib.eventAdd d with
            | true => exact ⟨rfl, (hmade _).setEvent (iff_of_false nofun nofun)⟩
            | false => exact ⟨rfl, (hmade _).setEvent (iff_of_false nofun nofun)⟩
  · rw [if_neg hwants, if_neg hwants]
    exact ⟨rfl, h⟩

theorem Sees.addEventHandler (h : Sees x r) (b t : ℕ) (lib : Libevent) (fd : ℕ)
    (events : BitVec 16) (cb : Option Cb) :
    (x.addEventHandler b t lib fd events).1 = (r.addEventHandler lib fd events cb).1 ∧
      Sees (x.addEventHandler b t lib fd events).2 (r.addEventHandler lib fd events cb).2 := by
  unfold LibeventRector.addEventHandler Reactor.addEventHandler
  obtain ⟨hok, hsees⟩ := h.addAccept b lib events cb
  generalize x.addAccept b lib events = out at hok hsees ⊢
  generalize r.addAccept lib events cb = out' at hok hsees ⊢
  obtain ⟨ok, x'⟩ := out
  obtain ⟨ok', r'⟩ := out'
  dsimp only at hok hsees
  subst hok
  cases ok with
  | false => exact ⟨rfl, hsees⟩
  | true =>
      dsimp only
      obtain ⟨hok, hsees⟩ := hsees.addDirection b t lib .read fd events cb
      generalize x'.addDirection b t lib .read fd events = out at hok hsees ⊢
      generalize r'.addDirection lib .read fd events cb = out' at hok hsees ⊢
      obtain ⟨ok, x''⟩ := out
      obtain ⟨ok', r''⟩ := out'
      dsimp only at hok hsees
      subst hok
      cases ok with
      | false => exact ⟨rfl, hsees⟩
      | true => exact hsees.addDirection b t lib .write fd events cb

theorem Sees.useEvent (h : Sees x r) (t fd : ℕ) (events : BitVec 16) (d : Direction) :
    Sees (x.useEvent t fd events d) r := by
  unfold LibeventRector.useEvent
  split_ifs
  · cases x.pEvent fd d with
    | some e => exact h.note _
    | none => exact h.note _
  · exact h

theorem Sees.onWanted (h : Sees x r) {f : EventSlot Cb → EventSlot Cb}
    (hf : ∀ slot, (f slot).event = none ↔ slot.event = none) (fd : ℤ) (events : BitVec 16) :
    Sees x (Reactor.onWanted f r fd events) := by
  refine ⟨h.acceptCallback, h.listener, fun fd' d => ?_⟩
  dsimp only [Reactor.onWanted]
  split_ifs
  · exact (hf _).trans (h.event fd' d)
  · exact h.event fd' d

theorem removeEvent_pEvent (x : LibeventRector) (t fd : ℕ) (events : BitVec 16) (d : Direction)
    (fd' : ℕ) (d' : Direction) :
    (x.removeEvent t fd events d).pEvent fd' d' =
      if fd' = fd ∧ d' = d ∧ Wants events d then none else x.pEvent fd' d' := by
  unfold LibeventRector.removeEvent
  by_cases hwants : Wants events d
  · rw [if_pos hwants]
    cases hevent : x.pEvent fd d with
    | some e =>
        dsimp only
        rw [setEvent_pEvent]
        simp [hwants, LibeventRector.note]
    | none =>
        simp only [hwants, and_true, LibeventRector.note]
        split_ifs with hsame
        · rw [hsame.1, hsame.2, hevent]
        · rfl
  · rw [if_neg hwants, if_neg fun h => hwants h.2.2]

theorem Sees.removeEventHandler (h : Sees x r) (t fd : ℕ) (events : BitVec 16) :
    Sees (x.removeEventHandler t fd events) (r.removeEventHandler fd events) := by
  have hkept (x : LibeventRector) (d : Direction) :
      (x.removeEvent t fd events d).pAcceptCallback = x.pAcceptCallback ∧
        (x.removeEvent t fd events d).pListener = x.pListener := by
    unfold LibeventRector.removeEvent
    split_ifs
    · cases x.pEvent fd d with
      | some e => exact ⟨rfl, rfl⟩
      | none => exact ⟨rfl, rfl⟩
    · exact ⟨rfl, rfl⟩
  unfold LibeventRector.removeEventHandler
  refine ⟨?_, ?_, fun fd' d => ?_⟩
  · rw [(hkept _ _).1, (hkept _ _).1]
    exact h.acceptCallback
  · rw [(hkept _ _).2, (hkept _ _).2]
    exact h.listener
  · rw [removeEvent_pEvent, removeEvent_pEvent]
    have hevent := h.event fd' d
    simp only [Reactor.removeEventHandler, Reactor.onWanted, EventSlot.remove, Int.natCast_inj]
    by_cases hboth : fd' = fd ∧ Wants events d
    · rw [if_pos hboth]
      cases d with
      | read => simp [hboth]
      | write => simp [hboth]
    · have hneither (d' : Direction) : ¬ (fd' = fd ∧ d = d' ∧ Wants events d') := by
        rintro ⟨hfd, rfl, hwants⟩
        exact hboth ⟨hfd, hwants⟩
      rw [if_neg hboth, if_neg (hneither .write), if_neg (hneither .read)]
      exact hevent

end Sees

/-! ## The protocol -/

namespace LibeventRector

variable {x y : LibeventRector}

/-- What the reactor holds that libevent made on a base. -/
def held (x : LibeventRector) : List Resource :=
  x.pListener.toList.map .listener ++
    x.pEventBundleMap.toList.flatMap fun _ => x.tableEvents.map .event

/-- Nothing but the log, the listener, the accept callback and the bundles change, and
the base is not released. -/
structure Extends (x y : LibeventRector) : Prop where
  pBase : y.pBase = x.pBase
  pEventBundleMap : y.pEventBundleMap = x.pEventBundleMap
  log : ∃ as, y.log = x.log ++ as ∧ ∀ b, .release (.base b) ∉ as

theorem Extends.refl (x : LibeventRector) : Extends x x :=
  ⟨rfl, rfl, [], (List.append_nil _).symm, fun _ => List.not_mem_nil⟩

theorem Extends.trans {z : LibeventRector} (h : Extends x y) (h' : Extends y z) :
    Extends x z := by
  obtain ⟨as, has, hkeep⟩ := h.log
  obtain ⟨bs, hbs, hkeep'⟩ := h'.log
  refine ⟨h'.pBase.trans h.pBase, h'.pEventBundleMap.trans h.pEventBundleMap, as ++ bs, ?_, ?_⟩
  · rw [hbs, has, List.append_assoc]
  · exact fun b hb => (List.mem_append.mp hb).elim (hkeep b) (hkeep' b)

end LibeventRector

end Banana.ReactorRelease
