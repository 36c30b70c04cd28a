import Banana.Network.LibeventReactor

/-!
# Which handler runs

The slot of an fd and a direction is the fold of the operations on it, so what
runs when its event fires can be read from the calls: the callback of the last
`addEventHandler` for the slot, if since then it has been neither run nor
removed.  In between there are calls of `enableEvent` and `disableEvent` only.
-/

namespace Banana.LibeventReactor

open Transition

variable {Cb : Type*}

def slotOps (fd : ℤ) (d : Direction) (as : List (Action Cb)) : List (SlotOp Cb) :=
  as.filterMap (slotOp fd d)

def foldSlot (ops : List (SlotOp Cb)) : EventSlot Cb := ops.foldl SlotOp.apply .empty

theorem foldSlot_concat (ops : List (SlotOp Cb)) (op : SlotOp Cb) :
    foldSlot (ops ++ [op]) = op.apply (foldSlot ops) := List.foldl_concat _ _ _ _

theorem slotOps_append (fd : ℤ) (d : Direction) (as bs : List (Action Cb)) :
    slotOps fd d (as ++ bs) = slotOps fd d as ++ slotOps fd d bs := List.filterMap_append

/-- The table is the product of its slots. -/
theorem slots_of_run {maxFds : ℕ} {as : List (Action Cb)} {l : Loop Cb}
    (hrun : run Loop.step (Loop.start maxFds) as = some l) (fd : ℤ) (d : Direction) :
    l.reactor.slots fd d = foldSlot (slotOps fd d as) := by
  induction as using List.reverseRecOn generalizing l with
  | nil => exact Option.some.inj hrun ▸ rfl
  | append_singleton as a ih =>
      obtain ⟨l', hbefore, hstep⟩ := run_concat_eq_some.mp hrun
      rw [slots_of_step hstep, ih hbefore, slotOps_append]
      cases hop : slotOp fd d a with
      | none => simp [slotOps, hop]
      | some op =>
          have hlast : slotOps fd d [a] = [op] := by simp [slotOps, hop]
          rw [hlast, foldSlot_concat, Option.elim_some]

/-! ## The history of a slot -/

/-- The operations that leave a handler in the table. -/
def SlotOp.Keeps : SlotOp Cb → Prop
  | .enable => True
  | .disable => True
  | _ => False

theorem exists_add_of_callback {ops : List (SlotOp Cb)} {cb : Cb}
    (hevent : (foldSlot ops).event ≠ none) (hcb : (foldSlot ops).callback = some cb) :
    ∃ before after, ops = before ++ .add (some cb) :: after ∧ ∀ op ∈ after, op.Keeps := by
  induction ops using List.reverseRecOn with
  | nil => exact absurd rfl hevent
  | append_singleton ops op ih =>
      rw [foldSlot_concat] at hevent hcb
      have hkeeps : op.Keeps → (foldSlot ops).event ≠ none → (foldSlot ops).callback = some cb →
          ∃ before after, ops ++ [op] = before ++ .add (some cb) :: after ∧
            ∀ op ∈ after, op.Keeps := by
        intro hop hevent' hcb'
        obtain ⟨before, after, hops, hafter⟩ := ih hevent' hcb'
        refine ⟨before, after ++ [op], by simp [hops], fun op' hop' => ?_⟩
        rcases List.mem_append.mp hop' with hop' | hop'
        · exact hafter op' hop'
        · rw [List.mem_singleton.mp hop']
          exact hop
      cases op with
      | add cb' =>
          obtain rfl : cb' = some cb := hcb
          exact ⟨ops, [], rfl, by simp⟩
      | enable => exact hkeeps trivial (by simpa [SlotOp.apply, EventSlot.enable] using hevent) hcb
      | disable =>
          exact hkeeps trivial (by simpa [SlotOp.apply, EventSlot.disable] using hevent) hcb
      | remove => exact absurd rfl hevent
      | fire => simp [SlotOp.apply, EventSlot.fire] at hcb

/-- A slot without an event object stays so until a handler is added. -/
theorem event_eq_none_of_remove {before after : List (SlotOp Cb)}
    (hafter : ∀ op ∈ after, ∀ cb, op ≠ .add cb) :
    (foldSlot (before ++ .remove :: after)).event = none := by
  induction after using List.reverseRecOn with
  | nil =>
      rw [foldSlot_concat]
      rfl
  | append_singleton after op ih =>
      have hnone := ih fun op' hop' => hafter op' (List.mem_append_left _ hop')
      rw [← List.cons_append, ← List.append_assoc, foldSlot_concat]
      cases op with
      | add cb => exact absurd rfl (hafter (.add cb) (by simp) cb)
      | remove => rfl
      | _ => simp [SlotOp.apply, EventSlot.enable, EventSlot.disable, EventSlot.fire, hnone]

/-! ## The history of the calls -/

/-- The call leaves the handler of the slot in the table. -/
def KeepsHandler (fd : ℤ) (d : Direction) (a : Action Cb) : Prop :=
  ∀ op, slotOp fd d a = some op → op.Keeps

theorem eq_add_of_slotOp {fd : ℤ} {d : Direction} {a : Action Cb} {cb : Option Cb}
    (h : slotOp fd d a = some (.add cb)) :
    ∃ events, a = .addEventHandler fd events cb ∧ Wants events d := by
  cases a with
  | addEventHandler fd' events cb' =>
      simp only [slotOp, Option.ite_none_right_eq_some, Option.some.injEq,
        SlotOp.add.injEq] at h
      obtain ⟨⟨rfl, hwants⟩, rfl⟩ := h
      exact ⟨events, rfl, hwants⟩
  | _ => simp [slotOp] at h

theorem exists_addEventHandler {maxFds : ℕ} {as : List (Action Cb)} {l : Loop Cb} {fd : ℤ}
    {d : Direction} {cb : Cb} (hrun : run Loop.step (Loop.start maxFds) as = some l)
    (hevent : (l.reactor.slots fd d).event = some true)
    (hcb : (l.reactor.slots fd d).callback = some cb) :
    ∃ pre events post, as = pre ++ .addEventHandler fd events (some cb) :: post ∧
      Wants events d ∧ ∀ a ∈ post, KeepsHandler fd d a := by
  rw [slots_of_run hrun] at hevent hcb
  obtain ⟨before, after, hops, hafter⟩ := exists_add_of_callback (by simp [hevent]) hcb
  obtain ⟨pre, rest, rfl, -, hrest⟩ := List.filterMap_eq_append_iff.mp hops
  obtain ⟨quiet, a, post, rfl, hquiet, ha, hpost⟩ := List.filterMap_eq_cons_iff.mp hrest
  obtain ⟨events, rfl, hwants⟩ := eq_add_of_slotOp ha
  refine ⟨pre ++ quiet, events, post, by simp, hwants, fun b hb op hop => ?_⟩
  apply hafter
  rw [← hpost]
  exact List.mem_filterMap.mpr ⟨b, hb, hop⟩

/-- What `onEvent` runs is in the table before it. -/
theorem running_of_onEvent {l l' : Loop Cb} {fd : ℤ} {d : Direction} {out : ℤ × Direction × Cb}
    (h : l.step (.onEvent fd d) = some l') (hout : l'.running = some out) :
    ∃ cb, out = (fd, d, cb) ∧ (l.reactor.slots fd d).event = some true ∧
      (l.reactor.slots fd d).callback = some cb := by
  simp only [Loop.step, Option.ite_none_right_eq_some] at h
  obtain ⟨⟨-, -, hevent⟩, h⟩ := h
  cases hcb : (l.reactor.slots fd d).callback with
  | none =>
      rw [hcb] at h
      rw [← Option.some.inj h] at hout
      simp at hout
  | some cb =>
      rw [hcb] at h
      rw [← Option.some.inj h] at hout
      exact ⟨cb, (Option.some.inj hout).symm, hevent, rfl⟩

/-- An idle loop runs the callback of a pending event, and the event is not pending any
more. -/
theorem onEvent_of_pending {l : Loop Cb} {fd : ℤ} {d : Direction} {cb : Cb}
    (hok : l.failed = false) (hidle : l.running = none)
    (hslot : l.reactor.slots fd d = ⟨some true, some cb⟩) :
    ∃ l', l.step (.onEvent fd d) = some l' ∧ l'.running = some (fd, d, cb) ∧
      l'.reactor.slots fd d = ⟨some false, none⟩ := by
  have hstep : l.step (.onEvent fd d) = some
      ⟨l.reactor.setSlot fd d (l.reactor.slots fd d).fire, some (fd, d, cb), false⟩ := by
    simp [Loop.step, hok, hidle, hslot]
  refine ⟨_, hstep, rfl, ?_⟩
  rw [setSlot_slots, if_pos ⟨rfl, rfl⟩, hslot]
  rfl

/-- The last handler that was added stands behind every time its slot has fired. -/
theorem split_after_fire {before mid pre post : List (Action Cb)} {fd : ℤ} {d : Direction}
    {a : Action Cb} (hne : a ≠ .onEvent fd d)
    (hsplit : before ++ .onEvent fd d :: mid = pre ++ a :: post)
    (hpost : ∀ b ∈ post, KeepsHandler fd d b) : ∃ pre', mid = pre' ++ a :: post := by
  have hfire : .onEvent fd d ∉ post := by
    intro hmem
    have hkeeps := hpost _ hmem .fire (by simp [slotOp])
    exact hkeeps
  rcases List.append_eq_append_iff.mp hsplit with ⟨rest, rfl, hrest⟩ | ⟨rest, rfl, hrest⟩
  · cases rest with
    | nil =>
        rw [List.nil_append, List.cons.injEq] at hrest
        exact absurd hrest.1.symm hne
    | cons b rest =>
        rw [List.cons_append, List.cons.injEq] at hrest
        exact ⟨rest, hrest.2⟩
  · cases rest with
    | nil =>
        rw [List.nil_append, List.cons.injEq] at hrest
        exact absurd hrest.1 hne
    | cons b rest =>
        rw [List.cons_append, List.cons.injEq] at hrest
        exact absurd (hrest.2 ▸ by simp) hfire

/-- What runs is the handler that was added last and neither run nor removed
since; a handler runs once; it stays in the table until it is; a slot whose
handler was removed does not fire; a pending event with a callback runs it and stops
pending; and no call changes another slot. -/
theorem runs_latest_handler {maxFds : ℕ} {as : List (Action Cb)} {l : Loop Cb}
    (hrun : run Loop.step (Loop.start maxFds) as = some l) :
    (∀ fd d l' out, l.step (.onEvent fd d) = some l' → l'.running = some out →
      ∃ cb, out = (fd, d, cb) ∧
        (∃ pre events post, as = pre ++ .addEventHandler fd events (some cb) :: post ∧
          Wants events d ∧ ∀ a ∈ post, KeepsHandler fd d a) ∧
        ∀ before mid, as = before ++ .onEvent fd d :: mid →
          ∃ pre events post, mid = pre ++ .addEventHandler fd events (some cb) :: post ∧
            Wants events d) ∧
      (∀ pre fd events cb post d, as = pre ++ .addEventHandler fd events cb :: post →
        Wants events d → (∀ a ∈ post, slotOp fd d a = none) →
        l.reactor.slots fd d = ⟨some true, cb⟩) ∧
      (∀ pre fd events post d, as = pre ++ .removeEventHandler fd events :: post →
        Wants events d → (∀ a ∈ post, ∀ cb, slotOp fd d a ≠ some (.add cb)) →
        (l.reactor.slots fd d).event = none ∧ l.step (.onEvent fd d) = none) ∧
      (∀ fd d cb, l.failed = false → l.running = none →
        l.reactor.slots fd d = ⟨some true, some cb⟩ →
        ∃ l', l.step (.onEvent fd d) = some l' ∧ l'.running = some (fd, d, cb) ∧
          l'.reactor.slots fd d = ⟨some false, none⟩) ∧
      ∀ a l' fd d, l.step a = some l' → slotOp fd d a = none →
        l'.reactor.slots fd d = l.reactor.slots fd d := by
  refine ⟨?_, ?_, ?_, fun _ _ _ => onEvent_of_pending, ?_⟩
  · intro fd d l' out hstep hout
    obtain ⟨cb, rfl, hevent, hcb⟩ := running_of_onEvent hstep hout
    obtain ⟨pre, events, post, hsplit, hwants, hpost⟩ := exists_addEventHandler hrun hevent hcb
    refine ⟨cb, rfl, ⟨pre, events, post, hsplit, hwants, hpost⟩, fun before mid hfire => ?_⟩
    rw [hfire] at hsplit
    obtain ⟨pre', hmid⟩ := split_after_fire (by simp) hsplit hpost
    exact ⟨pre', events, post, hmid, hwants⟩
  · intro pre fd events cb post d hsplit hwants hpost
    have hquiet : slotOps fd d post = [] := List.filterMap_eq_nil_iff.mpr hpost
    have hadd : slotOps fd d [.addEventHandler fd events cb] = [.add cb] := by
      simp [slotOps, slotOp, hwants]
    rw [slots_of_run hrun, hsplit, ← List.singleton_append, slotOps_append, slotOps_append,
      hquiet, hadd, List.append_nil, foldSlot_concat]
    rfl
  · intro pre fd events post d hsplit hwants hpost
    have hremove : slotOps fd d [(.removeEventHandler fd events : Action Cb)] = [.remove] := by
      simp [slotOps, slotOp, hwants]
    have hafter : ∀ op ∈ slotOps fd d post, ∀ cb, op ≠ .add cb := by
      rintro op hop cb rfl
      obtain ⟨a, ha, hadd⟩ := List.mem_filterMap.mp hop
      exact hpost a ha cb hadd
    have hnone : (l.reactor.slots fd d).event = none := by
      rw [slots_of_run hrun, hsplit, ← List.singleton_append, slotOps_append, slotOps_append,
        hremove]
      exact event_eq_none_of_remove hafter
    exact ⟨hnone, by simp [Loop.step, hnone]⟩
  · intro a l' fd d hstep hquiet
    rw [slots_of_step hstep, hquiet]
    rfl

/-- The second handler is registered when the callback of the first returns, and the next
event runs it. -/
theorem runs_latest_handler_addedAgain :
    ∃ l : Loop ℕ, run Loop.step (Loop.start 60000) (addedAgain.take 4) = some l ∧
      l.reactor.slots 5 .read = ⟨some true, some 2⟩ ∧
      ∃ l', l.step (.onEvent 5 .read) = some l' ∧ l'.running = some (5, .read, 2) ∧
        l'.reactor.slots 5 .read = ⟨some false, none⟩ := by
  obtain ⟨l, hrun, hok, hidle⟩ : ∃ l, run Loop.step (Loop.start 60000) (addedAgain.take 4) =
      some l ∧ l.failed = false ∧ l.running = none := ⟨_, rfl, rfl, rfl⟩
  obtain ⟨-, hstays, -, hruns, -⟩ := runs_latest_handler hrun
  have hslot := hstays [.addEventHandler 5 eventRead (some 1), .onEvent 5 .read] 5 eventRead
    (some 2) [.returns] .read rfl (by decide) (by simp [slotOp])
  exact ⟨l, hrun, hslot, hruns 5 .read 2 hok hidle hslot⟩

end Banana.LibeventReactor
