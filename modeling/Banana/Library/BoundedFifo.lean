import Mathlib.Data.List.Basic
import Mathlib.Tactic.Common

/-!
# The abstract bounded queue

What a bounded FIFO queue is for, without any representation: a list of at
most `cap` elements, put at the back and taken from the front.  `Runs`
follows a list of events and answers refusals only when the queue is full
or empty.  Whatever `Runs` accepts hands the elements out in the order in
which they came in.
-/

namespace BoundedFifo

variable {α : Type*} {cap : ℕ}

inductive Event (α : Type*)
  | put (a : α)
  | get (a : α)
  | putRefused
  | getRefused

inductive Step (cap : ℕ) : List α → Event α → List α → Prop
  | put (q : List α) (a : α) (hroom : q.length < cap) : Step cap q (.put a) (q ++ [a])
  | get (a : α) (q : List α) : Step cap (a :: q) (.get a) q
  | putRefused (q : List α) (hfull : q.length = cap) : Step cap q .putRefused q
  | getRefused : Step cap [] .getRefused []

/-- The queue follows the events, starting empty. -/
inductive Runs (cap : ℕ) : List (Event α) → List α → Prop
  | nil : Runs cap [] []
  | snoc (es : List (Event α)) (q : List α) (e : Event α) (r : List α)
      (hpast : Runs cap es q) (hstep : Step cap q e r) : Runs cap (es ++ [e]) r

def Event.stored : Event α → Option α
  | .put a => some a
  | _ => none

def Event.handedOut : Event α → Option α
  | .get a => some a
  | _ => none

def puts (es : List (Event α)) : List α := es.filterMap Event.stored

def gets (es : List (Event α)) : List α := es.filterMap Event.handedOut

@[simp] theorem puts_snoc (es : List (Event α)) (e : Event α) :
    puts (es ++ [e]) = puts es ++ e.stored.toList := by
  cases e <;> simp [puts, Event.stored]

@[simp] theorem gets_snoc (es : List (Event α)) (e : Event α) :
    gets (es ++ [e]) = gets es ++ e.handedOut.toList := by
  cases e <;> simp [gets, Event.handedOut]

theorem Step.length_le {q r : List α} {e : Event α} (h : Step cap q e r)
    (hq : q.length ≤ cap) : r.length ≤ cap := by
  cases h with
  | put q a hroom =>
      rw [List.length_append, List.length_singleton]
      omega
  | get a q =>
      rw [List.length_cons] at hq
      omega
  | putRefused q hfull => exact hq
  | getRefused => exact hq

theorem Step.conserves {q r : List α} {e : Event α} (h : Step cap q e r) :
    q ++ e.stored.toList = e.handedOut.toList ++ r := by
  cases h <;> simp [Event.stored, Event.handedOut]

theorem Runs.length_le {es : List (Event α)} {q : List α} (h : Runs cap es q) :
    q.length ≤ cap := by
  induction h with
  | nil => exact Nat.zero_le cap
  | snoc es q e r _ hstep ih => exact hstep.length_le ih

/-- First in, first out: what was put is what was taken, in the same order,
followed by what is still queued. -/
theorem Runs.puts_eq {es : List (Event α)} {q : List α} (h : Runs cap es q) :
    puts es = gets es ++ q := by
  induction h with
  | nil => rfl
  | snoc es q e r _ hstep ih =>
      rw [puts_snoc, gets_snoc, ih, List.append_assoc, List.append_assoc, hstep.conserves]

end BoundedFifo
