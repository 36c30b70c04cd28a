import Mathlib.Data.List.Basic
import Mathlib.Data.List.Induction
import Mathlib.Tactic.Common

/-!
# Streams read in segments

A reader of a stream is in a mode, and the mode says how many symbols the next
segment has.  When they are all there the segment is logged and the next mode
is computed from it; a mode that needs no symbols reads nothing any more.
`scan` takes the symbols one at a time.  A reader that takes them in pieces,
never more than the segment still needs, does the same by `scan_of_lt` and
`scan_of_eq`, so only the stream matters and not the pieces.
-/

namespace Segments

/-- How long the segment of a mode is, and which mode follows it. -/
structure Format (β μ : Type*) where
  need : μ → ℕ
  next : μ → List β → μ

@[ext] structure Reader (β μ : Type*) where
  mode : μ
  part : List β
  log : List (μ × List β)

variable {β μ : Type*}

namespace Reader

def start (m : μ) : Reader β μ := ⟨m, [], []⟩

end Reader

open Reader

variable (F : Format β μ)

def complete (R : Reader β μ) (segment : List β) : Reader β μ :=
  ⟨F.next R.mode segment, [], R.log ++ [(R.mode, segment)]⟩

def feed (R : Reader β μ) (b : β) : Reader β μ :=
  if F.need R.mode = 0 then R
  else if R.part.length + 1 < F.need R.mode then { R with part := R.part ++ [b] }
  else complete F R (R.part ++ [b])

def scan (R : Reader β μ) (bs : List β) : Reader β μ := bs.foldl (feed F) R

@[simp] theorem scan_nil (R : Reader β μ) : scan F R [] = R := rfl

theorem scan_append (R : Reader β μ) (bs cs : List β) :
    scan F R (bs ++ cs) = scan F (scan F R bs) cs := List.foldl_append

theorem scan_concat (R : Reader β μ) (bs : List β) (b : β) :
    scan F R (bs ++ [b]) = feed F (scan F R bs) b := scan_append F R bs [b]

variable {F}

theorem scan_of_lt {R : Reader β μ} {bs : List β}
    (hlt : R.part.length + bs.length < F.need R.mode) :
    scan F R bs = { R with part := R.part ++ bs } := by
  induction bs using List.reverseRecOn with
  | nil => rw [scan_nil, List.append_nil]
  | append_singleton bs b ih =>
      rw [List.length_append, List.length_singleton] at hlt
      have hopen : F.need R.mode ≠ 0 := by omega
      have hmore : (R.part ++ bs).length + 1 < F.need R.mode := by
        rw [List.length_append]
        omega
      rw [scan_concat, ih (by omega), feed, if_neg hopen, if_pos hmore, List.append_assoc]

theorem scan_of_eq {R : Reader β μ} {bs : List β} (hne : bs ≠ [])
    (heq : R.part.length + bs.length = F.need R.mode) :
    scan F R bs = complete F R (R.part ++ bs) := by
  obtain ⟨cs, b, rfl⟩ : ∃ cs b, bs = cs ++ [b] :=
    ⟨bs.dropLast, bs.getLast hne, (List.dropLast_append_getLast hne).symm⟩
  rw [List.length_append, List.length_singleton] at heq
  have hopen : F.need R.mode ≠ 0 := by omega
  have hfull : ¬ (R.part ++ cs).length + 1 < F.need R.mode := by
    rw [List.length_append]
    omega
  rw [scan_concat, scan_of_lt (by omega), feed, if_neg hopen, if_neg hfull, List.append_assoc,
    complete, complete]

theorem scan_of_not_hungry {R : Reader β μ} (hneed : F.need R.mode = 0) (bs : List β) :
    scan F R bs = R := by
  induction bs with
  | nil => rfl
  | cons b bs ih =>
      have hfeed : feed F R b = R := by rw [feed, if_pos hneed]
      rw [scan, List.foldl_cons, hfeed]
      exact ih

/-- One segment and then the rest of the stream. -/
theorem scan_segment {R : Reader β μ} {segment : List β} (hpart : R.part = [])
    (hne : segment ≠ []) (hlen : segment.length = F.need R.mode) (bs : List β) :
    scan F R (segment ++ bs) = scan F (complete F R segment) bs := by
  rw [scan_append, scan_of_eq hne (by rw [hpart, List.length_nil, Nat.zero_add, hlen]), hpart,
    List.nil_append]

theorem log_prefix_feed (R : Reader β μ) (b : β) : R.log <+: (feed F R b).log := by
  unfold feed complete
  split_ifs
  · exact List.prefix_rfl
  · exact List.prefix_rfl
  · exact List.prefix_append _ _

theorem log_prefix_scan (R : Reader β μ) (bs : List β) : R.log <+: (scan F R bs).log := by
  induction bs generalizing R with
  | nil => exact List.prefix_rfl
  | cons b bs ih => exact (log_prefix_feed R b).trans (ih (feed F R b))

/-- What has been logged after a part of the stream stays logged. -/
theorem log_mono (R : Reader β μ) {bs cs : List β} (hbs : bs <+: cs) :
    (scan F R bs).log <+: (scan F R cs).log := by
  obtain ⟨ds, rfl⟩ := hbs
  rw [scan_append]
  exact log_prefix_scan _ _

end Segments
