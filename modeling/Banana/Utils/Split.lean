import Mathlib.Data.List.Basic
import Mathlib.Tactic.Common

/-!
# Utils::split

`utils/Utils.cpp` splits a string by calling `std::getline` on a stream of it
until a call extracts nothing.  So a delimiter at the end makes no last empty
piece, and the pieces joined by delimiters are the string, up to that one.
But for that piece they are those of `List.splitOn`.
-/

namespace Banana.Utils

/-- `std::getline`: the characters before the next delimiter, which is taken off
the stream too, or all of them; it fails on a stream with nothing left. -/
def getline (delim : UInt8) : List UInt8 → Option (List UInt8 × List UInt8)
  | [] => none
  | ss => some (ss.takeWhile (· ≠ delim), (ss.dropWhile (· ≠ delim)).drop 1)

def splitLoop (delim : UInt8) : ℕ → List UInt8 → List (List UInt8)
  | 0, _ => []
  | fuel + 1, ss =>
      match getline delim ss with
      | none => []
      | some (tmpStr, rest) => tmpStr :: splitLoop delim fuel rest

/-- Every call of `getline` takes at least one character, so there are at most as
many calls that succeed as characters. -/
def split (str : List UInt8) (delim : UInt8) : List (List UInt8) :=
  splitLoop delim str.length str

/-- `split` as it is called: the pieces are put behind what `vecStr` holds already. -/
def emplaceLoop (delim : UInt8) :
    ℕ → List UInt8 → List (List UInt8) → List (List UInt8)
  | 0, _, vecStr => vecStr
  | fuel + 1, ss, vecStr =>
      match getline delim ss with
      | none => vecStr
      | some (tmpStr, rest) => emplaceLoop delim fuel rest (vecStr ++ [tmpStr])

def splitInto (str : List UInt8) (vecStr : List (List UInt8)) (delim : UInt8) :
    Bool × List (List UInt8) :=
  (true, emplaceLoop delim str.length str vecStr)

theorem emplaceLoop_eq (delim : UInt8) (fuel : ℕ) (ss : List UInt8)
    (vecStr : List (List UInt8)) :
    emplaceLoop delim fuel ss vecStr = vecStr ++ splitLoop delim fuel ss := by
  induction fuel generalizing ss vecStr with
  | zero => exact (List.append_nil vecStr).symm
  | succ fuel ih =>
      cases hline : getline delim ss with
      | none => simp [emplaceLoop, splitLoop, hline]
      | some out =>
          obtain ⟨tmpStr, rest⟩ := out
          simp only [emplaceLoop, splitLoop, hline]
          rw [ih, List.append_assoc, List.singleton_append]

theorem splitInto_eq (str : List UInt8) (vecStr : List (List UInt8)) (delim : UInt8) :
    splitInto str vecStr delim = (true, vecStr ++ split str delim) := by
  rw [splitInto, emplaceLoop_eq, split]

theorem getline_length_lt {delim : UInt8} {ss tmpStr rest : List UInt8}
    (h : getline delim ss = some (tmpStr, rest)) : rest.length < ss.length := by
  cases ss with
  | nil => simp [getline] at h
  | cons c cs =>
      obtain ⟨-, rfl⟩ : (c :: cs).takeWhile (· ≠ delim) = tmpStr ∧
          ((c :: cs).dropWhile (· ≠ delim)).drop 1 = rest := by
        simpa only [getline, Option.some.injEq, Prod.mk.injEq] using h
      have hle := ((c :: cs).dropWhile_suffix (· ≠ delim)).length_le
      rw [List.length_drop, List.length_cons]
      rw [List.length_cons] at hle
      omega

theorem splitLoop_of_le (delim : UInt8) {fuel : ℕ} {ss : List UInt8}
    (hfuel : ss.length ≤ fuel) : splitLoop delim fuel ss = split ss delim := by
  suffices h : ∀ fuel fuel' (ss : List UInt8), ss.length ≤ fuel → ss.length ≤ fuel' →
      splitLoop delim fuel ss = splitLoop delim fuel' ss from h _ _ ss hfuel (Nat.le_refl _)
  intro fuel
  induction fuel with
  | zero =>
      intro fuel' ss hss _
      obtain rfl : ss = [] := List.length_eq_zero_iff.mp (by omega)
      cases fuel' <;> rfl
  | succ fuel ih =>
      intro fuel' ss hss hss'
      cases hline : getline delim ss with
      | none => cases fuel' <;> simp [splitLoop, hline]
      | some out =>
          obtain ⟨tmpStr, rest⟩ := out
          have hlt := getline_length_lt hline
          cases fuel' with
          | zero => omega
          | succ fuel' =>
              simp only [splitLoop, hline]
              rw [ih fuel' rest (by omega) (by omega)]

theorem split_eq (str : List UInt8) (delim : UInt8) :
    split str delim =
      match getline delim str with
      | none => []
      | some (tmpStr, rest) => tmpStr :: split rest delim := by
  cases hline : getline delim str with
  | none =>
      cases str with
      | nil => rfl
      | cons c cs => simp [getline] at hline
  | some out =>
      obtain ⟨tmpStr, rest⟩ := out
      have hlt := getline_length_lt hline
      rw [← splitLoop_of_le delim (Nat.le_succ str.length), splitLoop, hline]
      simp only
      rw [splitLoop_of_le delim (Nat.le_of_lt hlt)]

theorem split_eq_nil_iff (str : List UInt8) (delim : UInt8) : split str delim = [] ↔ str = [] := by
  cases str with
  | nil => simp [split, splitLoop]
  | cons c cs => simp [split, splitLoop, getline]

/-! ## Splitting and joining -/

theorem decide_ne_of_notMem {delim : UInt8} {piece : List UInt8} (hnot : delim ∉ piece) :
    ∀ c ∈ piece, decide (c ≠ delim) = true := by
  intro c hc
  rw [decide_eq_true_iff]
  rintro rfl
  exact hnot hc

theorem getline_append_cons {delim : UInt8} {piece : List UInt8} (hnot : delim ∉ piece)
    (rest : List UInt8) : getline delim (piece ++ delim :: rest) = some (piece, rest) := by
  have hall := decide_ne_of_notMem hnot
  have htake : (piece ++ delim :: rest).takeWhile (· ≠ delim) = piece := by
    rw [List.takeWhile_append_of_pos hall, List.takeWhile_cons_of_neg (by simp), List.append_nil]
  have hdrop : (piece ++ delim :: rest).dropWhile (· ≠ delim) = delim :: rest := by
    rw [List.dropWhile_append_of_pos hall, List.dropWhile_cons_of_neg (by simp)]
  obtain ⟨c, cs, hcs⟩ : ∃ c cs, piece ++ delim :: rest = c :: cs :=
    List.exists_cons_of_ne_nil (by simp)
  rw [hcs] at htake hdrop ⊢
  simp only [getline, htake, hdrop, List.drop_succ_cons, List.drop_zero]

theorem getline_of_notMem {delim : UInt8} {ss : List UInt8} (hne : ss ≠ [])
    (hnot : delim ∉ ss) : getline delim ss = some (ss, []) := by
  have hall := decide_ne_of_notMem hnot
  have hdrop : ss.dropWhile (· ≠ delim) = [] := by
    rw [← List.append_nil ss, List.dropWhile_append_of_pos hall, List.dropWhile_nil]
  have htake : ss.takeWhile (· ≠ delim) = ss := by
    have happend := ss.takeWhile_append_dropWhile (p := (· ≠ delim))
    rwa [hdrop, List.append_nil] at happend
  obtain ⟨c, cs, rfl⟩ := List.exists_cons_of_ne_nil hne
  simp only [getline, htake, hdrop, List.drop_nil]

theorem split_of_notMem {delim : UInt8} {str : List UInt8} (hne : str ≠ [])
    (hnot : delim ∉ str) : split str delim = [str] := by
  rw [split_eq, getline_of_notMem hne hnot]
  simp only
  rw [(split_eq_nil_iff [] delim).mpr rfl]

theorem split_append_cons {delim : UInt8} {piece : List UInt8} (hnot : delim ∉ piece)
    (rest : List UInt8) : split (piece ++ delim :: rest) delim = piece :: split rest delim := by
  rw [split_eq, getline_append_cons hnot]

/-- A string is one piece, or has a first one before its first delimiter. -/
theorem split_induction (delim : UInt8) {motive : List UInt8 → Prop}
    (last : ∀ str, delim ∉ str → motive str)
    (step : ∀ piece rest, delim ∉ piece → motive rest → motive (piece ++ delim :: rest))
    (str : List UInt8) : motive str := by
  induction hn : str.length using Nat.strongRecOn generalizing str with
  | _ n ih =>
      subst n
      by_cases hmem : delim ∈ str
      · obtain ⟨piece, rest, rfl, hnot⟩ := List.eq_append_cons_of_mem hmem
        refine step piece rest hnot (ih rest.length ?_ rest rfl)
        rw [List.length_append, List.length_cons]
        omega
      · exact last str hmem

theorem length_split_le (str : List UInt8) (delim : UInt8) :
    (split str delim).length ≤ str.length := by
  induction str using split_induction delim with
  | last str hnot =>
      by_cases hne : str = []
      · simp [(split_eq_nil_iff str delim).mpr hne]
      · have hpos := List.length_pos_of_ne_nil hne
        rw [split_of_notMem hne hnot, List.length_singleton]
        exact hpos
  | step piece rest hnot ih =>
      rw [split_append_cons hnot, List.length_cons, List.length_append, List.length_cons]
      omega

/-- Pieces that are not empty take two characters each, but for the last. -/
theorem two_mul_length_split_le {str : List UInt8} {delim : UInt8}
    (hpieces : ∀ piece ∈ split str delim, piece ≠ []) :
    2 * (split str delim).length ≤ str.length + 1 := by
  induction str using split_induction delim with
  | last str hnot =>
      by_cases hne : str = []
      · simp [(split_eq_nil_iff str delim).mpr hne]
      · have hpos := List.length_pos_of_ne_nil hne
        rw [split_of_notMem hne hnot, List.length_singleton]
        omega
  | step piece rest hnot ih =>
      rw [split_append_cons hnot, List.forall_mem_cons] at hpieces
      have hpos := List.length_pos_of_ne_nil hpieces.1
      have hrest := ih hpieces.2
      rw [split_append_cons hnot, List.length_cons, List.length_append, List.length_cons]
      omega

theorem notMem_of_mem_split {delim : UInt8} {str : List UInt8} :
    ∀ piece ∈ split str delim, delim ∉ piece := by
  induction str using split_induction delim with
  | last str hnot =>
      intro piece hpiece
      by_cases hne : str = []
      · rw [(split_eq_nil_iff str delim).mpr hne] at hpiece
        exact absurd hpiece List.not_mem_nil
      · rw [split_of_notMem hne hnot, List.mem_singleton] at hpiece
        exact hpiece ▸ hnot
  | step first rest hnot ih =>
      intro piece hpiece
      rw [split_append_cons hnot] at hpiece
      rcases List.mem_cons.mp hpiece with rfl | hpiece
      · exact hnot
      · exact ih piece hpiece

/-- `split` leaves out the empty piece behind a delimiter at the end, and the one of the
empty string. -/
theorem splitOn_eq_split (str : List UInt8) (delim : UInt8) :
    str.splitOn delim = split str delim ++ if str.getLastD delim = delim then [[]] else [] := by
  induction str using split_induction delim with
  | last str hnot =>
      rw [List.splitOn_eq_singleton hnot]
      by_cases hne : str = []
      · subst str
        simp [(split_eq_nil_iff [] delim).mpr rfl]
      · have hlast : str.getLastD delim ≠ delim := by
          intro heq
          rw [List.getLastD_eq_getLast?, List.getLast?_eq_getLast_of_ne_nil hne,
            Option.getD_some] at heq
          exact hnot (heq ▸ List.getLast_mem hne)
        rw [split_of_notMem hne hnot, if_neg hlast, List.append_nil]
  | step piece rest hnot ih =>
      have hlast : (piece ++ delim :: rest).getLastD delim = rest.getLastD delim := by
        simp [List.getLastD_eq_getLast?, List.getLast?_append, List.getLast?_cons]
      rw [List.splitOn_append_cons_self_of_not_mem hnot, split_append_cons hnot, ih, hlast,
        List.cons_append]

theorem intercalate_split {str : List UInt8} {delim : UInt8} (hlast : str.getLast? ≠ some delim) :
    [delim].intercalate (split str delim) = str := by
  by_cases hne : str = []
  · subst str
    rw [(split_eq_nil_iff [] delim).mpr rfl]
    rfl
  · have hpieces := splitOn_eq_split str delim
    have hnot : str.getLastD delim ≠ delim := by
      intro heq
      rw [List.getLast?_eq_getLast_of_ne_nil hne] at hlast
      rw [List.getLastD_eq_getLast?, List.getLast?_eq_getLast_of_ne_nil hne,
        Option.getD_some] at heq
      exact hlast (congrArg some heq)
    rw [if_neg hnot, List.append_nil] at hpieces
    rw [← hpieces, List.intercalate_splitOn]

theorem intercalate_split_concat (str : List UInt8) (delim : UInt8) :
    [delim].intercalate (split (str ++ [delim]) delim) = str := by
  have hpieces := splitOn_eq_split (str ++ [delim]) delim
  have hlast : (str ++ [delim]).getLastD delim = delim := by
    simp [List.getLastD_eq_getLast?]
  rw [if_pos hlast, List.splitOn_append_cons_self, List.splitOn_nil] at hpieces
  rw [← List.append_cancel_right hpieces, List.intercalate_splitOn]

theorem split_intercalate {pieces : List (List UInt8)} {delim : UInt8}
    (hnot : ∀ piece ∈ pieces, delim ∉ piece)
    (hlast : ∀ piece, pieces.getLast? = some piece → piece ≠ []) :
    split ([delim].intercalate pieces) delim = pieces := by
  by_cases hne : pieces = []
  · subst pieces
    exact (split_eq_nil_iff _ delim).mpr rfl
  · have hpieces := splitOn_eq_split ([delim].intercalate pieces) delim
    rw [List.splitOn_intercalate _ hnot hne] at hpieces
    split_ifs at hpieces
    · -- the last piece would be the empty one
      refine absurd rfl (hlast [] ?_)
      rw [hpieces]
      simp
    · rw [List.append_nil] at hpieces
      exact hpieces.symm

example : split [97, 32, 32, 98, 32] 32 = [[97], [], [98]] := by decide

end Banana.Utils
