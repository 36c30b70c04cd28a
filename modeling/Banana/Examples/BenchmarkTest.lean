import Banana.Examples.MapReduceConnection
import Banana.Library.ScatterGather
import Mathlib.Order.Bounds.Basic

/-!
# BenchmarkTest

The benchmark of `examples/MapReduceServer` computes the largest number of some
files serially, to compare with the server's.  Both read the files with the same
loop, so both find the greatest number of all.  The names travel joined by
spaces, and the server's `split` gives them back.
-/

namespace Banana

open ScatterGather (jobBest)

namespace BenchmarkTest

open InputFile (scan)

/-- One round of the loop over the files, on `bFirst` and `maxNum`. -/
def scanFile (st : Bool × NativeInt) (file : InputFile) : Bool × NativeInt :=
  if st.1 then
    match file.ints with
    | [] => (false, file.failValue.getD st.2)
    | maxNum :: tmps => (false, scan maxNum tmps)
  else (false, scan st.2 file.ints)

/-- The serial computation of `main`. -/
def serialCalculate (files : List InputFile) : NativeInt :=
  (files.foldl scanFile (true, 0)).2

theorem scan_cons (maxNum tmp : NativeInt) (tmps : List NativeInt) :
    scan maxNum (tmp :: tmps) = scan (maxNum ⊔ tmp) tmps := by
  rw [scan, List.foldl_cons, ← max_def_lt maxNum tmp, scan]

theorem isGreatest_scan (maxNum : NativeInt) (tmps : List NativeInt) :
    IsGreatest {z | z ∈ maxNum :: tmps} (scan maxNum tmps) := by
  induction tmps generalizing maxNum with
  | nil => exact ⟨List.mem_singleton_self _, fun z hz => (List.mem_singleton.mp hz).le⟩
  | cons tmp tmps ih =>
      rw [scan_cons]
      obtain ⟨hmem, hle⟩ := ih (maxNum ⊔ tmp)
      have hsup : maxNum ⊔ tmp ≤ scan (maxNum ⊔ tmp) tmps := hle List.mem_cons_self
      constructor
      · rcases List.mem_cons.mp hmem with hself | htail
        · rcases le_total maxNum tmp with h | h
          · rw [Set.mem_ofPred_eq, hself, sup_eq_right.mpr h]
            simp
          · rw [Set.mem_ofPred_eq, hself, sup_eq_left.mpr h]
            exact List.mem_cons_self
        · exact List.mem_cons_of_mem _ (List.mem_cons_of_mem _ htail)
      · intro z hz
        rcases List.mem_cons.mp hz with rfl | hz
        · exact le_sup_left.trans hsup
        · rcases List.mem_cons.mp hz with rfl | hz
          · exact le_sup_right.trans hsup
          · exact hle (List.mem_cons_of_mem _ hz)

theorem isGreatest_mapFunction {file : InputFile} (hints : file.ints ≠ []) (junk : NativeInt) :
    IsGreatest {z | z ∈ file.ints} (MapReduceConnection.mapFunction file junk) := by
  unfold MapReduceConnection.mapFunction
  cases hfile : file.ints with
  | nil => exact absurd hfile hints
  | cons maxNum tmps => exact isGreatest_scan maxNum tmps

theorem foldl_scanFile (maxNum : NativeInt) (files : List InputFile) :
    files.foldl scanFile (false, maxNum) = (false, scan maxNum (files.flatMap InputFile.ints)) := by
  induction files generalizing maxNum with
  | nil => rfl
  | cons file files ih =>
      have hfile : scanFile (false, maxNum) file = (false, scan maxNum file.ints) := rfl
      rw [List.foldl_cons, hfile, ih, List.flatMap_cons, scan, scan, scan, List.foldl_append]

theorem isGreatest_serialCalculate {files : List InputFile} (hsome : files ≠ [])
    (hints : ∀ file ∈ files, file.ints ≠ []) :
    IsGreatest {z | ∃ file ∈ files, z ∈ file.ints} (serialCalculate files) := by
  cases files with
  | nil => exact absurd rfl hsome
  | cons file files =>
      cases hfile : file.ints with
      | nil => exact absurd hfile (hints file List.mem_cons_self)
      | cons maxNum tmps =>
          have hserial : serialCalculate (file :: files) =
              scan maxNum (tmps ++ files.flatMap InputFile.ints) := by
            have hfirst : scanFile (true, 0) file = (false, scan maxNum tmps) := by
              simp [scanFile, hfile]
            rw [serialCalculate, List.foldl_cons, hfirst, foldl_scanFile, scan, scan, scan,
              List.foldl_append]
          have hall : {z | ∃ f ∈ file :: files, z ∈ f.ints} =
              {z | z ∈ maxNum :: (tmps ++ files.flatMap InputFile.ints)} := by
            ext z
            simp [hfile, or_assoc]
          rw [hserial, hall]
          exact isGreatest_scan _ _

/-! ## The path list -/

/-- The loop of `main` over `vecPath`: a space behind every path but the last. -/
def writePaths : List (List UInt8) → List UInt8 → List UInt8
  | [], ss => ss
  | [path], ss => ss ++ path
  | path :: next :: rest, ss => writePaths (next :: rest) (ss ++ path ++ [32])

/-- What `main` sends behind the header. -/
def joinPaths (vecPath : List (List UInt8)) : List UInt8 := writePaths vecPath []

theorem writePaths_eq (vecPath : List (List UInt8)) (ss : List UInt8) :
    writePaths vecPath ss = ss ++ [32].intercalate vecPath := by
  induction vecPath, ss using writePaths.induct with
  | case1 ss => exact (List.append_nil ss).symm
  | case2 path ss => rw [writePaths, List.intercalate_singleton]
  | case3 path next rest ss ih =>
      rw [writePaths, ih, List.intercalate_cons_of_ne_nil (List.cons_ne_nil next rest)]
      simp only [List.append_assoc]

theorem joinPaths_eq (vecPath : List (List UInt8)) :
    joinPaths vecPath = [32].intercalate vecPath := by
  rw [joinPaths, writePaths_eq, List.nil_append]

theorem filePaths_joinPaths {vecPath : List (List UInt8)} (hnot : ∀ path ∈ vecPath, 32 ∉ path)
    (hlast : ∀ path, vecPath.getLast? = some path → path ≠ []) :
    MapReduceConnection.filePaths (joinPaths vecPath) = vecPath := by
  rw [joinPaths_eq, MapReduceConnection.filePaths, Utils.split_intercalate hnot hlast]

theorem split_undoes_join :
    (∀ (delim : UInt8) (str : List UInt8) (vecStr : List (List UInt8)), ∃ pieces,
      Utils.splitInto str vecStr delim = (true, vecStr ++ pieces) ∧
      (∀ piece ∈ pieces, delim ∉ piece) ∧
      (str = [] → pieces = []) ∧
      (str.getLast? ≠ some delim → [delim].intercalate pieces = str) ∧
      (∀ front, str = front ++ [delim] → [delim].intercalate pieces = front)) ∧
    (∀ (delim : UInt8) (pieces vecStr : List (List UInt8)), (∀ piece ∈ pieces, delim ∉ piece) →
      (∀ piece, pieces.getLast? = some piece → piece ≠ []) →
      Utils.splitInto ([delim].intercalate pieces) vecStr delim = (true, vecStr ++ pieces)) ∧
    ∀ (c : MapReduceConnection) (vecPath : List (List UInt8)), c.stat = .recvBody →
      (∀ path ∈ vecPath, 32 ∉ path) → (∀ path, vecPath.getLast? = some path → path ≠ []) →
      (c.recvCompleteCallback .recved (joinPaths vecPath)).2 = vecPath := by
  refine ⟨?_, ?_, ?_⟩
  · intro delim str vecStr
    refine ⟨Utils.split str delim, Utils.splitInto_eq str vecStr delim, Utils.notMem_of_mem_split,
      (Utils.split_eq_nil_iff str delim).mpr, Utils.intercalate_split, ?_⟩
    rintro front rfl
    exact Utils.intercalate_split_concat front delim
  · intro delim pieces vecStr hnot hlast
    rw [Utils.splitInto_eq, Utils.split_intercalate hnot hlast]
  · intro c vecPath hstat hnot hlast
    have hpaths : (c.recvCompleteCallback .recved (joinPaths vecPath)).2 =
        MapReduceConnection.filePaths (joinPaths vecPath) := by
      simp [MapReduceConnection.recvCompleteCallback, hstat]
    rw [hpaths, filePaths_joinPaths hnot hlast]

/-- Two paths behind an empty one. -/
theorem split_undoes_join_witness :
    (∃ pieces, Utils.splitInto [32, 97, 32, 32] [[98]] 32 = (true, [[98]] ++ pieces) ∧
      [32].intercalate pieces = [32, 97, 32]) ∧
    Utils.splitInto ([32].intercalate [[], [97], [98]]) [[99]] 32 = (true, [[99], [], [97], [98]]) ∧
    (({ MapReduceConnection.start with stat := .recvBody }).recvCompleteCallback .recved
      (joinPaths [[], [97], [98]])).2 = [[], [97], [98]] := by
  obtain ⟨hsplit, hjoin, hserver⟩ := split_undoes_join
  refine ⟨?_, ?_, ?_⟩
  · obtain ⟨pieces, heq, -, -, -, hfront⟩ := hsplit 32 [32, 97, 32, 32] [[98]]
    exact ⟨pieces, heq, hfront [32, 97, 32] rfl⟩
  · exact hjoin 32 [[], [97], [98]] [[99]] (by decide) (by decide)
  · exact hserver _ [[], [97], [98]] rfl (by decide) (by decide)

end BenchmarkTest

namespace MapReduceConnection

/-- A request with at least one name, each of a file that begins with a number. -/
def WellFormed (files : FileSystem) (vecBytes : List UInt8) : Prop :=
  filePaths vecBytes ≠ [] ∧
    ∀ path ∈ filePaths vecBytes, ∃ file, files.content path = some file ∧ file.ints ≠ []

/-- A number is read, or the first extraction fails and assigns something; otherwise
`maxNum` keeps its indeterminate value. -/
def Assigns (file : InputFile) : Prop := file.ints ≠ [] ∨ file.failValue ≠ none

/-- Each name is of a file that can be opened and determines what its task sends. -/
def Readable (files : FileSystem) (vecBytes : List UInt8) : Prop :=
  ∀ path ∈ filePaths vecBytes, ∃ file, files.content path = some file ∧ Assigns file

theorem WellFormed.readable {files : FileSystem} {vecBytes : List UInt8}
    (h : WellFormed files vecBytes) : Readable files vecBytes := by
  intro path hpath
  obtain ⟨file, hfile, hints⟩ := h.2 path hpath
  exact ⟨file, hfile, .inl hints⟩

theorem mapFunction_eq_iff (file : InputFile) :
    (∃ maxNum, ∀ junk, mapFunction file junk = maxNum) ↔ Assigns file := by
  unfold mapFunction Assigns
  cases hints : file.ints with
  | cons maxNum tmps => exact ⟨fun _ => .inl (by simp), fun _ => ⟨_, fun _ => rfl⟩⟩
  | nil =>
      cases hfail : file.failValue with
      | some maxNum => exact ⟨fun _ => .inr (by simp), fun _ => ⟨maxNum, fun _ => rfl⟩⟩
      | none =>
          refine ⟨fun ⟨maxNum, hall⟩ => ?_, fun h => by simp at h⟩
          have hzero : (0 : NativeInt) = maxNum := hall 0
          have hone : (⟨1, by decide⟩ : NativeInt) = maxNum := hall ⟨1, by decide⟩
          exact absurd (hzero.trans hone.symm) (by decide)

def requestMax (files : FileSystem) (vecBytes : List UInt8) : NativeInt :=
  BenchmarkTest.serialCalculate ((filePaths vecBytes).filterMap files.content)

def requestInts (files : FileSystem) (vecBytes : List UInt8) : Set NativeInt :=
  {z | ∃ path ∈ filePaths vecBytes, ∃ file, files.content path = some file ∧ z ∈ file.ints}

variable {files : FileSystem} {vecBytes : List UInt8}

theorem WellFormed.isGreatest_requestMax (h : WellFormed files vecBytes) :
    IsGreatest (requestInts files vecBytes) (requestMax files vecBytes) := by
  obtain ⟨hsome, hfiles⟩ := h
  have hall : requestInts files vecBytes =
      {z | ∃ file ∈ (filePaths vecBytes).filterMap files.content, z ∈ file.ints} := by
    ext z
    simp only [requestInts, Set.mem_ofPred_eq, List.mem_filterMap]
    constructor
    · rintro ⟨path, hpath, file, hfile, hz⟩
      exact ⟨file, ⟨path, hpath, hfile⟩, hz⟩
    · rintro ⟨file, ⟨path, hpath, hfile⟩, hz⟩
      exact ⟨path, hpath, file, hfile, hz⟩
  rw [hall]
  apply BenchmarkTest.isGreatest_serialCalculate
  · intro hnone
    obtain ⟨path, hpath⟩ := List.exists_mem_of_ne_nil _ hsome
    obtain ⟨file, hfile, -⟩ := hfiles path hpath
    have hmem := List.mem_filterMap.mpr ⟨path, hpath, hfile⟩
    simp [hnone] at hmem
  · intro file hfile
    obtain ⟨path, hpath, hcontent⟩ := List.mem_filterMap.mp hfile
    obtain ⟨file', hcontent', hints⟩ := hfiles path hpath
    obtain rfl : file = file' := Option.some.inj (hcontent.symm.trans hcontent')
    exact hints

/-- What a map task on a file answers. -/
def pathMax (files : FileSystem) (path : List UInt8) : WithBot NativeInt :=
  match files.content path with
  | none => ⊥
  | some file => (mapFunction file 0 : NativeInt)

theorem pathMax_of_content {path : List UInt8} {file : InputFile}
    (hfile : files.content path = some file) (hassigns : Assigns file) (junk : NativeInt) :
    pathMax files path = (mapFunction file junk : NativeInt) := by
  obtain ⟨maxNum, hall⟩ := (mapFunction_eq_iff file).mpr hassigns
  simp only [pathMax, hfile, hall]

theorem WellFormed.jobBest_eq (h : WellFormed files vecBytes) :
    jobBest (pathMax files) (filePaths vecBytes) =
      (requestMax files vecBytes : WithBot NativeInt) := by
  obtain ⟨⟨path, hpath, file, hfile, hmem⟩, hle⟩ := h.isGreatest_requestMax
  apply le_antisymm
  · apply Multiset.sup_le.mpr
    intro m hm
    obtain ⟨path', hpath', rfl⟩ := Multiset.mem_map.mp hm
    obtain ⟨file', hfile', hints⟩ := h.2 path' hpath'
    rw [pathMax_of_content hfile' (.inl hints) 0, WithBot.coe_le_coe]
    exact hle ⟨path', hpath', file', hfile',
      (BenchmarkTest.isGreatest_mapFunction hints 0).1⟩
  · have hints : file.ints ≠ [] := List.ne_nil_of_mem hmem
    have hvalue : (requestMax files vecBytes : WithBot NativeInt) ≤ pathMax files path := by
      rw [pathMax_of_content hfile (.inl hints) 0, WithBot.coe_le_coe]
      exact (BenchmarkTest.isGreatest_mapFunction hints 0).2 hmem
    exact hvalue.trans (Multiset.le_sup (Multiset.mem_map_of_mem _ hpath))

end MapReduceConnection

end Banana
