import Banana.Examples.ConcurrentConnection
import Banana.Utils.Split

/-!
# MapReduceConnection

The connection of `examples/MapReduceServer`: a request is a header and a body
of file names, each name becomes a map task, each task answers with the largest
number of its file, and when as many answers as tasks have come the largest of
all is sent back.  The callbacks are split where other threads can see between
their steps: the loop over the names posts a task and then counts it.
-/

namespace Banana

open Transition

/-- A file as `operator>>` reads it: the numbers of the extractions that
succeed, and what the first one that fails assigns, if it assigns at all. -/
structure InputFile where
  ints : List NativeInt
  failValue : Option NativeInt

/-- What can be opened, by name; a name is not empty. -/
structure FileSystem where
  content : List UInt8 → Option InputFile
  content_nil : content [] = none

namespace InputFile

def scan (maxNum : NativeInt) (tmps : List NativeInt) : NativeInt :=
  tmps.foldl (fun maxNum tmp => if maxNum < tmp then tmp else maxNum) maxNum

end InputFile

structure MapReduceConnection where
  firstCome : Bool
  taskCount : ℤ
  curMaxNum : NativeInt
  stat : ConnectionStat
  stream : Stream
  inMap : Bool

namespace MapReduceConnection

def destroy (c : MapReduceConnection) : MapReduceConnection := { c with inMap := false }

def reduce (last cur : NativeInt) : NativeInt := if last < cur then cur else last

/-- `mapFunction` up to its message; `junk` is what the uninitialised `maxNum` holds. -/
def mapFunction (file : InputFile) (junk : NativeInt) : NativeInt :=
  match file.ints with
  | [] => file.failValue.getD junk
  | maxNum :: tmps => InputFile.scan maxNum tmps

/-- `onMessage` up to the test of `taskCount_`. -/
def countAnswer (c : MapReduceConnection) (maxNum : NativeInt) : MapReduceConnection :=
  if c.firstCome then
    { c with taskCount := c.taskCount - 1, curMaxNum := maxNum, firstCome := false }
  else { c with taskCount := c.taskCount - 1, curMaxNum := reduce c.curMaxNum maxNum }

/-- With `vecChar`, the buffer that is given to `asyncSendBytes`. -/
def reply (c : MapReduceConnection) : MapReduceConnection × Option (List UInt8) :=
  let vecChar := NativeInt.encode c.curMaxNum
  ({ c with stream := (c.stream.asyncSendBytes vecChar).2 }, some vecChar)

def onMessage (c : MapReduceConnection) (maxNum : NativeInt) :
    MapReduceConnection × Option (List UInt8) :=
  if (c.countAnswer maxNum).taskCount = 0 then (c.countAnswer maxNum).reply
  else (c.countAnswer maxNum, none)

def recvHeadDone (c : MapReduceConnection) (bodyLen : ℤ) : MapReduceConnection :=
  if 1024 < bodyLen then { c with stream := (c.stream.asyncRecvBytes 4).2 }
  else { c with stream := (c.stream.asyncRecvBytes bodyLen).2, stat := .recvBody }

def filePaths (vecBytes : List UInt8) : List (List UInt8) := Utils.split vecBytes 32

/-- `taskCount_++`, after the task has been posted. -/
def countTask (c : MapReduceConnection) : MapReduceConnection :=
  { c with taskCount := c.taskCount + 1 }

/-- The end of the body branch, after the loop. -/
def recvBodyDone (c : MapReduceConnection) : MapReduceConnection :=
  { c with stat := .recvHead, stream := (c.stream.asyncRecvBytes 4).2 }

/-- The receive callback, with the file names whose tasks it posts. -/
def recvCompleteCallback (c : MapReduceConnection) (retRecvStat : StreamStat)
    (vecBytes : List UInt8) : MapReduceConnection × List (List UInt8) :=
  if retRecvStat = .recverr then (c.destroy, [])
  else
    match c.stat with
    | .recvHead =>
        if vecBytes.length < 4 then ({ c with stream := (c.stream.asyncRecvBytes 4).2 }, [])
        else (c.recvHeadDone (NativeInt.decode vecBytes).val, [])
    | .recvBody =>
        (((filePaths vecBytes).foldl (fun c _ => c.countTask) c).recvBodyDone, filePaths vecBytes)

def sendCompleteCallback (c : MapReduceConnection) (retSendStat : StreamStat) :
    MapReduceConnection :=
  if retSendStat = .senderr then c.destroy else c

def startReadOrWriteInService (c : MapReduceConnection) : MapReduceConnection :=
  match c.stream.asyncRecvBytes 4 with
  | (true, stream) => { c with stat := .recvHead, stream := stream }
  | (false, _) => { c with stat := .recvHead }.destroy

def start : MapReduceConnection :=
  startReadOrWriteInService
    { firstCome := true, taskCount := 0, curMaxNum := 0, stat := .recvHead,
      stream := .new, inMap := true }

/-! ## A read is always pending -/

inductive Event
  | socket (e : SocketEvent)
  | mapDone (maxNum : NativeInt)

/-- One event callback, the tasks it posts left out.  A map task may keep a
connection alive, with its stream, that is no longer in the map. -/
def step (c : MapReduceConnection) : Event → Option MapReduceConnection
  | .socket (.readable r) =>
      if c.stream.readPending = true ∧ c.stream.mayRecv r = true then
        match c.stream.recvOnePack r with
        | (stream, none) => some { c with stream := stream }
        | (stream, some (retRecvStat, vecBytes)) =>
            some ({ c with stream := stream }.recvCompleteCallback retRecvStat vecBytes).1
      else none
  | .socket (.writable r) =>
      if c.stream.writePending = true ∧ c.stream.maySend r = true then
        match c.stream.sendOnePack r with
        | (stream, none) => some { c with stream := stream }
        | (stream, some retSendStat) =>
            some ({ c with stream := stream }.sendCompleteCallback retSendStat)
      else none
  | .mapDone maxNum => if c.inMap then some (c.onMessage maxNum).1 else none

def Reads (c : MapReduceConnection) : Prop :=
  c.inMap = true → c.stream.readPending = true

/-- The condition on an event: a completed header is positive. -/
def PositiveHeader (c : MapReduceConnection) : Event → Prop
  | .socket (.readable r) => ∀ bytes, c.inMap = true → c.stat = .recvHead →
      c.stream.received r = some bytes → 0 < (NativeInt.decode bytes).val
  | _ => True

/-- While a read is pending it is a read of what `stat_` says. -/
structure Phase (c : MapReduceConnection) : Prop where
  head : c.stream.readPending = true → c.stat = .recvHead → c.stream.Receiving 4
  body : c.stream.readPending = true → c.stat = .recvBody →
    ∃ num ≤ 1024, c.stream.Receiving num

theorem Phase.receiving {c : MapReduceConnection} (hc : Phase c)
    (hpending : c.stream.readPending = true) :
    ∃ num ≤ 1024, c.stream.Receiving num ∧ (c.stat = .recvHead → num = 4) := by
  cases hstat : c.stat with
  | recvHead => exact ⟨4, by decide, hc.head hpending hstat, fun _ => rfl⟩
  | recvBody =>
      obtain ⟨num, hle, hrecv⟩ := hc.body hpending hstat
      exact ⟨num, hle, hrecv, nofun⟩

theorem phase_of_idle {c : MapReduceConnection} (h : c.stream.readPending = false) : Phase c :=
  ⟨fun hread => by simp [h] at hread, fun hread => by simp [h] at hread⟩

theorem phase_recvHead {c : MapReduceConnection} :
    Phase { c with stat := .recvHead, stream := (c.stream.asyncRecvBytes 4).2 } ∧
      Reads { c with stat := .recvHead, stream := (c.stream.asyncRecvBytes 4).2 } := by
  obtain ⟨-, hrecv, -⟩ := c.stream.asyncRecvBytes_of_pos (by decide : (0 : ℤ) < 4) (by decide)
  exact ⟨⟨fun _ _ => hrecv, nofun⟩, fun _ => hrecv.pending⟩

theorem startReadOrWriteInService_eq (c : MapReduceConnection) :
    c.startReadOrWriteInService =
      { c with stat := .recvHead, stream := (c.stream.asyncRecvBytes 4).2 } := by
  rw [startReadOrWriteInService, c.stream.asyncRecvBytes_four]

theorem recvHeadDone_spec {c : MapReduceConnection} {bodyLen : ℤ} (hstat : c.stat = .recvHead)
    (hread : c.stream.readPending = false) :
    Phase (c.recvHeadDone bodyLen) ∧
      ((c.inMap = true → 0 < bodyLen) ↔ Reads (c.recvHeadDone bodyLen)) := by
  unfold recvHeadDone
  by_cases hlong : 1024 < bodyLen
  · have hnext := @phase_recvHead c
    rw [← hstat] at hnext
    rw [if_pos hlong]
    exact ⟨hnext.1, fun _ => hnext.2, fun _ _ => by omega⟩
  · rw [if_neg hlong]
    by_cases hpos : 0 < bodyLen
    · obtain ⟨-, hrecv, -⟩ := c.stream.asyncRecvBytes_of_pos hpos (not_lt.mp hlong)
      have hle : bodyLen.toNat ≤ 1024 := by omega
      exact ⟨⟨nofun, fun _ _ => ⟨_, hle, hrecv⟩⟩, fun _ _ => hrecv.pending, fun _ _ => hpos⟩
    · rw [c.stream.asyncRecvBytes_of_nonpos (not_lt.mp hpos)]
      refine ⟨phase_of_idle hread, fun h hmap => absurd (h hmap) hpos, fun hreads hmap => ?_⟩
      have hpending : c.stream.readPending = true := hreads hmap
      simp [hread] at hpending

theorem foldl_countTask (c : MapReduceConnection) (paths : List (List UInt8)) :
    paths.foldl (fun c _ => c.countTask) c =
      { c with taskCount := c.taskCount + paths.length } := by
  induction paths generalizing c with
  | nil => simp
  | cons path paths ih =>
      rw [List.foldl_cons, ih, List.length_cons, countTask, Nat.cast_succ, add_right_comm,
        add_assoc c.taskCount]

theorem countAnswer_stream (c : MapReduceConnection) (maxNum : NativeInt) :
    (c.countAnswer maxNum).stream = c.stream := by
  unfold countAnswer
  split_ifs <;> rfl

theorem onMessage_spec (c : MapReduceConnection) (maxNum : NativeInt) :
    (c.onMessage maxNum).1.inMap = c.inMap ∧ (c.onMessage maxNum).1.stat = c.stat ∧
      (c.onMessage maxNum).1.stream.readPending = c.stream.readPending ∧
      ∀ num, c.stream.Receiving num → (c.onMessage maxNum).1.stream.Receiving num := by
  have hstream := c.countAnswer_stream maxNum
  obtain ⟨hmap, hstat⟩ :
      (c.countAnswer maxNum).inMap = c.inMap ∧ (c.countAnswer maxNum).stat = c.stat := by
    unfold countAnswer
    split_ifs <;> exact ⟨rfl, rfl⟩
  unfold onMessage
  split_ifs
  · refine ⟨hmap, hstat, ?_, fun num h => ?_⟩
    · change (Stream.asyncSendBytes _ _).2.readPending = _
      rw [Stream.readPending_asyncSendBytes, hstream]
    · rw [← hstream] at h
      exact h.asyncSendBytes _
  · exact ⟨hmap, hstat, by rw [hstream], fun num h => by rwa [hstream]⟩

theorem Phase.keep {c d : MapReduceConnection} (hc : Phase c) (hstat : d.stat = c.stat)
    (hread : d.stream.readPending = c.stream.readPending)
    (hrecv : ∀ num, c.stream.Receiving num → d.stream.Receiving num) : Phase d where
  head hpending hhead := hrecv 4 (hc.head (hread ▸ hpending) (hstat ▸ hhead))
  body hpending hbody := by
    obtain ⟨num, hle, h⟩ := hc.body (hread ▸ hpending) (hstat ▸ hbody)
    exact ⟨num, hle, hrecv num h⟩

theorem Reads.keep {c d : MapReduceConnection} (hreads : Reads c) (hmap : d.inMap = c.inMap)
    (hread : d.stream.readPending = c.stream.readPending) : Reads d := fun h =>
  hread.trans (hreads (hmap ▸ h))

theorem recvCompleteCallback_spec {c : MapReduceConnection} {bytes : List UInt8}
    (hhead : c.stat = .recvHead → bytes.length = 4) (hread : c.stream.readPending = false) :
    Phase (c.recvCompleteCallback .recved bytes).1 ∧
      ((c.inMap = true → c.stat = .recvHead → 0 < (NativeInt.decode bytes).val) ↔
        Reads (c.recvCompleteCallback .recved bytes).1) := by
  cases hstat : c.stat with
  | recvHead =>
      have hfull : ¬ bytes.length < 4 := (hhead hstat).not_lt
      have hcall : (c.recvCompleteCallback .recved bytes).1 =
          c.recvHeadDone (NativeInt.decode bytes).val := by
        simp [recvCompleteCallback, hstat, hfull]
      rw [hcall]
      simpa using recvHeadDone_spec hstat hread
  | recvBody =>
      have hcall : (c.recvCompleteCallback .recved bytes).1 =
          recvBodyDone { c with taskCount := c.taskCount + (filePaths bytes).length } := by
        simp [recvCompleteCallback, hstat, foldl_countTask]
      rw [hcall]
      have hnext :=
        @phase_recvHead { c with taskCount := c.taskCount + (filePaths bytes).length }
      exact ⟨hnext.1, fun _ => hnext.2, fun _ _ hno => absurd hno (by simp)⟩

theorem Phase.recvOnePack_none {c : MapReduceConnection} {r : RecvResult} {stream : Stream}
    (hc : Phase c) (hpending : c.stream.readPending = true) (hmay : c.stream.mayRecv r = true)
    (hout : c.stream.recvOnePack r = (stream, none)) :
    Phase { c with stream := stream } ∧ stream.readPending = true ∧
      c.stream.received r = none := by
  obtain ⟨num, hle, hrecv, hhead⟩ := hc.receiving hpending
  have hfired := hrecv.fired hmay
  rw [hout] at hfired
  cases hfired with
  | continues st' hnone hrecv' hwrite =>
      refine ⟨⟨fun _ hstat => ?_, fun _ _ => ⟨num, hle, hrecv'⟩⟩, hrecv'.pending, hnone⟩
      obtain rfl := hhead hstat
      exact hrecv'

theorem Phase.recvOnePack_some {c : MapReduceConnection} {r : RecvResult} {stream : Stream}
    {retRecvStat : StreamStat} {vecBytes : List UInt8} (hc : Phase c)
    (hpending : c.stream.readPending = true) (hmay : c.stream.mayRecv r = true)
    (hout : c.stream.recvOnePack r = (stream, some (retRecvStat, vecBytes))) :
    stream.readPending = false ∧
      (retRecvStat = .recverr ∧ c.stream.received r = none ∨
        retRecvStat = .recved ∧ c.stream.received r = some vecBytes ∧
          vecBytes.length ≤ 1024 ∧ (c.stat = .recvHead → vecBytes.length = 4)) := by
  obtain ⟨num, hle, hrecv, hhead⟩ := hc.receiving hpending
  have hfired := hrecv.fired hmay
  rw [hout] at hfired
  cases hfired with
  | completes st' bytes hbytes hlen hread hwrite =>
      exact ⟨hread, .inr ⟨rfl, hbytes, hlen ▸ hle, fun hstat => hlen.trans (hhead hstat)⟩⟩
  | fails st' bytes hnone hread hwrite => exact ⟨hread, .inl ⟨rfl, hnone⟩⟩

theorem Phase.sendOnePack {c : MapReduceConnection} (hc : Phase c) (r : SendResult) :
    Phase { c with stream := (c.stream.sendOnePack r).1 } := by
  have hwrote := c.stream.wrote_sendOnePack r
  generalize c.stream.sendOnePack r = out at hwrote
  cases hwrote with
  | continues st' hread hrecv hwrite => exact hc.keep rfl hread hrecv
  | completes st' hread hrecv hwrite => exact hc.keep rfl hread hrecv
  | fails st' hread hrecv => exact hc.keep rfl hread hrecv

theorem Phase.step {c d : MapReduceConnection} {e : Event} (hc : Phase c)
    (h : MapReduceConnection.step c e = some d) :
    Phase d ∧ (Reads c → (PositiveHeader c e ↔ Reads d)) := by
  cases e with
  | mapDone maxNum =>
      obtain ⟨-, rfl⟩ : c.inMap = true ∧ (c.onMessage maxNum).1 = d := by
        simpa [MapReduceConnection.step] using h
      obtain ⟨hmap, hstat, hread, hrecv⟩ := onMessage_spec c maxNum
      exact ⟨hc.keep hstat hread hrecv, fun hreads =>
        ⟨fun _ => hreads.keep hmap hread, fun _ => trivial⟩⟩
  | socket e =>
      cases e with
      | readable r =>
          simp only [MapReduceConnection.step, Option.ite_none_right_eq_some] at h
          obtain ⟨⟨hpending, hmay⟩, h⟩ := h
          rcases hout : c.stream.recvOnePack r with ⟨stream, _ | ⟨retRecvStat, bytes⟩⟩
          · obtain ⟨hphase, hread, hnone⟩ := hc.recvOnePack_none hpending hmay hout
            simp only [hout, Option.some.injEq] at h
            subst d
            exact ⟨hphase, fun _ => by simp [PositiveHeader, hnone, Reads, hread]⟩
          · obtain ⟨hread, hstat⟩ := hc.recvOnePack_some hpending hmay hout
            simp only [hout, Option.some.injEq] at h
            subst d
            rcases hstat with ⟨rfl, hnone⟩ | ⟨rfl, hbytes, -, hhead⟩
            · simp only [recvCompleteCallback, if_true]
              exact ⟨phase_of_idle hread, fun _ => by simp [PositiveHeader, hnone, Reads, destroy]⟩
            · have hcall := @recvCompleteCallback_spec { c with stream := stream } bytes hhead hread
              exact ⟨hcall.1, fun _ => by simpa [PositiveHeader, hbytes] using hcall.2⟩
      | writable r =>
          simp only [MapReduceConnection.step, Option.ite_none_right_eq_some] at h
          obtain ⟨-, h⟩ := h
          have hwrote := c.stream.wrote_sendOnePack r
          generalize c.stream.sendOnePack r = out at hwrote h
          cases hwrote with
          | continues st' hread hrecv _ =>
              obtain rfl := Option.some.inj h
              exact ⟨hc.keep rfl hread hrecv, fun hreads =>
                ⟨fun _ => hreads.keep rfl hread, fun _ => trivial⟩⟩
          | completes st' hread hrecv _ =>
              obtain rfl := Option.some.inj h
              exact ⟨hc.keep rfl hread hrecv, fun hreads =>
                ⟨fun _ => hreads.keep rfl hread, fun _ => trivial⟩⟩
          | fails st' hread hrecv =>
              obtain rfl := Option.some.inj h
              exact ⟨hc.keep rfl hread hrecv, fun _ => ⟨fun _ => nofun, fun _ => trivial⟩⟩

theorem phase_start : Phase start ∧ Reads start := by
  rw [start, startReadOrWriteInService_eq]
  exact phase_recvHead

theorem reads_iff_positiveHeader {es : List Event} {c : MapReduceConnection}
    (hrun : run step start es = some c) :
    Along PositiveHeader step start es ↔
      ∀ ds d, ds <+: es → run step start ds = some d → Reads d :=
  along_iff_forall_prefix (I := Phase) (G := Reads) (fun _ _ _ hc h => (hc.step h).1)
    (fun _ _ _ hc hreads h => (hc.step h).2 hreads) phase_start.1 phase_start.2 hrun

end MapReduceConnection

/-! ## No stuck connection -/

/-- Both kinds of connections: every state of a run is one in which a connection
that is still in the map has its request pending, exactly when all headers and
bodies that arrive in the run while it is in the map can be acted on. -/
theorem pending_iff_answerable (es : List SocketEvent) (es' : List MapReduceConnection.Event) :
    (∀ c, run ConcurrentConnection.step ConcurrentConnection.start es = some c →
      (Along ConcurrentConnection.Answerable ConcurrentConnection.step
          ConcurrentConnection.start es ↔
        ∀ ds d, ds <+: es →
          run ConcurrentConnection.step ConcurrentConnection.start ds = some d →
          d.inMap = true → d.stream.readPending ≠ d.stream.writePending)) ∧
      ∀ c, run MapReduceConnection.step MapReduceConnection.start es' = some c →
        (Along MapReduceConnection.PositiveHeader MapReduceConnection.step
            MapReduceConnection.start es' ↔
          ∀ ds d, ds <+: es' →
            run MapReduceConnection.step MapReduceConnection.start ds = some d →
            d.inMap = true → d.stream.readPending = true) :=
  ⟨fun _ hrun => ConcurrentConnection.waits_iff_answerable hrun,
    fun _ hrun => MapReduceConnection.reads_iff_positiveHeader hrun⟩

def splitHeader : List SocketEvent := [.readable (.data [2, 0]), .readable (.data [0, 0])]

/-- A header in two pieces: both connections go on to its body. -/
theorem pending_iff_answerable_splitHeader :
    (∃ c, run ConcurrentConnection.step ConcurrentConnection.start splitHeader = some c ∧
      c.stat = .recvBody ∧ (c.inMap = true → c.stream.readPending ≠ c.stream.writePending)) ∧
      ∃ c, run MapReduceConnection.step MapReduceConnection.start
          (splitHeader.map MapReduceConnection.Event.socket) = some c ∧
        c.stat = .recvBody ∧ (c.inMap = true → c.stream.readPending = true) := by
  have hheader : 0 < (NativeInt.decode [2, 0, 0, 0]).val := by decide
  constructor
  · have hstart : ConcurrentConnection.start = ⟨.recvHead, [], { Stream.new with
        needRecvLen := 4, recvBuf := [0, 0, 0, 0], readPending := true }, true⟩ := by
      rw [ConcurrentConnection.start_eq, Stream.asyncRecvBytes_new]
    obtain ⟨c, hrun, hstat⟩ :
        ∃ c, run ConcurrentConnection.step ConcurrentConnection.start splitHeader = some c ∧
          c.stat = .recvBody := by
      rw [hstart]
      exact ⟨_, rfl, rfl⟩
    refine ⟨c, hrun, hstat, ?_⟩
    have hexact := (pending_iff_answerable splitHeader []).1 c hrun
    refine hexact.mp ?_ splitHeader c List.prefix_rfl hrun
    rw [hstart]
    refine (along_cons rfl).mpr ⟨fun bytes h => absurd h (by simp [Stream.received]), ?_⟩
    refine (along_cons rfl).mpr ⟨fun bytes h => ?_, along_nil _⟩
    obtain rfl : [2, 0, 0, 0] = bytes := Option.some.inj h
    exact hheader
  · have hstart : MapReduceConnection.start = ⟨true, 0, 0, .recvHead, { Stream.new with
        needRecvLen := 4, recvBuf := [0, 0, 0, 0], readPending := true }, true⟩ := by
      rw [MapReduceConnection.start, MapReduceConnection.startReadOrWriteInService_eq,
        Stream.asyncRecvBytes_new]
    obtain ⟨c, hrun, hstat⟩ : ∃ c, run MapReduceConnection.step MapReduceConnection.start
        (splitHeader.map MapReduceConnection.Event.socket) = some c ∧ c.stat = .recvBody := by
      rw [hstart]
      exact ⟨_, rfl, rfl⟩
    refine ⟨c, hrun, hstat, ?_⟩
    have hexact := (pending_iff_answerable []
      (splitHeader.map MapReduceConnection.Event.socket)).2 c hrun
    refine hexact.mp ?_ _ c List.prefix_rfl hrun
    rw [hstart]
    refine (along_cons rfl).mpr ⟨fun bytes _ _ h => absurd h (by simp [Stream.received]), ?_⟩
    refine (along_cons rfl).mpr ⟨fun bytes _ _ h => ?_, along_nil _⟩
    obtain rfl : [2, 0, 0, 0] = bytes := Option.some.inj h
    exact hheader

theorem stuck_zeroHeader :
    (∃ c, run ConcurrentConnection.step ConcurrentConnection.start
        [.readable (.data [0, 0, 0, 0])] = some c ∧
      ¬ (c.inMap = true → c.stream.readPending ≠ c.stream.writePending)) ∧
      ∃ c, run MapReduceConnection.step MapReduceConnection.start
          [.socket (.readable (.data [0, 0, 0, 0]))] = some c ∧
        ¬ (c.inMap = true → c.stream.readPending = true) := by
  rw [ConcurrentConnection.start_eq, MapReduceConnection.start,
    MapReduceConnection.startReadOrWriteInService_eq, Stream.asyncRecvBytes_new]
  exact ⟨⟨_, rfl, by decide⟩, ⟨_, rfl, by decide⟩⟩

end Banana
