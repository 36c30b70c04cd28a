import Banana.Examples.FrameDecoder
import Banana.Library.NativeInt

/-!
# ClientConnection

The simulated client of `examples/ConcurrenceSimulateServer`: it sends its
message again as soon as the last one has gone, and next to that reads echoes,
a header of four bytes and then a body.  All the clients add to one
`echoCount_`; the one that completes it finds that all echoes are there.

A callback yields notes, as those of the server do.
-/

namespace Banana

/-- `clientNum_` and `msgNum_` of a `ConcurrenceSimulateServer`. -/
structure Load where
  clientNum : ℕ
  msgNum : ℕ
  clientNum_pos : 1 ≤ clientNum
  msgNum_pos : 1 ≤ msgNum
  range : msgNum * clientNum ≤ 2147483647

/-- The descriptor of a connection, an `int` that `Connection` asserts to be positive. -/
structure Fd where
  val : ℕ
  range : 0 < val ∧ val < 2147483648

structure ClientConnection where
  handle : Fd
  stat : ConnectionStat
  selfEchoCount : ℤ
  sendBuf : List UInt8
  stream : Stream
  inMap : Bool

namespace ClientConnection

/-- A callback of a client: the client, `echoCount_` and the notes. -/
structure Reaction where
  client : ClientConnection
  echoCount : ℤ
  notes : List Note

def text (s : String) : List UInt8 := s.toList.map fun ch => UInt8.ofNat ch.toNat

def decimal (n : ℕ) : List UInt8 := (Nat.toDigits 10 n).map fun ch => UInt8.ofNat ch.toNat

def message (fd : Fd) : List UInt8 :=
  text "client fd:" ++ decimal fd.val ++ text " echo hello!"

def destroy (c : ClientConnection) : ClientConnection := { c with inMap := false }

/-- Send the message, or give up. -/
def sendMessage (c : ClientConnection) : Bool × ClientConnection :=
  match c.stream.asyncSendBytes (frame (message c.handle)) with
  | (true, stream) => (true, { c with sendBuf := frame (message c.handle), stream := stream })
  | (false, _) => (false, { c with sendBuf := frame (message c.handle) }.destroy)

/-- Receive the first header, or give up. -/
def startRecvHead (c : ClientConnection) : ClientConnection :=
  match c.stream.asyncRecvBytes 4 with
  | (true, stream) => { c with stat := .recvHead, stream := stream }
  | (false, _) => { c with stat := .recvHead }.destroy

def startReadOrWriteInService (c : ClientConnection) : ClientConnection × List Note :=
  match c.sendMessage with
  | (true, c') =>
      (c'.startRecvHead, [c.stream.sendNote (message c.handle), c'.stream.recvNote 4])
  | (false, c') => (c', [c.stream.sendNote (message c.handle)])

variable (load : Load) (echoCount : ℤ)

def recvHeadDone (c : ClientConnection) (bodyLen : ℤ) : Reaction :=
  if 1024 < bodyLen then
    ⟨{ c with stream := (c.stream.asyncRecvBytes 4).2 }, echoCount,
      [.decodeError, c.stream.recvNote 4]⟩
  else
    ⟨{ c with stream := (c.stream.asyncRecvBytes bodyLen).2, stat := .recvBody }, echoCount,
      [c.stream.recvNote bodyLen]⟩

/-- The counter is increased before it is compared, and `selfEchoCount_` only
if there are echoes to come. -/
def recvBodyDone (c : ClientConnection) (vecBytes : List UInt8) : Reaction :=
  if NativeInt.wrap (load.msgNum * load.clientNum) ≤ NativeInt.wrap (echoCount + 1) then
    ⟨c.destroy, NativeInt.wrap (echoCount + 1), [.echo vecBytes, .allReceived]⟩
  else if NativeInt.wrap (c.selfEchoCount + 1) = (load.msgNum : ℤ) then
    ⟨{ c with selfEchoCount := NativeInt.wrap (c.selfEchoCount + 1) },
      NativeInt.wrap (echoCount + 1), [.echo vecBytes]⟩
  else
    ⟨{ c with
        selfEchoCount := NativeInt.wrap (c.selfEchoCount + 1)
        stat := .recvHead
        stream := (c.stream.asyncRecvBytes 4).2 },
      NativeInt.wrap (echoCount + 1), [.echo vecBytes, c.stream.recvNote 4]⟩

def recvCompleteCallback (c : ClientConnection) (retRecvStat : StreamStat)
    (vecBytes : List UInt8) : Reaction :=
  if retRecvStat = .recverr then ⟨c.destroy, echoCount, []⟩
  else
    match c.stat with
    | .recvHead =>
        if vecBytes.length < 4 then
          ⟨{ c with stream := (c.stream.asyncRecvBytes 4).2 }, echoCount,
            [.decodeError, c.stream.recvNote 4]⟩
        else c.recvHeadDone echoCount (NativeInt.decode vecBytes).val
    | .recvBody => c.recvBodyDone load echoCount vecBytes

def sendCompleteCallback (c : ClientConnection) (retSendStat : StreamStat) : Reaction :=
  if retSendStat = .senderr then ⟨c.destroy, echoCount, []⟩
  else if c.selfEchoCount = (load.msgNum : ℤ) then ⟨c, echoCount, []⟩
  else ⟨c.sendMessage.2, echoCount, [c.stream.sendNote (message c.handle)]⟩

/-- The connection that `onConnection` makes of a stream, and starts. -/
def start (fd : Fd) : ClientConnection × List Note :=
  startReadOrWriteInService
    { handle := fd, stat := .recvHead, selfEchoCount := 0, sendBuf := [], stream := .new,
      inMap := true }

/-- One event callback.  The map holds the only reference, so there are no
events for a client that has been removed. -/
def step (c : ClientConnection) : SocketEvent → Option Reaction
  | .readable r =>
      if c.inMap = true ∧ c.stream.readPending = true ∧ c.stream.mayRecv r = true then
        match c.stream.recvOnePack r with
        | (stream, none) => some ⟨{ c with stream := stream }, echoCount, []⟩
        | (stream, some (retRecvStat, vecBytes)) =>
            some ({ c with stream := stream }.recvCompleteCallback load echoCount retRecvStat
              vecBytes)
      else none
  | .writable r =>
      if c.inMap = true ∧ c.stream.writePending = true ∧ c.stream.maySend r = true then
        match c.stream.sendOnePack r with
        | (stream, none) => some ⟨{ c with stream := stream }, echoCount, []⟩
        | (stream, some retSendStat) =>
            some ({ c with stream := stream }.sendCompleteCallback load echoCount retSendStat)
      else none

end ClientConnection

end Banana
