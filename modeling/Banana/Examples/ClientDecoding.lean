import Banana.Examples.ClientConnection
import Banana.Examples.EchoFidelity

/-!
# What a client does with its echoes

A `ClientConnection` reads with the frame decoder until it has its echoes, and
sends message after message on the other side of the stream.  When what arrives
is a part of a concatenation of frames that fit, it is where the decoder is,
every request it makes is accepted and made when none is in progress, and
`echoCount_` grows by one with every echo.
-/

namespace Banana

open Segments
open ConcurrentConnection (frame_ne_nil unsent_of_not_pending wire_concat bodiesOf_concat_body
  bodiesOf_concat_head completedOf_mk)

namespace Note

/-- Neither a decode error nor a request that is refused or comes too early. -/
def Clean : Note → Prop
  | decodeError => False
  | asyncRecv inProgress ok => inProgress = false ∧ ok = true
  | asyncSend _ inProgress ok => inProgress = false ∧ ok = true
  | echo _ => True
  | allReceived => True

def echoed : Note → Option (List UInt8)
  | echo body => some body
  | _ => none

def sent : Note → Option (List UInt8)
  | asyncSend body _ _ => some body
  | _ => none

end Note

def echoesOf (notes : List Note) : List (List UInt8) := notes.filterMap Note.echoed

def sentOf (notes : List Note) : List (List UInt8) := notes.filterMap Note.sent

@[simp] theorem echoesOf_append (notes notes' : List Note) :
    echoesOf (notes ++ notes') = echoesOf notes ++ echoesOf notes' := List.filterMap_append

@[simp] theorem sentOf_append (notes notes' : List Note) :
    sentOf (notes ++ notes') = sentOf notes ++ sentOf notes' := List.filterMap_append

theorem clean_recvNote {st : Stream} {num : ℤ} (hread : st.readPending = false) (hpos : 1 ≤ num)
    (hle : num ≤ 1024) : (st.recvNote num).Clean :=
  ⟨hread, (st.asyncRecvBytes_of_pos (by omega) hle).1⟩

theorem asyncSendBytes_frame (st : Stream) {body : List UInt8} (hfits : Fits 1020 body) :
    (st.asyncSendBytes (frame body)).1 = true ∧
      0 < (st.asyncSendBytes (frame body)).2.needSendLen := by
  have hlen := length_frame body
  have hpos := frame_ne_nil body
  obtain ⟨-, hle⟩ := hfits
  rw [Stream.asyncSendBytes, if_neg (by rw [Stream.defaultBuffLen]; omega)]
  exact ⟨rfl, hpos⟩

theorem clean_sendNote {st : Stream} {body : List UInt8} (hwrite : st.writePending = false)
    (hfits : Fits 1020 body) : (st.sendNote body).Clean :=
  ⟨hwrite, (asyncSendBytes_frame st hfits).1⟩

/-! ## The segments of frames -/

/-- A receive on a concatenation of frames. -/
inductive SegmentOf (bodies : List (List UInt8)) : ConnectionStat → List UInt8 → Prop
  | header (body : List UInt8) (hbody : body ∈ bodies) :
      SegmentOf bodies .recvHead (NativeInt.bytesOfNat 4 body.length)
  | body (body : List UInt8) (hbody : body ∈ bodies) : SegmentOf bodies .recvBody body

theorem segmentOf_mem {bodies : List (List UInt8)} {stat : ConnectionStat} {segment : List UInt8}
    (h : (stat, segment) ∈ segmentsOf bodies) : SegmentOf bodies stat segment := by
  rw [segmentsOf, List.mem_flatMap] at h
  obtain ⟨body, hbody, h⟩ := h
  rw [List.mem_pair] at h
  rcases h with h | h
  · obtain ⟨rfl, rfl⟩ := Prod.mk.inj h
    exact .header _ hbody
  · obtain ⟨rfl, rfl⟩ := Prod.mk.inj h
    exact .body _ hbody

/-- The segment that is completed while frames that fit arrive. -/
theorem segmentOf_complete {limit : ℕ} {bodies : List (List UInt8)} {received bytes : List UInt8}
    {segment : List UInt8} (hfits : ∀ body ∈ bodies, Fits limit body) (hlimit : limit ≤ 1024)
    (hpart : received ++ bytes <+: wire bodies)
    (hscan : scan (decoder limit) (decoded limit received) bytes =
      complete (decoder limit) (decoded limit received) segment) :
    SegmentOf bodies (decoded limit received).mode.stat segment := by
  obtain ⟨-, hsegments⟩ := decoded_part hfits hlimit hpart
  rw [decoded_append, hscan, completedOf_complete] at hsegments
  exact segmentOf_mem (hsegments.subset (by simp))

/-! ## The sending side -/

/-- The bytes that `send` takes. -/
def Stream.sentBy (st : Stream) : SocketEvent → List UInt8
  | .readable _ => []
  | .writable r => st.taken r

/-- The bodies whose frames have been given to the stream, and the bytes taken. -/
structure SendSide (st : Stream) (sent : List UInt8) (bodies : List (List UInt8)) : Prop where
  sending : st.Sending
  need : st.writePending = true → 0 < st.needSendLen
  sent_eq : sent ++ st.unsent = wire bodies

theorem SendSide.of_sameSend {st st' : Stream} {sent : List UInt8} {bodies : List (List UInt8)}
    (h : SendSide st sent bodies) (hsame : Stream.SameSend st st') : SendSide st' sent bodies where
  sending := hsame.sending h.sending
  need := by
    rw [hsame.2.2.2, hsame.2.2.1]
    exact h.need
  sent_eq := by rw [hsame.unsent, h.sent_eq]

theorem SendSide.sendOnePack {st : Stream} {sent : List UInt8} {bodies : List (List UInt8)}
    {r : SendResult} (h : SendSide st sent bodies) (hpending : st.writePending = true)
    (hmay : st.maySend r = true) (hfails : r.fails = false) :
    SendSide (st.sendOnePack r).1 (sent ++ st.taken r) bodies := by
  obtain ⟨hunsent, hsending⟩ :=
    h.sending.sendOnePack hpending hmay (st.sendOnePack_ne_senderr hfails)
  refine ⟨hsending, fun hwrite => ?_, ?_⟩
  · have hwrote := st.wrote_sendOnePack r
    have hneed := @Stream.needSendLen_sendOnePack st r (h.need hpending)
    have hok := st.sendOnePack_ne_senderr hfails
    generalize st.sendOnePack r = out at hwrote hneed hok hwrite
    cases hwrote with
    | continues st' _ _ _ => exact hneed rfl
    | completes st' _ _ hdone => simp [hdone] at hwrite
    | fails st' _ _ => exact absurd rfl hok
  · rw [List.append_assoc, ← hunsent, h.sent_eq]

theorem SendSide.asyncSendBytes {st : Stream} {sent body : List UInt8}
    {bodies : List (List UInt8)} (h : SendSide st sent bodies) (hwrite : st.writePending = false)
    (hfits : Fits 1020 body) :
    SendSide (st.asyncSendBytes (frame body)).2 sent (bodies ++ [body]) := by
  have hle : (frame body).length ≤ 1024 := by
    rw [length_frame]
    have hfit := hfits.2
    omega
  obtain ⟨hunsent, hsending⟩ := st.asyncSendBytes_unsent hle
  have hsent := h.sent_eq
  rw [unsent_of_not_pending hwrite, List.append_nil] at hsent
  refine ⟨hsending, fun _ => (asyncSendBytes_frame st hfits).2, ?_⟩
  rw [hunsent, wire_concat, hsent]

/-! ## The receiving side -/

namespace ClientConnection

theorem fits_message (fd : Fd) : Fits 1020 (message fd) := by
  have hdigits : (Nat.toDigits 10 fd.val).length ≤ 10 := by
    have hrange := fd.range.2
    rw [Nat.length_toDigits_le_iff (by decide) (by decide)]
    omega
  have hfront : (text "client fd:").length = 10 := by decide
  have hback : (text " echo hello!").length = 12 := by decide
  have hlen : (message fd).length = 22 + (Nat.toDigits 10 fd.val).length := by
    rw [message, List.length_append, List.length_append, hfront, hback, decimal, List.length_map]
    omega
  constructor
  · omega
  · omega

theorem sendMessage_eq (c : ClientConnection) :
    c.sendMessage = (true, { c with
      sendBuf := frame (message c.handle)
      stream := (c.stream.asyncSendBytes (frame (message c.handle))).2 }) := by
  have hok := (asyncSendBytes_frame c.stream (fits_message c.handle)).1
  rw [sendMessage]
  rcases hsend : c.stream.asyncSendBytes (frame (message c.handle)) with ⟨ok, stream⟩
  rw [hsend] at hok
  obtain rfl : ok = true := hok
  rfl

theorem startRecvHead_eq (c : ClientConnection) :
    c.startRecvHead = { c with stat := .recvHead, stream := (c.stream.asyncRecvBytes 4).2 } := by
  rw [startRecvHead, c.stream.asyncRecvBytes_four]

/-- The client reads with the decoder until it has received all its echoes. -/
inductive Reads (load : Load) (c : ClientConnection) (R : FrameReader) : Prop
  | awaits (h : Awaits c.stat c.stream R)
      (hlt : (bodiesOf (completedOf R)).length < load.msgNum)
      (hself : c.selfEchoCount = (bodiesOf (completedOf R)).length)
  | done (hread : c.stream.readPending = false)
      (hle : (bodiesOf (completedOf R)).length ≤ load.msgNum)

/-- What a callback does to `echoCount_`. -/
inductive Counts (load : Load) (echoCount : ℕ) : ℤ → List Note → Prop
  | quiet (notes : List Note) (hechoes : echoesOf notes = [])
      (hall : notes.count .allReceived = 0) : Counts load echoCount echoCount notes
  | echo (notes : List Note) (body : List UInt8)
      (hlt : echoCount + 1 < load.msgNum * load.clientNum) (hechoes : echoesOf notes = [body])
      (hall : notes.count .allReceived = 0) : Counts load echoCount (echoCount + 1 : ℕ) notes
  | last (notes : List Note) (body : List UInt8)
      (heq : echoCount + 1 = load.msgNum * load.clientNum) (hechoes : echoesOf notes = [body])
      (hall : notes.count .allReceived = 1) : Counts load echoCount (echoCount + 1 : ℕ) notes

/-- The client has completed a segment and the decoder is at `R` behind it. -/
structure Handles (load : Load) (echoCount : ℕ) (c : ClientConnection) (R : FrameReader)
    (bodies : List (List UInt8)) (out : Reaction) : Prop where
  reads : Reads load out.client R
  counts : Counts load echoCount out.echoCount out.notes
  sameSend : Stream.SameSend c.stream out.client.stream
  clean : ∀ note ∈ out.notes, note.Clean
  echoes_eq : echoesOf out.notes = bodies
  sent_eq : sentOf out.notes = []

variable {load : Load} {echoCount : ℕ} {c : ClientConnection} {R : FrameReader}

theorem recvCompleteCallback_head {bytes : List UInt8} (hstat : c.stat = .recvHead)
    (hlen : bytes.length = 4) :
    c.recvCompleteCallback load echoCount .recved bytes =
      c.recvHeadDone echoCount (NativeInt.decode bytes).val := by
  simp [recvCompleteCallback, hstat, hlen]

theorem recvHead_handles {body : List UInt8} (hfits : Fits 1020 body) (hmode : R.mode = .head)
    (hstat : c.stat = .recvHead) (hread : c.stream.readPending = false)
    (hlt : (bodiesOf (completedOf R)).length < load.msgNum)
    (hself : c.selfEchoCount = (bodiesOf (completedOf R)).length) :
    Handles load echoCount c
      (complete (decoder 1024) R (NativeInt.bytesOfNat 4 body.length)) []
      (c.recvCompleteCallback load echoCount .recved (NativeInt.bytesOfNat 4 body.length)) := by
  obtain ⟨hpos, hle⟩ := hfits
  have hcall : c.recvCompleteCallback load echoCount .recved
      (NativeInt.bytesOfNat 4 body.length) =
        ⟨{ c with stream := (c.stream.asyncRecvBytes body.length).2, stat := .recvBody }, echoCount,
          [c.stream.recvNote body.length]⟩ := by
    have hlong : ¬ (1024 : ℤ) < body.length := by omega
    rw [recvCompleteCallback_head hstat (NativeInt.length_bytesOfNat 4 _),
      decode_header (by omega), recvHeadDone, if_neg hlong]
  have hlog : completedOf (complete (decoder 1024) R (NativeInt.bytesOfNat 4 body.length)) =
      completedOf R ++ [(.recvHead, NativeInt.bytesOfNat 4 body.length)] := by
    rw [completedOf_complete, hmode]
    rfl
  have hnext : complete (decoder 1024) R (NativeInt.bytesOfNat 4 body.length) =
      ⟨.body body.length, [], R.log ++ [(R.mode, NativeInt.bytesOfNat 4 body.length)]⟩ := by
    rw [complete, hmode, next_head, afterHead_header hpos (by omega)]
  have hawaits := (@awaits_asyncRecvBytes c.stream (.body body.length) body.length
    (R.log ++ [(R.mode, NativeInt.bytesOfNat 4 body.length)]) rfl (by omega) (by omega)).2
  rw [← hnext] at hawaits
  rw [hcall]
  refine ⟨.awaits hawaits ?_ ?_, .quiet _ rfl ?_, c.stream.sameSend_asyncRecvBytes _, ?_, rfl, rfl⟩
  · rwa [hlog, bodiesOf_concat_head]
  · rwa [hlog, bodiesOf_concat_head]
  · simp [Stream.recvNote]
  · rw [List.forall_mem_singleton]
    exact clean_recvNote hread (by omega) (by omega)

theorem wrap_echoCount (load : Load) (hroom : echoCount + 1 ≤ load.msgNum * load.clientNum) :
    NativeInt.wrap ((echoCount : ℤ) + 1) = (echoCount + 1 : ℕ) ∧
      NativeInt.wrap ((load.msgNum : ℤ) * load.clientNum) = (load.msgNum * load.clientNum : ℕ) := by
  have hrange := load.range
  have hproduct : ((load.msgNum : ℤ) * load.clientNum) = (load.msgNum * load.clientNum : ℕ) :=
    (Nat.cast_mul _ _).symm
  rw [hproduct]
  constructor
  · rw [NativeInt.wrap_of_range (by omega) (by omega), Nat.cast_succ]
  · rw [NativeInt.wrap_of_range (by omega) (by omega)]

theorem msgNum_le (load : Load) : load.msgNum ≤ 2147483647 :=
  (Nat.le_mul_of_pos_right _ load.clientNum_pos).trans load.range

theorem recvBody_handles {body : List UInt8} {num : ℕ} (hle : body.length ≤ 1024)
    (hmode : R.mode = .body num) (hstat : c.stat = .recvBody)
    (hread : c.stream.readPending = false)
    (hlt : (bodiesOf (completedOf R)).length < load.msgNum)
    (hself : c.selfEchoCount = (bodiesOf (completedOf R)).length)
    (hroom : echoCount + 1 ≤ load.msgNum * load.clientNum) :
    Handles load echoCount c (complete (decoder 1024) R body) [body]
      (c.recvCompleteCallback load echoCount .recved body) := by
  have hcall : c.recvCompleteCallback load echoCount .recved body =
      c.recvBodyDone load echoCount body := by
    simp [recvCompleteCallback, hstat]
  have hcount : (bodiesOf (completedOf (complete (decoder 1024) R body))).length =
      (bodiesOf (completedOf R)).length + 1 := by
    have hlog : completedOf (complete (decoder 1024) R body) =
        completedOf R ++ [(.recvBody, body)] := by
      rw [completedOf_complete, hmode]
      rfl
    rw [hlog, bodiesOf_concat_body, List.length_append, List.length_singleton]
  have hnext : complete (decoder 1024) R body = ⟨.head, [], R.log ++ [(R.mode, body)]⟩ := by
    rw [complete, hmode, next_body, DecoderMode.afterBody, if_pos hle]
  obtain ⟨hecho, hproduct⟩ := wrap_echoCount load hroom
  have hnextSelf : NativeInt.wrap (c.selfEchoCount + 1) =
      ((bodiesOf (completedOf R)).length + 1 : ℕ) := by
    have hmsg := msgNum_le load
    rw [hself, NativeInt.wrap_of_range (by omega) (by omega), Nat.cast_succ]
  rw [hcall, recvBodyDone, hecho, hproduct, hnextSelf]
  by_cases hall : echoCount + 1 = load.msgNum * load.clientNum
  · rw [if_pos (by omega)]
    refine ⟨.done hread (by omega), .last _ body hall rfl ?_, .refl _, ?_, rfl, rfl⟩
    · simp
    · simp [Note.Clean]
  · rw [if_neg (by omega)]
    by_cases hmine : (bodiesOf (completedOf R)).length + 1 = load.msgNum
    · rw [if_pos (by omega)]
      refine ⟨.done hread (by omega), .echo _ body (by omega) rfl ?_, .refl _, ?_, rfl, rfl⟩
      · simp
      · simp [Note.Clean]
    · rw [if_neg (by omega)]
      have hawaits := awaits_recvHead c.stream (R.log ++ [(R.mode, body)])
      rw [← hnext] at hawaits
      refine ⟨.awaits hawaits (by omega) (by rw [hcount]), .echo _ body (by omega) rfl ?_,
        c.stream.sameSend_asyncRecvBytes _, ?_, rfl, rfl⟩
      · simp [Stream.recvNote]
      · rw [List.forall_mem_cons, List.forall_mem_singleton]
        exact ⟨trivial, clean_recvNote hread (by decide) (by decide)⟩

/-! ## The client follows the decoder -/

/-- The state and what the client has done after `received`. -/
structure Follows (load : Load) (c : ClientConnection) (received sent : List UInt8)
    (notes : List Note) : Prop where
  reads : Reads load c (decoded 1024 received)
  sendSide : SendSide c.stream sent (sentOf notes)
  echoes_eq : echoesOf notes = bodiesOf (completedOf (decoded 1024 received))
  fits : ∀ body ∈ sentOf notes, Fits 1020 body
  clean : ∀ note ∈ notes, note.Clean

variable {received sent : List UInt8} {notes : List Note} {out : Reaction}

theorem Reads.count_le (h : Reads load c R) :
    (bodiesOf (completedOf R)).length ≤ load.msgNum := by
  cases h with
  | awaits _ hlt _ => exact hlt.le
  | done _ hle => exact hle

theorem Reads.of_sameReceive {d : ClientConnection} (h : Reads load c R) (hstat : d.stat = c.stat)
    (hself : d.selfEchoCount = c.selfEchoCount)
    (hread : d.stream.readPending = c.stream.readPending)
    (hlen : d.stream.recvLen = c.stream.recvLen)
    (hneed : d.stream.needRecvLen = c.stream.needRecvLen)
    (hbuf : d.stream.recvBuf = c.stream.recvBuf) : Reads load d R := by
  cases h with
  | awaits h hlt hcount =>
      rw [← hstat] at h
      exact .awaits (h.of_sameReceive hread hlen hneed hbuf) hlt (hself.trans hcount)
  | done hidle hle => exact .done (hread.trans hidle) hle

/-- A completed segment is handled. -/
theorem recvCompleteCallback_handles {bodies : List (List UInt8)} {segment : List UInt8}
    (hfits : ∀ body ∈ bodies, Fits 1020 body) (hsegment : SegmentOf bodies R.mode.stat segment)
    (hmode : R.mode ≠ .stuck) (hstat : c.stat = R.mode.stat)
    (hread : c.stream.readPending = false)
    (hlt : (bodiesOf (completedOf R)).length < load.msgNum)
    (hself : c.selfEchoCount = (bodiesOf (completedOf R)).length)
    (hroom : echoCount + 1 ≤ load.msgNum * load.clientNum) :
    Handles load echoCount c (complete (decoder 1024) R segment)
      (bodiesOf [(R.mode.stat, segment)])
      (c.recvCompleteCallback load echoCount .recved segment) := by
  cases hat : R.mode with
  | head =>
      rw [hat] at hsegment hstat
      cases hsegment with
      | header body hbody => exact recvHead_handles (hfits body hbody) hat hstat hread hlt hself
  | body num =>
      rw [hat] at hsegment hstat
      cases hsegment with
      | body body hbody =>
          have hle := (hfits segment hbody).2
          exact recvBody_handles (by omega) hat hstat hread hlt hself hroom
  | stuck => exact absurd hat hmode

theorem Follows.readable {r : RecvResult} {bodies : List (List UInt8)}
    (h : Follows load c received sent notes) (hfails : r.fails = false)
    (hfits : ∀ body ∈ bodies, Fits 1020 body) (hpart : received ++ r.bytes <+: wire bodies)
    (hroom : (echoesOf notes).length < load.msgNum →
      echoCount + 1 ≤ load.msgNum * load.clientNum)
    (hstep : c.step load echoCount (.readable r) = some out) :
    Follows load out.client (received ++ r.bytes) sent (notes ++ out.notes) ∧
      Counts load echoCount out.echoCount out.notes := by
  simp only [ClientConnection.step, Option.ite_none_right_eq_some] at hstep
  obtain ⟨⟨hmap, hpending, hmay⟩, hstep⟩ := hstep
  cases h.reads with
  | done hread _ => simp [hread] at hpending
  | awaits hawaits hlt hself =>
      have hevent := hawaits.readEvent hmay hfails 1024
      have hsame := c.stream.sameSend_recvOnePack r
      generalize c.stream.recvOnePack r = result at hevent hstep hsame
      cases hevent with
      | continues st' hnone h' hlog =>
          obtain rfl := Option.some.inj hstep
          rw [← decoded_append] at h' hlog
          refine ⟨⟨.awaits h' ?_ ?_, ?_, ?_, ?_, ?_⟩, .quiet _ rfl rfl⟩
          · rwa [hlog]
          · rwa [hlog]
          · rw [List.append_nil]
            exact h.sendSide.of_sameSend hsame
          · rw [List.append_nil, hlog, h.echoes_eq]
          · rw [List.append_nil]
            exact h.fits
          · rw [List.append_nil]
            exact h.clean
      | completes st' segment hsome hread hlen hscan =>
          obtain rfl := Option.some.inj hstep
          have hsegment := segmentOf_complete
            (fun body hbody => ⟨(hfits body hbody).1, (hfits body hbody).2.trans (by decide)⟩)
            (by decide) hpart hscan
          rw [h.echoes_eq] at hroom
          have hhandles := @recvCompleteCallback_handles load echoCount { c with stream := st' } _
            bodies segment hfits hsegment hawaits.not_stuck hawaits.stat_eq hread hlt hself
            (hroom hlt)
          rw [← hscan, ← decoded_append] at hhandles
          refine ⟨⟨hhandles.reads, ?_, ?_, ?_, ?_⟩, hhandles.counts⟩
          · rw [sentOf_append, hhandles.sent_eq, List.append_nil]
            exact (h.sendSide.of_sameSend hsame).of_sameSend hhandles.sameSend
          · rw [echoesOf_append, hhandles.echoes_eq, h.echoes_eq, decoded_append, hscan,
              completedOf_complete, bodiesOf_append]
          · rw [sentOf_append, hhandles.sent_eq, List.append_nil]
            exact h.fits
          · rw [List.forall_mem_append]
            exact ⟨h.clean, hhandles.clean⟩

theorem Follows.writable {r : SendResult} (h : Follows load c received sent notes)
    (hfails : r.fails = false) (hstep : c.step load echoCount (.writable r) = some out) :
    Follows load out.client received (sent ++ c.stream.taken r) (notes ++ out.notes) ∧
      Counts load echoCount out.echoCount out.notes := by
  simp only [ClientConnection.step, Option.ite_none_right_eq_some] at hstep
  obtain ⟨⟨hmap, hpending, hmay⟩, hstep⟩ := hstep
  have hside := h.sendSide.sendOnePack hpending hmay hfails
  have hok := c.stream.sendOnePack_ne_senderr hfails
  have hwrote := c.stream.wrote_sendOnePack r
  obtain ⟨hread, hlen, hneed, hbuf, -⟩ := c.stream.sameReceive_sendOnePack r
  generalize c.stream.sendOnePack r = result at hside hok hwrote hread hlen hneed hbuf hstep
  cases hwrote with
  | continues st' _ _ _ =>
      obtain rfl := Option.some.inj hstep
      simp only [List.append_nil]
      exact ⟨⟨h.reads.of_sameReceive rfl rfl hread hlen hneed hbuf, hside, h.echoes_eq, h.fits,
        h.clean⟩, .quiet _ rfl rfl⟩
  | completes st' _ _ hwrite =>
      obtain rfl := Option.some.inj hstep
      have hreads : Reads load { c with stream := st' } (decoded 1024 received) :=
        h.reads.of_sameReceive rfl rfl hread hlen hneed hbuf
      rw [sendCompleteCallback, if_neg (by decide)]
      by_cases hdone : c.selfEchoCount = (load.msgNum : ℤ)
      · rw [if_pos hdone]
        simp only [List.append_nil]
        exact ⟨⟨hreads, hside, h.echoes_eq, h.fits, h.clean⟩, .quiet _ rfl rfl⟩
      · rw [if_neg hdone, sendMessage_eq]
        obtain ⟨hread', hlen', hneed', hbuf', -⟩ :=
          st'.sameReceive_asyncSendBytes (frame (message c.handle))
        refine ⟨⟨hreads.of_sameReceive rfl rfl hread' hlen' hneed' hbuf', ?_, ?_, ?_, ?_⟩,
          .quiet _ rfl ?_⟩
        · rw [sentOf_append]
          exact hside.asyncSendBytes hwrite (fits_message c.handle)
        · rw [echoesOf_append, h.echoes_eq]
          exact List.append_nil _
        · rw [sentOf_append, List.forall_mem_append]
          refine ⟨h.fits, ?_⟩
          rintro body hbody
          obtain rfl : body = message c.handle := List.mem_singleton.mp hbody
          exact fits_message c.handle
        · rw [List.forall_mem_append, List.forall_mem_singleton]
          exact ⟨h.clean, clean_sendNote hwrite (fits_message c.handle)⟩
        · simp [Stream.sendNote]
  | fails st' _ _ => exact absurd rfl hok

theorem Follows.step {e : SocketEvent} {bodies : List (List UInt8)}
    (h : Follows load c received sent notes) (hdelivers : e.Delivers)
    (hfits : ∀ body ∈ bodies, Fits 1020 body) (hpart : received ++ e.arrived <+: wire bodies)
    (hroom : (echoesOf notes).length < load.msgNum →
      echoCount + 1 ≤ load.msgNum * load.clientNum)
    (hstep : c.step load echoCount e = some out) :
    Follows load out.client (received ++ e.arrived) (sent ++ c.stream.sentBy e)
        (notes ++ out.notes) ∧
      Counts load echoCount out.echoCount out.notes := by
  cases e with
  | readable r =>
      rw [Stream.sentBy, List.append_nil]
      exact h.readable hdelivers hfits hpart hroom hstep
  | writable r =>
      rw [SocketEvent.arrived, List.append_nil]
      exact h.writable hdelivers hstep

theorem follows_start (load : Load) (fd : Fd) :
    Follows load (start fd).1 [] [] (start fd).2 := by
  rw [start, startReadOrWriteInService, sendMessage_eq]
  simp only [startRecvHead_eq]
  have hfits := fits_message fd
  have hnew : SendSide Stream.new [] [] := ⟨nofun, nofun, rfl⟩
  have hside : SendSide (Stream.new.asyncSendBytes (frame (message fd))).2 [] [message fd] :=
    hnew.asyncSendBytes rfl hfits
  have hsame := (Stream.new.asyncSendBytes (frame (message fd))).2.sameSend_asyncRecvBytes 4
  refine ⟨.awaits (awaits_recvHead _ []) load.msgNum_pos rfl, hside.of_sameSend hsame, rfl, ?_, ?_⟩
  · rintro body hbody
    obtain rfl : body = message fd := List.mem_singleton.mp hbody
    exact hfits
  · rw [List.forall_mem_cons, List.forall_mem_singleton]
    refine ⟨clean_sendNote rfl hfits, clean_recvNote ?_ (by decide) (by decide)⟩
    exact (Stream.new.readPending_asyncSendBytes _).trans rfl

theorem counts_start (load : Load) (echoCount : ℕ) (fd : Fd) :
    Counts load echoCount echoCount (start fd).2 := by
  rw [start, startReadOrWriteInService, sendMessage_eq]
  refine .quiet _ rfl ?_
  simp [Stream.sendNote, Stream.recvNote]

end ClientConnection

end Banana
