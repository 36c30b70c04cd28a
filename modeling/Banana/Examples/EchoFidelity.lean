import Banana.Examples.FrameDecoder
import Banana.Network.ExactSend

/-!
# What the echo server sends

A `ConcurrentConnection` reads with the frame decoder and sends each body back
before it reads on.  The send buffer takes no more than 1024 bytes and the
answer is four bytes longer than the body, so a body above 1020 is received and
not answered, and the connection waits for nothing any more.  The frames come
back exactly when no body is that long.
-/

namespace Banana

open Segments Transition

theorem Stream.sendOnePack_ne_senderr (st : Stream) {r : SendResult} (hfails : r.fails = false) :
    (st.sendOnePack r).2 ≠ some .senderr := by
  cases r with
  | sent len =>
      rw [Stream.sendOnePack]
      split_ifs <;> simp
  | zero => simp [SendResult.fails] at hfails
  | again => simp [Stream.sendOnePack]
  | error => simp [SendResult.fails] at hfails

/-- The peer keeps the connection open and reads. -/
def SocketEvent.Delivers : SocketEvent → Prop
  | .readable r => r.fails = false
  | .writable r => r.fails = false

instance SocketEvent.delivers_decidable : DecidablePred SocketEvent.Delivers
  | .readable r => inferInstanceAs (Decidable (r.fails = false))
  | .writable r => inferInstanceAs (Decidable (r.fails = false))

def SocketEvent.arrived : SocketEvent → List UInt8
  | .readable r => r.bytes
  | .writable _ => []

namespace ConcurrentConnection

/-- The receives that complete, with `stat_` at that time. -/
def completed (c : ConcurrentConnection) : SocketEvent → List (ConnectionStat × List UInt8)
  | .readable r => (c.stream.received r).toList.map fun bytes => (c.stat, bytes)
  | .writable _ => []

/-- The bytes that `send` takes. -/
def sent (c : ConcurrentConnection) : SocketEvent → List UInt8
  | .readable _ => []
  | .writable r => c.stream.taken r

def arrivedIn (es : List SocketEvent) : List UInt8 := es.flatMap SocketEvent.arrived

def completedIn (es : List SocketEvent) : List (ConnectionStat × List UInt8) :=
  (trace step start es).flatMap fun p => p.1.completed p.2

/-- The bodies received. -/
def handledIn (es : List SocketEvent) : List (List UInt8) := bodiesOf (completedIn es)

def sentIn (es : List SocketEvent) : List UInt8 :=
  (trace step start es).flatMap fun p => p.1.sent p.2

/-! ## The connection follows the decoder -/

/-- Where the connection is when the decoder is at `R` and the socket has taken
`sent`.  A connection that is stuck is so because of the last segment. -/
inductive Echoes (c : ConcurrentConnection) (R : FrameReader) (sent : List UInt8) : Prop
  | awaits (h : Awaits c.stat c.stream R) (hwrite : c.stream.writePending = false)
      (hsent : sent = wire (bodiesOf (completedOf R)))
  | answers (hmode : R.mode = .head) (hpart : R.part = []) (hread : c.stream.readPending = false)
      (hwrite : c.stream.writePending = true) (hneed : 0 < c.stream.needSendLen)
      (hsending : c.stream.Sending)
      (hsent : sent ++ c.stream.unsent = wire (bodiesOf (completedOf R)))
  | stuckHead (completed : List (ConnectionStat × List UInt8)) (header : List UInt8)
      (hmode : R.mode = .stuck) (hread : c.stream.readPending = false)
      (hwrite : c.stream.writePending = false)
      (hlog : completedOf R = completed ++ [(.recvHead, header)])
  | stuckBody (completed : List (ConnectionStat × List UInt8)) (body : List UInt8)
      (hmode : R.mode = .stuck) (hread : c.stream.readPending = false)
      (hwrite : c.stream.writePending = false)
      (hlog : completedOf R = completed ++ [(.recvBody, body)])
      (hsent : sent = wire (bodiesOf completed))

theorem frame_ne_nil (body : List UInt8) : 0 < (frame body).length := by
  rw [length_frame]
  omega

theorem wire_concat (bodies : List (List UInt8)) (body : List UInt8) :
    wire (bodies ++ [body]) = wire bodies ++ frame body := by
  rw [wire_append, wire_singleton]

theorem bodiesOf_concat_body (completed : List (ConnectionStat × List UInt8))
    (body : List UInt8) :
    bodiesOf (completed ++ [(.recvBody, body)]) = bodiesOf completed ++ [body] := by
  rw [bodiesOf_append]
  rfl

theorem bodiesOf_concat_head (completed : List (ConnectionStat × List UInt8))
    (header : List UInt8) : bodiesOf (completed ++ [(.recvHead, header)]) = bodiesOf completed := by
  rw [bodiesOf_append]
  exact List.append_nil _

theorem completedOf_mk (mode : DecoderMode) (part : List UInt8)
    (log : List (DecoderMode × List UInt8)) :
    completedOf ⟨mode, part, log⟩ = log.map fun p => (p.1.stat, p.2) := rfl

variable {c : ConcurrentConnection} {R : FrameReader} {sent : List UInt8}

theorem recvHeadDone_echoes (hstat : c.stat = .recvHead) (hread : c.stream.readPending = false)
    (hwrite : c.stream.writePending = false) (bodyLen : ℤ) (header : List UInt8)
    {log : List (DecoderMode × List UInt8)} {completed : List (ConnectionStat × List UInt8)}
    (hlog : log.map (fun p => (p.1.stat, p.2)) = completed ++ [(.recvHead, header)])
    (hsent : sent = wire (bodiesOf completed)) :
    Echoes (c.recvHeadDone bodyLen).1 ⟨.afterHead bodyLen, [], log⟩ sent := by
  have hsent' : ∀ mode, sent = wire (bodiesOf (completedOf ⟨mode, [], log⟩)) := by
    intro mode
    rw [completedOf_mk, hlog, bodiesOf_concat_head, hsent]
  unfold recvHeadDone DecoderMode.afterHead
  by_cases hlong : 1024 < bodyLen
  · rw [if_pos hlong, if_pos hlong]
    refine .awaits ?_ ?_ (hsent' .head)
    · rw [hstat]
      exact awaits_recvHead c.stream log
    · exact ((c.stream.sameSend_asyncRecvBytes 4).2.2.2).trans hwrite
  · rw [if_neg hlong, if_neg hlong]
    by_cases hpos : bodyLen ≤ 0
    · rw [if_pos hpos, c.stream.asyncRecvBytes_of_nonpos hpos]
      exact .stuckHead completed header rfl hread hwrite hlog
    · rw [if_neg hpos]
      exact .awaits (awaits_recvBody c.stream log hpos hlong)
        (((c.stream.sameSend_asyncRecvBytes bodyLen).2.2.2).trans hwrite) (hsent' _)

theorem recvBodyDone_echoes {num : ℕ} (hread : c.stream.readPending = false)
    (hwrite : c.stream.writePending = false) (hmode : R.mode = .body num)
    (hsent : sent = wire (bodiesOf (completedOf R))) (body : List UInt8) :
    Echoes (c.recvBodyDone body).1 (complete (decoder 1020) R body) sent := by
  have hlog : completedOf (complete (decoder 1020) R body) =
      completedOf R ++ [(.recvBody, body)] := by
    rw [completedOf_complete, hmode]
    rfl
  have hnext : (complete (decoder 1020) R body).mode = .afterBody 1020 body.length := by
    simp only [complete]
    rw [hmode, next_body]
  have hlen := length_frame body
  have hpos := frame_ne_nil body
  change Echoes { c with
    recvBuf := frame body
    stream := (c.stream.asyncSendBytes (frame body)).2 } _ _
  by_cases hfits : body.length ≤ 1020
  · have hle : (frame body).length ≤ 1024 := by omega
    rw [DecoderMode.afterBody, if_pos hfits] at hnext
    obtain ⟨hwrite', hread'⟩ := c.stream.asyncSendBytes_of_le hle
    obtain ⟨hunsent, hsending⟩ := c.stream.asyncSendBytes_unsent hle
    refine .answers hnext rfl (hread'.trans hread) hwrite' ?_ hsending ?_
    · have htotal := hsending hwrite'
      rw [Stream.asyncSendBytes, if_neg (by rw [Stream.defaultBuffLen]; omega)] at htotal ⊢
      exact hpos
    · rw [hunsent, hlog, bodiesOf_concat_body, wire_concat, hsent]
  · have hgt : 1024 < (frame body).length := by omega
    rw [DecoderMode.afterBody, if_neg hfits] at hnext
    rw [c.stream.asyncSendBytes_of_gt hgt]
    exact .stuckBody _ body hnext hread hwrite hlog hsent

theorem recvCompleteCallback_echoes {segment : List UInt8} (hstat : c.stat = R.mode.stat)
    (hmode : R.mode ≠ .stuck) (hlen : segment.length = R.mode.need)
    (hread : c.stream.readPending = false) (hwrite : c.stream.writePending = false)
    (hsent : sent = wire (bodiesOf (completedOf R))) :
    Echoes (c.recvCompleteCallback .recved segment).1 (complete (decoder 1020) R segment)
      sent := by
  obtain ⟨mode, part, log⟩ := R
  cases mode with
  | head =>
      have hstat : c.stat = .recvHead := hstat
      have hlen : segment.length = 4 := hlen
      rw [recvCompleteCallback_head hstat hlen]
      simp only [complete, next_head]
      refine recvHeadDone_echoes hstat hread hwrite _ segment ?_ hsent
      rw [List.map_append]
      rfl
  | body num =>
      rw [recvCompleteCallback_body hstat]
      exact recvBodyDone_echoes hread hwrite rfl hsent segment
  | stuck => exact absurd rfl hmode

/-- The state and what the connection has done after `received`. -/
structure Follows (c : ConcurrentConnection) (received : List UInt8)
    (completed : List (ConnectionStat × List UInt8)) (sent : List UInt8) : Prop where
  inMap : c.inMap = true
  echoes : Echoes c (decoded 1020 received) sent
  completed_eq : completed = completedOf (decoded 1020 received)

variable {d : ConcurrentConnection} {received : List UInt8}
  {completed : List (ConnectionStat × List UInt8)}

theorem Echoes.awaits_of_pending (h : Echoes c R sent) (hpending : c.stream.readPending = true) :
    Awaits c.stat c.stream R ∧ c.stream.writePending = false ∧
      sent = wire (bodiesOf (completedOf R)) := by
  cases h with
  | awaits h hwrite hsent => exact ⟨h, hwrite, hsent⟩
  | answers _ _ hread _ _ _ _ => simp [hread] at hpending
  | stuckHead _ _ _ hread _ _ => simp [hread] at hpending
  | stuckBody _ _ _ hread _ _ _ => simp [hread] at hpending

theorem inMap_recvCompleteCallback (c : ConcurrentConnection) (segment : List UInt8) :
    (c.recvCompleteCallback .recved segment).1.inMap = c.inMap := by
  unfold recvCompleteCallback recvHeadDone recvBodyDone
  rw [if_neg (by decide)]
  cases c.stat with
  | recvHead =>
      dsimp only
      split_ifs <;> rfl
  | recvBody => rfl

theorem Follows.readable {r : RecvResult} (h : Follows c received completed sent)
    (hfails : r.fails = false) (hstep : ConcurrentConnection.step c (.readable r) = some d) :
    Follows d (received ++ r.bytes) (completed ++ c.completed (.readable r)) sent := by
  simp only [ConcurrentConnection.step_readable, Option.ite_none_right_eq_some] at hstep
  obtain ⟨⟨hmap, hpending, hmay⟩, hstep⟩ := hstep
  obtain ⟨hawaits, hwrite, hsent⟩ := h.echoes.awaits_of_pending hpending
  have hevent := hawaits.readEvent hmay hfails 1020
  have hkept := (c.stream.sameSend_recvOnePack r).2.2.2
  rw [ConcurrentConnection.completed]
  generalize c.stream.recvOnePack r = out at hevent hstep hkept
  cases hevent with
  | continues st' hnone h' hlog =>
      obtain rfl := Option.some.inj hstep
      simp only [hnone, Option.toList_none, List.map_nil, List.append_nil]
      rw [← decoded_append] at h' hlog
      refine ⟨hmap, .awaits h' (hkept.trans hwrite) ?_, ?_⟩
      · rw [hlog, hsent]
      · rw [hlog, h.completed_eq]
  | completes st' segment hsome hread hlen hscan =>
      obtain rfl := Option.some.inj hstep
      simp only [hsome, Option.toList_some, List.map_singleton]
      refine ⟨(inMap_recvCompleteCallback _ _).trans hmap, ?_, ?_⟩
      · rw [decoded_append, hscan]
        exact @recvCompleteCallback_echoes { c with stream := st' } _ sent segment
          hawaits.stat_eq hawaits.not_stuck hlen hread (hkept.trans hwrite) hsent
      · rw [decoded_append, hscan, completedOf_complete, h.completed_eq, hawaits.stat_eq]

theorem Follows.writable {r : SendResult} (h : Follows c received completed sent)
    (hfails : r.fails = false) (hstep : ConcurrentConnection.step c (.writable r) = some d) :
    Follows d received completed (sent ++ c.sent (.writable r)) := by
  simp only [ConcurrentConnection.step_writable, Option.ite_none_right_eq_some] at hstep
  obtain ⟨⟨hmap, hpending, hmay⟩, hstep⟩ := hstep
  obtain ⟨hmode, hpart, hread, hneed, hsending, hsent⟩ :
      (decoded 1020 received).mode = .head ∧ (decoded 1020 received).part = [] ∧
        c.stream.readPending = false ∧ 0 < c.stream.needSendLen ∧ c.stream.Sending ∧
        sent ++ c.stream.unsent = wire (bodiesOf (completedOf (decoded 1020 received))) := by
    cases h.echoes with
    | awaits _ hwrite _ => simp [hwrite] at hpending
    | answers hmode hpart hread _ hneed hsending hsent =>
        exact ⟨hmode, hpart, hread, hneed, hsending, hsent⟩
    | stuckHead _ _ _ _ hwrite _ => simp [hwrite] at hpending
    | stuckBody _ _ _ _ hwrite _ _ => simp [hwrite] at hpending
  have hok := c.stream.sendOnePack_ne_senderr hfails
  obtain ⟨hunsent, hsending'⟩ := hsending.sendOnePack hpending hmay hok
  have hwrote := c.stream.wrote_sendOnePack r
  have hneed' := @Stream.needSendLen_sendOnePack c.stream r hneed
  rw [hunsent, ← List.append_assoc] at hsent
  rw [ConcurrentConnection.sent]
  generalize c.stream.sendOnePack r = out at hwrote hstep hok hsent hsending' hneed'
  cases hwrote with
  | continues st' hread' _ hwrite' =>
      obtain rfl := Option.some.inj hstep
      exact ⟨hmap, .answers hmode hpart (hread'.trans hread) (hwrite'.trans hpending)
        (hneed' rfl) hsending' hsent, h.completed_eq⟩
  | completes st' _ _ hwrite' =>
      simp only [sendCompleteCallback, reduceCtorEq, if_false, startRecvHead_eq] at hstep
      obtain rfl := Option.some.inj hstep
      have hdone : st'.unsent = [] := by
        rw [Stream.unsent, hwrite']
        rfl
      simp only [hdone, List.append_nil] at hsent
      have hreader : decoded 1020 received = ⟨.head, [], (decoded 1020 received).log⟩ := by
        rw [← hmode, ← hpart]
      refine ⟨hmap, ?_, h.completed_eq⟩
      rw [hreader] at hsent ⊢
      exact .awaits (awaits_recvHead st' _)
        (((st'.sameSend_asyncRecvBytes 4).2.2.2).trans hwrite') hsent
  | fails st' _ _ => exact absurd rfl hok

theorem Follows.step {e : SocketEvent} (h : Follows c received completed sent)
    (hdelivers : e.Delivers) (hstep : ConcurrentConnection.step c e = some d) :
    Follows d (received ++ e.arrived) (completed ++ c.completed e) (sent ++ c.sent e) := by
  cases e with
  | readable r =>
      rw [ConcurrentConnection.sent, List.append_nil]
      exact h.readable hdelivers hstep
  | writable r =>
      rw [SocketEvent.arrived, ConcurrentConnection.completed, List.append_nil, List.append_nil]
      exact h.writable hdelivers hstep

theorem follows_start : Follows start [] [] [] := by
  rw [start_eq]
  exact ⟨rfl, .awaits (awaits_recvHead _ []) ((Stream.sameSend_asyncRecvBytes _ 4).2.2.2) rfl, rfl⟩

theorem follows_of_run {es : List SocketEvent} (hrun : run step start es = some c)
    (hdelivers : ∀ e ∈ es, e.Delivers) :
    Follows c (arrivedIn es) (completedIn es) (sentIn es) := by
  have hinv := @run_trace_invariant ConcurrentConnection SocketEvent step
    (fun c hist => Follows c ((hist.map Prod.snd).flatMap SocketEvent.arrived)
      (hist.flatMap fun p => p.1.completed p.2) (hist.flatMap fun p => p.1.sent p.2))
    SocketEvent.Delivers (fun c hist e d hc he hd => by simpa using hc.step he hd)
    start c es follows_start hdelivers hrun
  rwa [trace_map_snd hrun] at hinv

/-! ## A delivery can go on -/

theorem readable_enabled {r : RecvResult} (hmap : c.inMap = true)
    (hpending : c.stream.readPending = true) (hmay : c.stream.mayRecv r = true) :
    ∃ d, step c (.readable r) = some d := by
  rw [step_readable, if_pos ⟨hmap, hpending, hmay⟩]
  rcases c.stream.recvOnePack r with ⟨stream, _ | ⟨retRecvStat, vecBytes⟩⟩
  · exact ⟨_, rfl⟩
  · exact ⟨_, rfl⟩

/-- A send completes at once if the socket takes all that is left. -/
theorem writable_all (hmap : c.inMap = true) (hpending : c.stream.writePending = true)
    (hneed : 0 < c.stream.needSendLen) :
    ∃ d, step c (.writable (.sent c.stream.needSendLen)) = some d ∧
      d.stream.readPending = true := by
  have hmay : c.stream.maySend (.sent c.stream.needSendLen) = true := by
    simp [Stream.maySend, hneed]
  rw [step_writable, if_pos ⟨hmap, hpending, hmay⟩, Stream.sendOnePack, if_neg (Nat.lt_irrefl _)]
  refine ⟨_, rfl, ?_⟩
  rw [sendCompleteCallback, if_neg (by decide), startRecvHead_eq]
  exact (awaits_recvHead _ []).pending

variable {es : List SocketEvent}

/-- A connection that is not stuck reads again after the answer has been sent. -/
theorem exists_ready (hrun : run step start es = some c) (hdelivers : ∀ e ∈ es, e.Delivers)
    (hmode : (decoded 1020 (arrivedIn es)).mode ≠ .stuck) :
    ∃ es' d, run step start (es ++ es') = some d ∧ (∀ e ∈ es', e.Delivers) ∧
      arrivedIn (es ++ es') = arrivedIn es ∧ d.stream.readPending = true := by
  have h := follows_of_run hrun hdelivers
  cases h.echoes with
  | awaits hawaits _ _ =>
      rw [← List.append_nil es] at hrun
      exact ⟨[], c, hrun, by simp, by rw [List.append_nil], hawaits.pending⟩
  | answers _ _ _ hwrite hneed _ _ =>
      obtain ⟨d, hstep, hread⟩ := writable_all h.inMap hwrite hneed
      refine ⟨[.writable (.sent c.stream.needSendLen)], d, ?_, ?_, ?_, hread⟩
      · rw [run_concat_eq_some]
        exact ⟨c, hrun, hstep⟩
      · simp [SocketEvent.Delivers, SendResult.fails]
      · simp [arrivedIn, SocketEvent.arrived]
  | stuckHead _ _ hstuck _ _ _ => exact absurd hstuck hmode
  | stuckBody _ _ hstuck _ _ _ _ => exact absurd hstuck hmode

/-- A connection that reads can be given bytes up to the end of the segment. -/
theorem exists_receive {bytes : List UInt8} (hrun : run step start es = some c)
    (hdelivers : ∀ e ∈ es, e.Delivers) (hpending : c.stream.readPending = true)
    (hpos : 0 < bytes.length) (hle : (decoded 1020 (arrivedIn es)).part.length + bytes.length ≤
      (decoded 1020 (arrivedIn es)).mode.need) :
    ∃ d, run step start (es ++ [.readable (.data bytes)]) = some d ∧
      (∀ e ∈ es ++ [.readable (.data bytes)], e.Delivers) ∧
      arrivedIn (es ++ [.readable (.data bytes)]) = arrivedIn es ++ bytes := by
  have h := follows_of_run hrun hdelivers
  obtain ⟨hawaits, -, -⟩ := h.echoes.awaits_of_pending hpending
  obtain ⟨d, hstep⟩ := readable_enabled h.inMap hpending (hawaits.mayRecv hpos hle)
  have hbytes : ∀ e ∈ [SocketEvent.readable (.data bytes)], e.Delivers := by
    simp [SocketEvent.Delivers, RecvResult.fails]
  refine ⟨d, run_concat_eq_some.mpr ⟨c, hrun, hstep⟩,
    List.forall_mem_append.mpr ⟨hdelivers, hbytes⟩, ?_⟩
  simp [arrivedIn, SocketEvent.arrived, RecvResult.bytes]

/-- One more byte, and the answer if it completes a body. -/
theorem exists_delivery_byte {b : UInt8} (hrun : run step start es = some c)
    (hdelivers : ∀ e ∈ es, e.Delivers) (hpending : c.stream.readPending = true)
    (hmode : (decoded 1020 (arrivedIn es ++ [b])).mode ≠ .stuck) :
    ∃ es' d, run step start (es ++ es') = some d ∧ (∀ e ∈ es', e.Delivers) ∧
      arrivedIn (es ++ es') = arrivedIn es ++ [b] ∧ d.stream.readPending = true := by
  have h := follows_of_run hrun hdelivers
  obtain ⟨hawaits, -, -⟩ := h.echoes.awaits_of_pending hpending
  obtain ⟨d, hrun', hdelivers', harrived⟩ := @exists_receive c es [b] hrun hdelivers hpending
    (by simp) (Nat.succ_le_of_lt hawaits.short)
  rw [← harrived] at hmode ⊢
  obtain ⟨es', d', hrun'', hready, harrived', hpending'⟩ := exists_ready hrun' hdelivers' hmode
  rw [List.append_assoc] at hrun'' harrived'
  have hboth : ∀ e ∈ [.readable (.data [b])] ++ es', e.Delivers := by
    refine List.forall_mem_append.mpr ⟨fun e he => hdelivers' e ?_, hready⟩
    exact List.mem_append_right _ he
  exact ⟨_, d', hrun'', hboth, harrived', hpending'⟩

/-- Any bytes that do not get the connection stuck can be delivered. -/
theorem exists_delivery (hrun : run step start es = some c) (hdelivers : ∀ e ∈ es, e.Delivers)
    {bytes : List UInt8} (hmode : (decoded 1020 (arrivedIn es ++ bytes)).mode ≠ .stuck) :
    ∃ es' d, run step start (es ++ es') = some d ∧ (∀ e ∈ es', e.Delivers) ∧
      arrivedIn (es ++ es') = arrivedIn es ++ bytes ∧ d.stream.readPending = true := by
  induction bytes using List.reverseRecOn with
  | nil =>
      rw [List.append_nil] at hmode ⊢
      exact exists_ready hrun hdelivers hmode
  | append_singleton bytes b ih =>
      rw [← List.append_assoc] at hmode ⊢
      obtain ⟨es', d, hrun', hdelivers', harrived, hpending⟩ :=
        ih (not_stuck_of_longer (List.prefix_append _ _) hmode)
      rw [← harrived] at hmode ⊢
      have hboth := List.forall_mem_append.mpr ⟨hdelivers, hdelivers'⟩
      obtain ⟨es₂, d₂, hrun₂, hdelivers₂, harrived₂, hpending₂⟩ :=
        exists_delivery_byte hrun' hboth hpending hmode
      rw [List.append_assoc] at hrun₂ harrived₂
      exact ⟨_, d₂, hrun₂, List.forall_mem_append.mpr ⟨hdelivers', hdelivers₂⟩, harrived₂,
        hpending₂⟩

/-! ## The frames come back -/

/-- What is said of a connection that has got a part of a concatenation of frames:
the bodies that are complete have been received, their frames have been sent or
are being sent, in order, and the rest can be delivered and answered. -/
structure EchoesFrames (bodies : List (List UInt8)) (es : List SocketEvent)
    (c : ConcurrentConnection) : Prop where
  handled : handledIn es <+: bodies
  complete : ∀ done, done <+: bodies → wire done <+: arrivedIn es → done <+: handledIn es
  answered : sentIn es ++ c.stream.unsent = wire (handledIn es)
  inOrder : c.stream.readPending = true → c.stream.unsent = []
  inMap : c.inMap = true
  pending : c.stream.readPending ≠ c.stream.writePending
  finished : arrivedIn es = wire bodies → c.stream.writePending = false →
    sentIn es = wire bodies
  continues : ∃ es' d, run step start (es ++ es') = some d ∧ (∀ e ∈ es', e.Delivers) ∧
    arrivedIn (es ++ es') = wire bodies ∧ sentIn (es ++ es') = wire bodies

theorem unsent_of_not_pending {st : Stream} (hwrite : st.writePending = false) :
    st.unsent = [] := by
  rw [Stream.unsent, hwrite]
  rfl

theorem Follows.handled_eq (h : Follows c received completed sent)
    (hmode : (decoded 1020 received).mode ≠ .stuck) :
    sent ++ c.stream.unsent = wire (bodiesOf completed) ∧
      (c.stream.readPending = true → c.stream.unsent = []) ∧
      c.stream.readPending ≠ c.stream.writePending := by
  rw [h.completed_eq]
  cases h.echoes with
  | awaits hawaits hwrite hsent =>
      rw [unsent_of_not_pending hwrite, List.append_nil, hawaits.pending, hwrite]
      exact ⟨hsent, fun _ => rfl, by decide⟩
  | answers _ _ hread hwrite _ _ hsent =>
      rw [hread, hwrite]
      exact ⟨hsent, nofun, by decide⟩
  | stuckHead _ _ hstuck _ _ _ => exact absurd hstuck hmode
  | stuckBody _ _ hstuck _ _ _ _ => exact absurd hstuck hmode

theorem sentIn_of_pending (hrun : run step start es = some c)
    (hdelivers : ∀ e ∈ es, e.Delivers) (hpending : c.stream.readPending = true) :
    sentIn es = wire (handledIn es) := by
  have h := follows_of_run hrun hdelivers
  obtain ⟨-, -, hsent⟩ := h.echoes.awaits_of_pending hpending
  rw [← h.completed_eq] at hsent
  exact hsent

theorem handledIn_of_arrived {bodies : List (List UInt8)}
    (hfits : ∀ body ∈ bodies, Fits 1020 body) (hrun : run step start es = some c)
    (hdelivers : ∀ e ∈ es, e.Delivers) (harrived : arrivedIn es = wire bodies) :
    handledIn es = bodies := by
  have h := follows_of_run hrun hdelivers
  obtain ⟨-, -, hsegments⟩ := decoded_wire hfits (by decide)
  rw [handledIn, h.completed_eq, harrived, hsegments, bodiesOf_segmentsOf]

theorem echoesFrames_of_fits {bodies : List (List UInt8)}
    (hfits : ∀ body ∈ bodies, Fits 1020 body) (hrun : run step start es = some c)
    (hdelivers : ∀ e ∈ es, e.Delivers) (harrived : arrivedIn es <+: wire bodies) :
    EchoesFrames bodies es c := by
  have h := follows_of_run hrun hdelivers
  obtain ⟨hmode, hsegments⟩ := decoded_part hfits (by decide) harrived
  rw [← h.completed_eq] at hsegments
  have hhandled := bodiesOf_mono hsegments
  rw [bodiesOf_segmentsOf] at hhandled
  obtain ⟨hanswered, hinOrder, hne⟩ := h.handled_eq hmode
  refine ⟨hhandled, fun done hdone hwire => ?_, hanswered, hinOrder, h.inMap, hne, ?_, ?_⟩
  · obtain ⟨-, -, hdoneSegments⟩ := @decoded_wire 1020 done
      (fun body hbody => hfits body (hdone.subset hbody)) (by decide)
    have hlog := @completedOf_mono 1020 _ _ hwire
    rw [hdoneSegments, ← h.completed_eq] at hlog
    have hbodies := bodiesOf_mono hlog
    rwa [bodiesOf_segmentsOf] at hbodies
  · intro hall hwrite
    rw [unsent_of_not_pending hwrite, List.append_nil] at hanswered
    rw [hanswered]
    exact congrArg wire (handledIn_of_arrived hfits hrun hdelivers hall)
  · obtain ⟨rest, hrest⟩ := harrived
    obtain ⟨hlast, -, -⟩ := decoded_wire hfits (by decide)
    have hmode' : (decoded 1020 (arrivedIn es ++ rest)).mode ≠ .stuck := by
      rw [hrest, hlast]
      exact DecoderMode.noConfusion
    obtain ⟨es', d, hrun', hdelivers', harrived', hpending⟩ :=
      exists_delivery hrun hdelivers hmode'
    rw [hrest] at harrived'
    have hboth := List.forall_mem_append.mpr ⟨hdelivers, hdelivers'⟩
    refine ⟨es', d, hrun', hdelivers', harrived', ?_⟩
    rw [sentIn_of_pending hrun' hboth hpending, handledIn_of_arrived hfits hrun' hboth harrived']

/-- Frames that fit and another header can be delivered. -/
theorem exists_header {before : List (List UInt8)} (hfits : ∀ body ∈ before, Fits 1020 body)
    {n : ℕ} (hmode : DecoderMode.afterHead
      (NativeInt.decode (NativeInt.bytesOfNat 4 n)).val ≠ .stuck) :
    ∃ es c, run step start es = some c ∧ (∀ e ∈ es, e.Delivers) ∧
      arrivedIn es = wire before ++ NativeInt.bytesOfNat 4 n ∧ c.stream.readPending = true := by
  have hstart : (decoded 1020 (arrivedIn [] ++
      (wire before ++ NativeInt.bytesOfNat 4 n))).mode ≠ .stuck := by
    rw [arrivedIn, List.flatMap_nil, List.nil_append, (decoded_header hfits (by decide) n).1]
    exact hmode
  obtain ⟨es, c, hrun, hdelivers, harrived, hpending⟩ :=
    exists_delivery (run_nil start) (by simp) hstart
  exact ⟨es, c, hrun, hdelivers, harrived, hpending⟩

/-- A body that fits into the receive buffer only: after it nothing is sent. -/
theorem exists_unanswered {before : List (List UInt8)} {body : List UInt8}
    (hfits : ∀ body ∈ before, Fits 1020 body) (hgt : 1020 < body.length)
    (hle : body.length ≤ 1024) :
    ∃ es c, run step start es = some c ∧ (∀ e ∈ es, e.Delivers) ∧
      arrivedIn es = wire (before ++ [body]) ∧ handledIn es = before ++ [body] ∧
      sentIn es = wire before ∧ c.stream.unsent = [] := by
  have hheader : DecoderMode.afterHead
      (NativeInt.decode (NativeInt.bytesOfNat 4 body.length)).val = .body body.length :=
    afterHead_header (by omega) hle
  obtain ⟨es, c, hrun, hdelivers, harrived, hpending⟩ :=
    exists_header hfits (hheader.trans_ne DecoderMode.noConfusion)
  obtain ⟨hmode, hpart, hsegments⟩ := decoded_header hfits (by decide) body.length
  rw [hheader] at hmode
  rw [← harrived] at hmode hpart hsegments
  have hfull : (decoded 1020 (arrivedIn es)).part.length + body.length ≤
      (decoded 1020 (arrivedIn es)).mode.need := by
    rw [hmode, hpart, List.length_nil, Nat.zero_add]
    rfl
  obtain ⟨d, hrun', hdelivers', harrived'⟩ :=
    exists_receive hrun hdelivers hpending (by omega) hfull
  have h' := follows_of_run hrun' hdelivers'
  obtain ⟨hstuck, hlast⟩ := @scan_body 1020 _ body hmode hpart (by omega)
  rw [← decoded_append, DecoderMode.afterBody, if_neg (by omega)] at hstuck
  rw [← decoded_append, hsegments] at hlast
  have hcompleted := h'.completed_eq
  have hechoes := h'.echoes
  rw [harrived'] at hechoes hcompleted
  have hhandled : handledIn (es ++ [.readable (.data body)]) = before ++ [body] := by
    rw [handledIn, hcompleted, hlast, bodiesOf_concat_body, bodiesOf_concat_head,
      bodiesOf_segmentsOf]
  refine ⟨_, d, hrun', hdelivers', ?_, hhandled, ?_⟩
  · rw [harrived', harrived, wire_concat, frame, List.append_assoc]
  · cases hechoes with
    | awaits hawaits' _ _ => exact absurd hstuck hawaits'.not_stuck
    | answers hhead _ _ _ _ _ _ => rw [hstuck] at hhead; exact DecoderMode.noConfusion hhead
    | stuckHead _ _ _ _ _ hlog =>
        rw [hlast] at hlog
        have hlogs := (List.append_inj' hlog rfl).2
        simp at hlogs
    | stuckBody completed' body' _ _ hwrite hlog hsent =>
        rw [hlast] at hlog
        rw [hsent, ← (List.append_inj' hlog rfl).1, bodiesOf_concat_head, bodiesOf_segmentsOf]
        exact ⟨rfl, unsent_of_not_pending hwrite⟩

/-- The server echoes the frames of a stream, in every run on it, exactly when
every body leaves room for its length in the send buffer. -/
theorem echoesFrames_iff_le {bodies : List (List UInt8)}
    (hlen : ∀ body ∈ bodies, 1 ≤ body.length ∧ body.length ≤ 1024) :
    (∀ es c, run step start es = some c → (∀ e ∈ es, e.Delivers) →
        arrivedIn es <+: wire bodies → EchoesFrames bodies es c) ↔
      ∀ body ∈ bodies, body.length ≤ 1020 := by
  constructor
  · intro hechoes
    by_contra hlong
    have hfound : bodies.find? (fun body => decide (1020 < body.length)) ≠ none := by
      simpa using hlong
    obtain ⟨body, hfound⟩ := Option.ne_none_iff_exists'.mp hfound
    obtain ⟨hgt, before, after, rfl, hbefore⟩ := List.find?_eq_some_iff_append.mp hfound
    have hgt : 1020 < body.length := by simpa using hgt
    have hfits : ∀ body ∈ before, Fits 1020 body := fun body hbody =>
      ⟨(hlen body (by simp [hbody])).1, by simpa using hbefore body hbody⟩
    obtain ⟨es, c, hrun, hdelivers, harrived, hhandled, hsent, hunsent⟩ :=
      exists_unanswered hfits hgt (hlen body (by simp)).2
    have hprefix : arrivedIn es <+: wire (before ++ body :: after) := by
      rw [harrived]
      exact wire_mono ⟨after, by simp⟩
    have hanswered := (hechoes es c hrun hdelivers hprefix).answered
    rw [hhandled, hsent, hunsent, wire_concat] at hanswered
    have hlength := congrArg List.length hanswered
    have hpos := frame_ne_nil body
    rw [List.append_nil, List.length_append] at hlength
    omega
  · intro hshort es c hrun hdelivers harrived
    exact echoesFrames_of_fits (fun body hbody => ⟨(hlen body hbody).1, hshort body hbody⟩)
      hrun hdelivers harrived

/-- The frame of "hi" and the answer, the header in two pieces. -/
def hiEvents : List SocketEvent :=
  [.readable (.data [2, 0]), .readable .again, .readable (.data [0, 0]),
    .readable (.data [104, 105]), .writable (.sent 5), .writable (.sent 1)]

theorem echoesFrames_iff_le_hi :
    ∃ c, run step start hiEvents = some c ∧ EchoesFrames [[104, 105]] hiEvents c := by
  obtain ⟨c, hrun⟩ : ∃ c, run step start hiEvents = some c := by
    rw [start_eq, Stream.asyncRecvBytes_new]
    exact ⟨_, rfl⟩
  have hdelivers : ∀ e ∈ hiEvents, e.Delivers := by
    simp [hiEvents, SocketEvent.Delivers, RecvResult.fails, SendResult.fails]
  have harrived : arrivedIn hiEvents <+: wire [[104, 105]] := by decide
  exact ⟨c, hrun, (echoesFrames_iff_le (by simp)).mpr (by simp) hiEvents c hrun hdelivers harrived⟩

def longBody : List UInt8 := List.replicate 1021 97

theorem longBody_unanswered :
    (∀ body ∈ [longBody], 1 ≤ body.length ∧ body.length ≤ 1024) ∧
      ∃ es c, run step start es = some c ∧ (∀ e ∈ es, e.Delivers) ∧
        arrivedIn es = wire [longBody] ∧ handledIn es = [longBody] ∧ sentIn es = [] ∧
        c.inMap = true ∧ c.stream.unsent = [] ∧ ¬ EchoesFrames [longBody] es c := by
  have hlength : longBody.length = 1021 := List.length_replicate
  obtain ⟨es, c, hrun, hdelivers, harrived, hhandled, hsent, hunsent⟩ :=
    @exists_unanswered [] longBody (by simp) (by omega) (by omega)
  refine ⟨?_, es, c, hrun, hdelivers, harrived, hhandled, hsent,
    (follows_of_run hrun hdelivers).inMap, hunsent, fun hechoes => ?_⟩
  · rw [List.forall_mem_singleton]
    omega
  · have hanswered := hechoes.answered
    rw [hsent, hunsent, hhandled, List.nil_append, wire_singleton] at hanswered
    have hlengths := congrArg List.length hanswered
    rw [length_frame, hlength] at hlengths
    exact absurd hlengths (by decide)

end ConcurrentConnection

end Banana
