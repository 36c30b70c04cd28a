import Banana.Examples.FrameDecoder
import Banana.Examples.MapReduceConnection

/-!
# What a MapReduceConnection decodes

Whatever the chunks, and whatever happens on the sending side in between, a
`MapReduceConnection` is where the frame decoder is after the bytes that have
arrived, and has handled the bodies that are in the decoder's log.  So the paths
it posts are a function of the bytes alone.
-/

namespace Banana

open Segments Transition

namespace MapReduceConnection

/-- The socket delivers bytes or asks to try again. -/
def Event.Delivers : Event → Prop
  | .socket (.readable r) => r.fails = false
  | _ => True

def Event.arrived : Event → List UInt8
  | .socket (.readable r) => r.bytes
  | _ => []

/-- The receives that complete, with `stat_` at that time. -/
def completed (c : MapReduceConnection) : Event → List (ConnectionStat × List UInt8)
  | .socket (.readable r) => (c.stream.received r).toList.map fun bytes => (c.stat, bytes)
  | _ => []

/-- The paths whose tasks are posted. -/
def posted (c : MapReduceConnection) : Event → List (List UInt8)
  | .socket (.readable r) =>
      match c.stream.recvOnePack r with
      | (_, none) => []
      | (stream, some (retRecvStat, vecBytes)) =>
          ({ c with stream := stream }.recvCompleteCallback retRecvStat vecBytes).2
  | _ => []

/-- The bodies that come in state `recvBody`, with what is posted for them. -/
def handled (c : MapReduceConnection) (e : Event) : List (List UInt8 × List (List UInt8)) :=
  (bodiesOf (c.completed e)).map fun body => (body, c.posted e)

def arrivedIn (es : List Event) : List UInt8 := es.flatMap Event.arrived

def postedIn (es : List Event) : List (List UInt8) :=
  (trace step start es).flatMap fun p => p.1.posted p.2

def handledIn (es : List Event) : List (List UInt8 × List (List UInt8)) :=
  (trace step start es).flatMap fun p => p.1.handled p.2

def completedIn (es : List Event) : List (ConnectionStat × List UInt8) :=
  (trace step start es).flatMap fun p => p.1.completed p.2

/-! ## The connection follows the decoder -/

inductive Decodes (c : MapReduceConnection) (R : FrameReader) : Prop
  | awaits (h : Awaits c.stat c.stream R)
  | stuck (hmode : R.mode = .stuck) (hread : c.stream.readPending = false)

theorem Decodes.awaits_of_pending {c : MapReduceConnection} {R : FrameReader} (h : Decodes c R)
    (hpending : c.stream.readPending = true) : Awaits c.stat c.stream R := by
  cases h with
  | awaits h => exact h
  | stuck _ hread => simp [hread] at hpending

theorem Decodes.of_sameReceive {c d : MapReduceConnection} {R : FrameReader} (h : Decodes c R)
    (hstat : d.stat = c.stat) (hread : d.stream.readPending = c.stream.readPending)
    (hlen : d.stream.recvLen = c.stream.recvLen)
    (hneed : d.stream.needRecvLen = c.stream.needRecvLen)
    (hbuf : d.stream.recvBuf = c.stream.recvBuf) : Decodes d R := by
  cases h with
  | awaits h =>
      rw [← hstat] at h
      exact .awaits (h.of_sameReceive hread hlen hneed hbuf)
  | stuck hmode hread' => exact .stuck hmode (hread.trans hread')

theorem recvHeadDone_decodes {c : MapReduceConnection} (hstat : c.stat = .recvHead)
    (hread : c.stream.readPending = false) (bodyLen : ℤ)
    (log : List (DecoderMode × List UInt8)) :
    Decodes (c.recvHeadDone bodyLen) ⟨.afterHead bodyLen, [], log⟩ := by
  unfold recvHeadDone DecoderMode.afterHead
  by_cases hlong : 1024 < bodyLen
  · rw [if_pos hlong, if_pos hlong]
    refine .awaits ?_
    rw [hstat]
    exact awaits_recvHead c.stream log
  · rw [if_neg hlong, if_neg hlong]
    by_cases hpos : bodyLen ≤ 0
    · rw [if_pos hpos, c.stream.asyncRecvBytes_of_nonpos hpos]
      exact .stuck rfl hread
    · rw [if_neg hpos]
      exact .awaits (awaits_recvBody c.stream log hpos hlong)

theorem recvBodyDone_decodes (c : MapReduceConnection) (log : List (DecoderMode × List UInt8)) :
    Decodes c.recvBodyDone ⟨.head, [], log⟩ :=
  .awaits (awaits_recvHead c.stream log)

theorem recvCompleteCallback_decodes {c : MapReduceConnection} {R : FrameReader}
    {segment : List UInt8} (hstat : c.stat = R.mode.stat) (hmode : R.mode ≠ .stuck)
    (hlen : segment.length = R.mode.need) (hle : R.mode.need ≤ 1024)
    (hread : c.stream.readPending = false) :
    Decodes (c.recvCompleteCallback .recved segment).1 (complete (decoder 1024) R segment) ∧
      (c.recvCompleteCallback .recved segment).2 =
        (bodiesOf [(c.stat, segment)]).flatMap filePaths := by
  obtain ⟨mode, part, log⟩ := R
  cases mode with
  | head =>
      have hstat : c.stat = .recvHead := hstat
      have hlen : segment.length = 4 := hlen
      have hcall : c.recvCompleteCallback .recved segment =
          (c.recvHeadDone (NativeInt.decode segment).val, []) := by
        simp [recvCompleteCallback, hstat, hlen]
      rw [hcall, hstat]
      simp only [complete, next_head]
      exact ⟨recvHeadDone_decodes hstat hread _ _, rfl⟩
  | body num =>
      have hstat : c.stat = .recvBody := hstat
      have hnext : DecoderMode.afterBody 1024 segment.length = .head := by
        rw [DecoderMode.afterBody, if_pos (hlen.trans_le hle)]
      have hcall : c.recvCompleteCallback .recved segment =
          (((filePaths segment).foldl (fun c _ => c.countTask) c).recvBodyDone,
            filePaths segment) := by
        simp [recvCompleteCallback, hstat]
      rw [hcall, hstat]
      simp only [complete, next_body, hnext]
      exact ⟨recvBodyDone_decodes _ _, by simp [bodiesOf]⟩
  | stuck => exact absurd rfl hmode

/-- The state and what the connection has done after `received`. -/
structure Follows (c : MapReduceConnection) (received : List UInt8)
    (completed : List (ConnectionStat × List UInt8))
    (handled : List (List UInt8 × List (List UInt8))) (posted : List (List UInt8)) : Prop where
  decodes : Decodes c (decoded 1024 received)
  completed_eq : completed = completedOf (decoded 1024 received)
  handled_eq : handled = (bodiesOf completed).map fun body => (body, filePaths body)
  posted_eq : posted = (bodiesOf completed).flatMap filePaths

section

variable {c d : MapReduceConnection} {received : List UInt8}
  {completed : List (ConnectionStat × List UInt8)}
  {handled : List (List UInt8 × List (List UInt8))} {posted : List (List UInt8)}

theorem Follows.of_quiet {e : Event} (h : Follows c received completed handled posted)
    (harrived : e.arrived = []) (hcompleted : c.completed e = []) (hposted : c.posted e = [])
    (hdecodes : Decodes d (decoded 1024 received)) :
    Follows d (received ++ e.arrived) (completed ++ c.completed e) (handled ++ c.handled e)
      (posted ++ c.posted e) := by
  have hhandled : c.handled e = [] := by
    rw [MapReduceConnection.handled, hcompleted]
    rfl
  rw [harrived, hcompleted, hhandled, hposted, List.append_nil, List.append_nil, List.append_nil,
    List.append_nil]
  exact ⟨hdecodes, h.completed_eq, h.handled_eq, h.posted_eq⟩

theorem Follows.readable {r : RecvResult} (h : Follows c received completed handled posted)
    (hfails : r.fails = false)
    (hstep : MapReduceConnection.step c (.socket (.readable r)) = some d) :
    Follows d (received ++ r.bytes) (completed ++ c.completed (.socket (.readable r)))
      (handled ++ c.handled (.socket (.readable r)))
      (posted ++ c.posted (.socket (.readable r))) := by
  simp only [MapReduceConnection.step, Option.ite_none_right_eq_some] at hstep
  obtain ⟨⟨hpending, hmay⟩, hstep⟩ := hstep
  have hawaits := h.decodes.awaits_of_pending hpending
  have hevent := hawaits.readEvent hmay hfails 1024
  rw [MapReduceConnection.handled, MapReduceConnection.completed, MapReduceConnection.posted]
  generalize c.stream.recvOnePack r = out at hevent hstep
  cases hevent with
  | continues st' hnone h' hlog =>
      obtain rfl := Option.some.inj hstep
      simp only [hnone, Option.toList_none, List.map_nil, bodiesOf_nil, List.append_nil]
      refine ⟨.awaits ?_, ?_, h.handled_eq, h.posted_eq⟩
      · rw [decoded_append]
        exact h'
      · rw [decoded_append, hlog, h.completed_eq]
  | completes st' segment hsome hread hlen hscan =>
      obtain rfl := Option.some.inj hstep
      obtain ⟨hdecodes, hpaths⟩ := @recvCompleteCallback_decodes { c with stream := st' } _ segment
        hawaits.stat_eq hawaits.not_stuck hlen hawaits.need_le hread
      simp only [hsome, Option.toList_some, List.map_singleton, hpaths]
      refine ⟨?_, ?_, ?_, ?_⟩
      · rw [decoded_append, hscan]
        exact hdecodes
      · rw [decoded_append, hscan, completedOf_complete, h.completed_eq, hawaits.stat_eq]
      · rw [h.handled_eq, bodiesOf_append, List.map_append]
        congr 1
        cases c.stat <;> simp [bodiesOf]
      · rw [h.posted_eq, bodiesOf_append, List.flatMap_append]

theorem reply_sameReceive (c : MapReduceConnection) : c.stream.SameReceive c.reply.1.stream :=
  Stream.sameReceive_asyncSendBytes _ _

theorem onMessage_sameReceive (c : MapReduceConnection) (maxNum : NativeInt) :
    (c.onMessage maxNum).1.stat = c.stat ∧
      (c.onMessage maxNum).1.stream.readPending = c.stream.readPending ∧
      (c.onMessage maxNum).1.stream.recvLen = c.stream.recvLen ∧
      (c.onMessage maxNum).1.stream.needRecvLen = c.stream.needRecvLen ∧
      (c.onMessage maxNum).1.stream.recvBuf = c.stream.recvBuf := by
  have hstream := c.countAnswer_stream maxNum
  have hstat : (c.countAnswer maxNum).stat = c.stat := by
    unfold countAnswer
    split_ifs <;> rfl
  unfold onMessage
  split_ifs
  · obtain ⟨hread, hlen, hneed, hbuf, -⟩ := (c.countAnswer maxNum).reply_sameReceive
    rw [hstream] at hread hlen hneed hbuf
    exact ⟨hstat, hread, hlen, hneed, hbuf⟩
  · rw [hstream]
    exact ⟨hstat, rfl, rfl, rfl, rfl⟩

theorem Follows.step {e : Event} (h : Follows c received completed handled posted)
    (hdelivers : e.Delivers) (hstep : MapReduceConnection.step c e = some d) :
    Follows d (received ++ e.arrived) (completed ++ c.completed e) (handled ++ c.handled e)
      (posted ++ c.posted e) := by
  cases e with
  | mapDone maxNum =>
      obtain ⟨-, rfl⟩ : c.inMap = true ∧ (c.onMessage maxNum).1 = d := by
        simpa [MapReduceConnection.step] using hstep
      obtain ⟨hstat, hread, hlen, hneed, hbuf⟩ := c.onMessage_sameReceive maxNum
      exact h.of_quiet rfl rfl rfl (h.decodes.of_sameReceive hstat hread hlen hneed hbuf)
  | socket e =>
      cases e with
      | readable r => exact h.readable hdelivers hstep
      | writable r =>
          simp only [MapReduceConnection.step, Option.ite_none_right_eq_some] at hstep
          obtain ⟨-, hstep⟩ := hstep
          obtain ⟨hread, hlen, hneed, hbuf, -⟩ := c.stream.sameReceive_sendOnePack r
          refine h.of_quiet rfl rfl rfl ?_
          rcases hout : c.stream.sendOnePack r with ⟨stream, _ | retSendStat⟩
          · simp only [hout, Option.some.injEq] at hstep hread hlen hneed hbuf
            subst d
            exact h.decodes.of_sameReceive rfl hread hlen hneed hbuf
          · simp only [hout, Option.some.injEq, sendCompleteCallback] at hstep hread hlen hneed hbuf
            subst d
            split_ifs <;> exact h.decodes.of_sameReceive rfl hread hlen hneed hbuf

end

theorem decodes_start : Decodes start (decoded 1024 []) := by
  rw [start, startReadOrWriteInService_eq]
  exact .awaits (awaits_recvHead _ [])

theorem follows_of_run {es : List Event} {c : MapReduceConnection}
    (hrun : run step start es = some c) (hdelivers : ∀ e ∈ es, e.Delivers) :
    Follows c (arrivedIn es) (completedIn es) (handledIn es) (postedIn es) := by
  have hstart : Follows start [] [] [] [] := ⟨decodes_start, rfl, rfl, rfl⟩
  have hinv := @run_trace_invariant MapReduceConnection Event step
    (fun c hist => Follows c ((hist.map Prod.snd).flatMap Event.arrived)
      (hist.flatMap fun p => p.1.completed p.2) (hist.flatMap fun p => p.1.handled p.2)
      (hist.flatMap fun p => p.1.posted p.2))
    Event.Delivers (fun c hist e d hc he hd => by simpa using hc.step he hd)
    start c es hstart hdelivers hrun
  rwa [trace_map_snd hrun] at hinv

/-! ## A delivery can go on -/

section

variable {c : MapReduceConnection} {es : List Event}

theorem awaits_of_run (hrun : run step start es = some c) (hdelivers : ∀ e ∈ es, e.Delivers)
    (hmode : (decoded 1024 (arrivedIn es)).mode ≠ .stuck) :
    Awaits c.stat c.stream (decoded 1024 (arrivedIn es)) := by
  cases (follows_of_run hrun hdelivers).decodes with
  | awaits h => exact h
  | stuck hstuck _ => exact absurd hstuck hmode

/-- A connection that reads can be given bytes up to the end of the segment. -/
theorem exists_receive {bytes : List UInt8} (hrun : run step start es = some c)
    (hdelivers : ∀ e ∈ es, e.Delivers) (hmode : (decoded 1024 (arrivedIn es)).mode ≠ .stuck)
    (hpos : 0 < bytes.length) (hle : (decoded 1024 (arrivedIn es)).part.length + bytes.length ≤
      (decoded 1024 (arrivedIn es)).mode.need) :
    ∃ d, run step start (es ++ [.socket (.readable (.data bytes))]) = some d ∧
      (∀ e ∈ es ++ [.socket (.readable (.data bytes))], e.Delivers) ∧
      arrivedIn (es ++ [.socket (.readable (.data bytes))]) = arrivedIn es ++ bytes := by
  have hawaits := awaits_of_run hrun hdelivers hmode
  have hbytes : ∀ e ∈ [Event.socket (.readable (.data bytes))], e.Delivers := by
    simp [Event.Delivers, RecvResult.fails]
  obtain ⟨d, hstep⟩ : ∃ d, step c (.socket (.readable (.data bytes))) = some d := by
    rw [step, if_pos ⟨hawaits.pending, hawaits.mayRecv hpos hle⟩]
    rcases c.stream.recvOnePack (.data bytes) with ⟨stream, _ | ⟨retRecvStat, vecBytes⟩⟩
    · exact ⟨_, rfl⟩
    · exact ⟨_, rfl⟩
  refine ⟨d, run_concat_eq_some.mpr ⟨c, hrun, hstep⟩,
    List.forall_mem_append.mpr ⟨hdelivers, hbytes⟩, ?_⟩
  simp [arrivedIn, Event.arrived, RecvResult.bytes]

/-- Any bytes that do not get the connection stuck can be delivered. -/
theorem exists_delivery {bytes : List UInt8} (hmode : (decoded 1024 bytes).mode ≠ .stuck) :
    ∃ es c, run step start es = some c ∧ (∀ e ∈ es, e.Delivers) ∧ arrivedIn es = bytes := by
  induction bytes using List.reverseRecOn with
  | nil => exact ⟨[], start, rfl, by simp, rfl⟩
  | append_singleton bytes b ih =>
      have hmode' := not_stuck_of_longer (List.prefix_append bytes [b]) hmode
      obtain ⟨es, c, hrun, hdelivers, harrived⟩ := ih hmode'
      rw [← harrived] at hmode' ⊢
      have hawaits := awaits_of_run hrun hdelivers hmode'
      obtain ⟨d, hrun', hdelivers', harrived'⟩ := @exists_receive c es [b] hrun hdelivers hmode'
        (by simp) (Nat.succ_le_of_lt hawaits.short)
      exact ⟨_, d, hrun', hdelivers', harrived'⟩

end

/-! ## Decoding undoes framing -/

theorem Follows.frames {c : MapReduceConnection} {received : List UInt8}
    {completed : List (ConnectionStat × List UInt8)}
    {handled : List (List UInt8 × List (List UInt8))} {posted : List (List UInt8)}
    {bodies : List (List UInt8)} (h : Follows c received completed handled posted)
    (hfits : ∀ body ∈ bodies, Fits 1024 body) (hreceived : received <+: wire bodies) :
    handled <+: bodies.map (fun body => (body, Utils.split body 32)) ∧
      posted = handled.flatMap Prod.snd ∧ Awaits c.stat c.stream (decoded 1024 received) := by
  obtain ⟨hmode, hsegments⟩ := decoded_part hfits (Nat.le_refl 1024) hreceived
  rw [← h.completed_eq] at hsegments
  have hbodies := bodiesOf_mono hsegments
  rw [bodiesOf_segmentsOf] at hbodies
  refine ⟨?_, ?_, ?_⟩
  · rw [h.handled_eq]
    exact hbodies.map _
  · rw [h.posted_eq, h.handled_eq, List.flatMap_map]
  · cases h.decodes with
    | awaits h' => exact h'
    | stuck hstuck _ => exact absurd hstuck hmode

theorem Follows.boundary {c : MapReduceConnection}
    {completed : List (ConnectionStat × List UInt8)}
    {handled : List (List UInt8 × List (List UInt8))} {posted : List (List UInt8)}
    {bodies : List (List UInt8)} (h : Follows c (wire bodies) completed handled posted)
    (hfits : ∀ body ∈ bodies, Fits 1024 body) :
    handled = bodies.map (fun body => (body, Utils.split body 32)) ∧
      posted = bodies.flatMap (fun body => Utils.split body 32) ∧ c.stat = .recvHead ∧
      c.stream.Receiving 4 ∧ c.stream.recvLen = 0 := by
  obtain ⟨hmode, hpart, hsegments⟩ := decoded_wire hfits (Nat.le_refl 1024)
  obtain ⟨-, -, hawaits⟩ := h.frames hfits List.prefix_rfl
  have hbodies : bodiesOf completed = bodies := by
    rw [h.completed_eq, hsegments, bodiesOf_segmentsOf]
  obtain ⟨buf, hstat, hlen, -, hcollects⟩ := hawaits
  rw [hmode] at hstat hlen
  rw [hpart] at hcollects
  have hlen : buf.length = 4 := hlen
  refine ⟨?_, ?_, hstat, hlen ▸ hcollects.receiving, hcollects.recvLen⟩
  · rw [h.handled_eq, hbodies]
    rfl
  · rw [h.posted_eq, hbodies]
    rfl

/-- Any delivery of a concatenation of frames, at any time and at any boundary of
frames; and two deliveries of the same bytes. -/
theorem handled_of_delivered {bodies : List (List UInt8)}
    (hfits : ∀ body ∈ bodies, 1 ≤ body.length ∧ body.length ≤ 1024) {es : List Event}
    {c : MapReduceConnection} (hrun : run step start es = some c)
    (hdelivers : ∀ e ∈ es, e.Delivers) (hreceived : arrivedIn es <+: wire bodies) :
    handledIn es <+: bodies.map (fun body => (body, Utils.split body 32)) ∧
      postedIn es = (handledIn es).flatMap Prod.snd ∧ c.stream.readPending = true ∧
      (∀ done, done <+: bodies → arrivedIn es = wire done →
        handledIn es = done.map (fun body => (body, Utils.split body 32)) ∧
          postedIn es = done.flatMap (fun body => Utils.split body 32) ∧
          c.stat = .recvHead ∧ c.stream.Receiving 4 ∧ c.stream.recvLen = 0) ∧
      ∀ es' c', run step start es' = some c' → (∀ e ∈ es', e.Delivers) →
        arrivedIn es' = arrivedIn es → postedIn es' = postedIn es := by
  have hfollows := follows_of_run hrun hdelivers
  obtain ⟨hhandled, hposted, hawaits⟩ := hfollows.frames hfits hreceived
  refine ⟨hhandled, hposted, hawaits.pending, fun done hdone harrived => ?_, ?_⟩
  · rw [harrived] at hfollows
    exact hfollows.boundary fun body hbody => hfits body (hdone.subset hbody)
  · intro es' c' hrun' hdelivers' harrived
    have hfollows' := follows_of_run hrun' hdelivers'
    rw [hfollows'.posted_eq, hfollows'.completed_eq, harrived, hfollows.posted_eq,
      hfollows.completed_eq]

/-- The frame of the body "a b" in four pieces. -/
def fourPieces : List Event :=
  [.socket (.readable (.data [3, 0])), .socket (.readable .again),
    .socket (.readable (.data [0, 0])), .socket (.readable (.data [97])),
    .socket (.readable (.data [32, 98]))]

theorem handled_of_delivered_fourPieces : postedIn fourPieces = [[97], [98]] := by
  obtain ⟨c, hrun⟩ : ∃ c, run step start fourPieces = some c := by
    rw [start, startReadOrWriteInService_eq, Stream.asyncRecvBytes_new]
    exact ⟨_, rfl⟩
  have hdelivers : ∀ e ∈ fourPieces, e.Delivers := by
    simp [fourPieces, Event.Delivers, RecvResult.fails]
  have harrived : arrivedIn fourPieces = wire [[97, 32, 98]] := by decide
  have hfits : ∀ body ∈ [([97, 32, 98] : List UInt8)], 1 ≤ body.length ∧ body.length ≤ 1024 := by
    simp
  obtain ⟨-, -, -, hboundary, -⟩ :=
    handled_of_delivered hfits hrun hdelivers (harrived ▸ List.prefix_rfl)
  rw [(hboundary [[97, 32, 98]] List.prefix_rfl harrived).2.1]
  decide

end MapReduceConnection

end Banana
