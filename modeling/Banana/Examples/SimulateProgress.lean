import Banana.Examples.ConcurrenceSimulateServer

/-!
# The simulation comes to its end

The sockets between the clients and their servers buffer a bounded number of bytes,
so either side may have to wait until the other reads.  A client reads and writes at
the same time, a server one after the other, and every client sends until it has its
echoes.  The calls of `recv` and `send` that move bytes are counted: there is a bound
on their number, and before all the echoes are there one of them can be made.
-/

namespace Banana

open Segments Transition

/-! ## How much has been read -/

theorem length_wire_le_mul {bodies : List (List UInt8)} (hfits : ∀ body ∈ bodies, Fits 1020 body) :
    (wire bodies).length ≤ bodies.length * 1024 := by
  induction bodies with
  | nil => exact Nat.zero_le _
  | cons body bodies ih =>
      rw [List.forall_mem_cons] at hfits
      have hle := hfits.1.2
      have hrest := ih hfits.2
      have hlen : (wire (body :: bodies)).length = 4 + body.length + (wire bodies).length := by
        rw [← List.singleton_append, wire_append, wire_singleton, List.length_append, length_frame]
      rw [List.length_cons, hlen]
      omega

/-- Behind the last frame that is complete there is less than another one. -/
theorem length_received_le {limit : ℕ} {bodies : List (List UInt8)} {received : List UInt8}
    (hfits : ∀ body ∈ bodies, Fits 1020 body) (hlimit : 1020 ≤ limit ∧ limit ≤ 1024)
    (hpart : received <+: wire bodies) :
    received.length ≤ (wire (bodiesOf (completedOf (decoded limit received)))).length + 1024 := by
  have hfits' : ∀ body ∈ bodies, Fits limit body := fun body hbody =>
    ⟨(hfits body hbody).1, (hfits body hbody).2.trans hlimit.1⟩
  obtain ⟨-, hsegments⟩ := decoded_part hfits' hlimit.2 hpart
  have hbodies := bodiesOf_mono hsegments
  rw [bodiesOf_segmentsOf] at hbodies
  obtain ⟨rest, hrest⟩ := hbodies
  cases rest with
  | nil =>
      rw [List.append_nil] at hrest
      rw [hrest]
      exact hpart.length_le.trans (Nat.le_add_right _ _)
  | cons body rest =>
      have hnext : bodiesOf (completedOf (decoded limit received)) ++ [body] <+: bodies :=
        ⟨rest, by rw [← hrest, List.append_assoc, List.singleton_append]⟩
      have hbody : body ∈ bodies := hnext.subset (by simp)
      by_contra hlong
      have hmore : wire (bodiesOf (completedOf (decoded limit received)) ++ [body]) <+:
          received := by
        refine List.prefix_of_prefix_length_le (wire_mono hnext) hpart ?_
        have hle := (hfits body hbody).2
        rw [wire_append, wire_singleton, List.length_append, length_frame]
        omega
      obtain ⟨-, -, hcompleted⟩ :=
        decoded_wire (fun body hmem => hfits' body (hnext.subset hmem)) hlimit.2
      have hagain := bodiesOf_mono (@completedOf_mono limit _ _ hmore)
      rw [hcompleted, bodiesOf_segmentsOf] at hagain
      have hlen := hagain.length_le
      rw [List.length_append, List.length_singleton] at hlen
      omega

/-! ## Calls that move bytes -/

/-- `recv` gives bytes or `send` takes some. -/
def SocketEvent.moves : SocketEvent → Bool
  | .readable (.data _) => true
  | .writable (.sent _) => true
  | _ => false

namespace Stream

/-- The event is in the table, and the call may return this. -/
def mayCall (st : Stream) : SocketEvent → Bool
  | .readable r => st.readPending && st.mayRecv r
  | .writable r => st.writePending && st.maySend r

theorem moves_le {st : Stream} {e : SocketEvent} (hsending : st.Sending)
    (hmay : st.mayCall e = true) :
    e.moves.toNat ≤ e.arrived.length + (st.sentBy e).length := by
  cases e with
  | readable r =>
      cases r with
      | data bytes =>
          obtain ⟨-, hrecv⟩ := Bool.and_eq_true_iff.mp hmay
          have hboth : 0 < bytes.length ∧ bytes.length ≤ st.needRecvLen := by
            simpa [mayRecv] using hrecv
          exact Nat.le_add_right_of_le hboth.1
      | _ => exact Nat.zero_le _
  | writable r =>
      cases r with
      | sent len =>
          obtain ⟨hpending, hsend⟩ := Bool.and_eq_true_iff.mp hmay
          have htotal := hsending hpending
          have hboth : 0 < len ∧ len ≤ st.needSendLen := by simpa [maySend] using hsend
          have htaken : (st.taken (.sent len)).length = len := by
            rw [taken, List.length_take, List.length_drop]
            omega
          rw [sentBy, htaken]
          exact Nat.le_add_left_of_le hboth.1
      | _ => exact Nat.zero_le _

theorem length_sendBuf_asyncSendBytes {st : Stream} (hst : st.sendBuf.length ≤ 1024)
    (vecBytes : List UInt8) : (st.asyncSendBytes vecBytes).2.sendBuf.length ≤ 1024 := by
  rw [asyncSendBytes]
  split_ifs with hlong
  · exact hst
  · exact not_lt.mp hlong

theorem sendBuf_sendOnePack (st : Stream) (r : SendResult) :
    (st.sendOnePack r).1.sendBuf = st.sendBuf := by
  cases r with
  | sent len =>
      rw [sendOnePack]
      split_ifs
      · rfl
      · rfl
  | _ => rfl

theorem length_unsent_le {st : Stream} (hst : st.sendBuf.length ≤ 1024) :
    st.unsent.length ≤ 1024 := by
  rw [unsent]
  split_ifs
  · rw [List.length_drop]
    omega
  · exact Nat.zero_le _

end Stream

namespace ClientConnection

variable {load : Load} {echoCount : ℤ} {c : ClientConnection}

theorem isSome_step (c : ClientConnection) (e : SocketEvent) :
    (c.step load echoCount e).isSome = (c.inMap && c.stream.mayCall e) := by
  cases e with
  | readable r =>
      rw [step, Stream.mayCall]
      split_ifs with hguard
      · rcases c.stream.recvOnePack r with ⟨stream, _ | ⟨retRecvStat, vecBytes⟩⟩ <;> simp [hguard]
      · simpa using hguard
  | writable r =>
      rw [step, Stream.mayCall]
      split_ifs with hguard
      · rcases c.stream.sendOnePack r with ⟨stream, _ | retSendStat⟩ <;> simp [hguard]
      · simpa using hguard

/-- A client that reads also writes, and one that does not has received its echoes. -/
structure Goes (load : Load) (c : ClientConnection) (echoes : ℕ) : Prop where
  writes : c.stream.readPending = true → c.inMap = true ∧ c.stream.writePending = true
  finished : c.stream.readPending = false → echoes = load.msgNum

theorem Goes.of_reads {echoes : ℕ} (hread : c.stream.readPending = true) (hmap : c.inMap = true)
    (hwrite : c.stream.writePending = true) : Goes load c echoes where
  writes _ := ⟨hmap, hwrite⟩
  finished hidle := absurd (hread.symm.trans hidle) Bool.noConfusion

theorem Goes.of_idle {echoes : ℕ} (hread : c.stream.readPending = false)
    (hechoes : echoes = load.msgNum) : Goes load c echoes where
  writes hpending := absurd (hpending.symm.trans hread) Bool.noConfusion
  finished _ := hechoes

theorem length_frame_message_le (fd : Fd) : (frame (message fd)).length ≤ 1024 := by
  have hfits := (fits_message fd).2
  rw [length_frame]
  omega

theorem goes_start (load : Load) (fd : Fd) (echoes : ℕ) : Goes load (start fd).1 echoes := by
  rw [start, startReadOrWriteInService, sendMessage_eq]
  simp only [startRecvHead_eq]
  refine .of_reads (awaits_recvHead _ []).pending rfl ?_
  exact ((Stream.sameSend_asyncRecvBytes _ 4).2.2.2).trans
    (Stream.new.asyncSendBytes_of_le (length_frame_message_le fd)).1

theorem goes_asyncRecvBytes {num : ℤ} {echoes : ℕ} (hmap : c.inMap = true)
    (hwrite : c.stream.writePending = true) (hpos : 0 < num) (hle : num ≤ 1024)
    {stat : ConnectionStat} {selfEchoCount : ℤ} :
    Goes load { c with
      stream := (c.stream.asyncRecvBytes num).2
      stat := stat
      selfEchoCount := selfEchoCount } echoes := by
  obtain ⟨-, hrecv, hkept⟩ := c.stream.asyncRecvBytes_of_pos hpos hle
  exact .of_reads hrecv.pending hmap (hkept.trans hwrite)

section

variable {echoCount echoes : ℕ} {bodies : List (List UInt8)} {segment : List UInt8}

theorem goes_recvBodyDone (hmap : c.inMap = true) (hwrite : c.stream.writePending = true)
    (hread : c.stream.readPending = false) (hself : c.selfEchoCount = echoes)
    (hlt : echoes < load.msgNum) (hroom : echoCount + 1 ≤ load.msgNum * load.clientNum)
    (hall : (c.recvBodyDone load echoCount segment).echoCount =
        (load.msgNum * load.clientNum : ℕ) → echoes + 1 = load.msgNum) :
    Goes load (c.recvBodyDone load echoCount segment).client (echoes + 1) := by
  obtain ⟨hecho, hproduct⟩ := wrap_echoCount load hroom
  have hnext : NativeInt.wrap (c.selfEchoCount + 1) = (echoes + 1 : ℕ) := by
    have hmsg := msgNum_le load
    rw [hself, NativeInt.wrap_of_range (by omega) (by omega), Nat.cast_succ]
  rw [recvBodyDone, hecho, hproduct, hnext] at hall ⊢
  by_cases hlast : echoCount + 1 = load.msgNum * load.clientNum
  · rw [if_pos (by omega)] at hall ⊢
    exact .of_idle hread (hall (by rw [hlast]))
  · rw [if_neg (by omega)]
    by_cases hmine : echoes + 1 = load.msgNum
    · rw [if_pos (by omega)]
      exact .of_idle hread hmine
    · rw [if_neg (by omega)]
      exact goes_asyncRecvBytes hmap hwrite (by decide) (by decide)

/-- A segment of frames that fit has been received. -/
theorem goes_recvCompleteCallback (hfits : ∀ body ∈ bodies, Fits 1020 body)
    (hsegment : SegmentOf bodies c.stat segment) (hmap : c.inMap = true)
    (hwrite : c.stream.writePending = true) (hread : c.stream.readPending = false)
    (hself : c.selfEchoCount = echoes) (hlt : echoes < load.msgNum)
    (hroom : echoCount + 1 ≤ load.msgNum * load.clientNum)
    (hall : (c.recvCompleteCallback load echoCount .recved segment).echoCount =
        (load.msgNum * load.clientNum : ℕ) →
      echoes + (echoesOf (c.recvCompleteCallback load echoCount .recved segment).notes).length =
        load.msgNum) :
    Goes load (c.recvCompleteCallback load echoCount .recved segment).client
      (echoes +
        (echoesOf (c.recvCompleteCallback load echoCount .recved segment).notes).length) := by
  cases hstat : c.stat with
  | recvHead =>
      rw [hstat] at hsegment
      cases hsegment with
      | header body hbody =>
          obtain ⟨hpos, hle⟩ := hfits body hbody
          have hlong : ¬ (1024 : ℤ) < body.length := by omega
          rw [recvCompleteCallback_head hstat (NativeInt.length_bytesOfNat 4 _),
            decode_header (by omega), recvHeadDone, if_neg hlong]
          exact goes_asyncRecvBytes hmap hwrite (by omega) (by omega)
  | recvBody =>
      have hcall : c.recvCompleteCallback load echoCount .recved segment =
          c.recvBodyDone load echoCount segment := by
        simp [recvCompleteCallback, hstat]
      have hone : (echoesOf (c.recvBodyDone load echoCount segment).notes).length = 1 := by
        rw [recvBodyDone]
        split_ifs <;> rfl
      rw [hcall, hone] at hall ⊢
      exact goes_recvBodyDone hmap hwrite hread hself hlt hroom hall

variable {received sent : List UInt8} {notes : List Note} {out : Reaction}

theorem Goes.readable {r : RecvResult} (hgoes : Goes load c (echoesOf notes).length)
    (h : Follows load c received sent notes) (hfails : r.fails = false)
    (hfits : ∀ body ∈ bodies, Fits 1020 body) (hpart : received ++ r.bytes <+: wire bodies)
    (hroom : (echoesOf notes).length < load.msgNum →
      echoCount + 1 ≤ load.msgNum * load.clientNum)
    (hall : out.echoCount = (load.msgNum * load.clientNum : ℕ) →
      (echoesOf (notes ++ out.notes)).length = load.msgNum)
    (hstep : c.step load echoCount (.readable r) = some out) :
    Goes load out.client (echoesOf (notes ++ out.notes)).length := by
  simp only [ClientConnection.step, Option.ite_none_right_eq_some] at hstep
  obtain ⟨⟨hmap, hpending, hmay⟩, hstep⟩ := hstep
  obtain ⟨-, hwrite⟩ := hgoes.writes hpending
  rw [echoesOf_append, List.length_append] at hall ⊢
  cases h.reads with
  | done hread _ => simp [hread] at hpending
  | awaits hawaits hlt hself =>
      rw [← h.echoes_eq] at hlt hself
      have hevent := hawaits.readEvent hmay hfails 1024
      have hkept := (c.stream.sameSend_recvOnePack r).2.2.2
      generalize c.stream.recvOnePack r = result at hevent hstep hkept
      cases hevent with
      | continues st' hnone h' hlog =>
          obtain rfl := Option.some.inj hstep
          exact .of_reads h'.pending hmap (hkept.trans hwrite)
      | completes st' segment hsome hread hlen hscan =>
          obtain rfl := Option.some.inj hstep
          have hsegment := segmentOf_complete
            (fun body hbody => ⟨(hfits body hbody).1, (hfits body hbody).2.trans (by decide)⟩)
            (by decide) hpart hscan
          rw [← hawaits.stat_eq] at hsegment
          exact @goes_recvCompleteCallback load { c with stream := st' } echoCount
            (echoesOf notes).length bodies segment hfits hsegment hmap (hkept.trans hwrite) hread
            hself hlt (hroom hlt) hall

theorem Goes.writable {r : SendResult} (hgoes : Goes load c (echoesOf notes).length)
    (h : Follows load c received sent notes) (hfails : r.fails = false)
    (hstep : c.step load echoCount (.writable r) = some out) :
    Goes load out.client (echoesOf (notes ++ out.notes)).length := by
  simp only [ClientConnection.step, Option.ite_none_right_eq_some] at hstep
  obtain ⟨⟨hmap, hpending, -⟩, hstep⟩ := hstep
  have hok := c.stream.sendOnePack_ne_senderr hfails
  have hwrote := c.stream.wrote_sendOnePack r
  generalize c.stream.sendOnePack r = result at hok hwrote hstep
  cases hwrote with
  | continues st' hread _ hwrite =>
      obtain rfl := Option.some.inj hstep
      rw [List.append_nil]
      exact ⟨fun _ => ⟨hmap, hwrite.trans hpending⟩,
        fun hidle => hgoes.finished (hread.symm.trans hidle)⟩
  | completes st' hread _ _ =>
      obtain rfl := Option.some.inj hstep
      rw [sendCompleteCallback, if_neg (by decide)]
      by_cases hdone : c.selfEchoCount = (load.msgNum : ℤ)
      · rw [if_pos hdone, List.append_nil]
        -- a client that still reads has not counted all its echoes
        cases h.reads with
        | awaits _ hlt hself => omega
        | done hidle _ => exact .of_idle (hread.trans hidle) (hgoes.finished hidle)
      · rw [if_neg hdone, sendMessage_eq, echoesOf_append]
        obtain ⟨hwrite', hread'⟩ := st'.asyncSendBytes_of_le (length_frame_message_le c.handle)
        refine ⟨fun _ => ⟨hmap, hwrite'⟩, fun hidle => ?_⟩
        exact (congrArg List.length (List.append_nil _)).trans
          (hgoes.finished ((hread'.trans hread).symm.trans hidle))
  | fails st' _ _ => exact absurd rfl hok

theorem Goes.step {e : SocketEvent} (hgoes : Goes load c (echoesOf notes).length)
    (h : Follows load c received sent notes) (hdelivers : e.Delivers)
    (hfits : ∀ body ∈ bodies, Fits 1020 body) (hpart : received ++ e.arrived <+: wire bodies)
    (hroom : (echoesOf notes).length < load.msgNum →
      echoCount + 1 ≤ load.msgNum * load.clientNum)
    (hall : out.echoCount = (load.msgNum * load.clientNum : ℕ) →
      (echoesOf (notes ++ out.notes)).length = load.msgNum)
    (hstep : c.step load echoCount e = some out) :
    Goes load out.client (echoesOf (notes ++ out.notes)).length := by
  cases e with
  | readable r => exact hgoes.readable h hdelivers hfits hpart hroom hall hstep
  | writable r => exact hgoes.writable h hdelivers hstep

end

end ClientConnection

namespace ConcurrentConnection

variable {c d : ConcurrentConnection}

theorem isSome_step (c : ConcurrentConnection) (e : SocketEvent) :
    (ConcurrentConnection.step c e).isSome = (c.inMap && c.stream.mayCall e) := by
  cases e with
  | readable r =>
      rw [step_readable, Stream.mayCall]
      split_ifs with hguard
      · rcases c.stream.recvOnePack r with ⟨stream, _ | ⟨retRecvStat, vecBytes⟩⟩ <;> simp [hguard]
      · simpa using hguard
  | writable r =>
      rw [step_writable, Stream.mayCall]
      split_ifs with hguard
      · rcases c.stream.sendOnePack r with ⟨stream, _ | retSendStat⟩ <;> simp [hguard]
      · simpa using hguard

theorem length_sendBuf_recvHeadDone (hc : c.stream.sendBuf.length ≤ 1024) (bodyLen : ℤ) :
    (c.recvHeadDone bodyLen).1.stream.sendBuf.length ≤ 1024 := by
  rw [recvHeadDone]
  split_ifs
  · exact (c.stream.sameSend_asyncRecvBytes 4).1 ▸ hc
  · exact (c.stream.sameSend_asyncRecvBytes bodyLen).1 ▸ hc

theorem length_sendBuf_recvCompleteCallback (hc : c.stream.sendBuf.length ≤ 1024)
    (retRecvStat : StreamStat) (vecBytes : List UInt8) :
    (c.recvCompleteCallback retRecvStat vecBytes).1.stream.sendBuf.length ≤ 1024 := by
  rw [recvCompleteCallback]
  generalize (NativeInt.decode vecBytes).val = bodyLen
  by_cases herr : retRecvStat = .recverr
  · rw [if_pos herr]
    exact hc
  · rw [if_neg herr]
    cases c.stat with
    | recvHead =>
        dsimp only
        split_ifs
        · exact (c.stream.sameSend_asyncRecvBytes 4).1 ▸ hc
        · exact length_sendBuf_recvHeadDone hc bodyLen
    | recvBody => exact Stream.length_sendBuf_asyncSendBytes hc _

theorem length_sendBuf_step {e : SocketEvent} (hc : c.stream.sendBuf.length ≤ 1024)
    (hstep : ConcurrentConnection.step c e = some d) : d.stream.sendBuf.length ≤ 1024 := by
  cases e with
  | readable r =>
      simp only [ConcurrentConnection.step_readable, Option.ite_none_right_eq_some] at hstep
      obtain ⟨-, hstep⟩ := hstep
      have hkept := (c.stream.sameSend_recvOnePack r).1
      rcases hfired : c.stream.recvOnePack r with ⟨stream, _ | ⟨retRecvStat, vecBytes⟩⟩
      · rw [hfired] at hkept hstep
        obtain rfl := Option.some.inj hstep
        exact hkept ▸ hc
      · rw [hfired] at hkept hstep
        obtain rfl := Option.some.inj hstep
        exact @length_sendBuf_recvCompleteCallback { c with stream := stream }
          (hkept ▸ hc) retRecvStat vecBytes
  | writable r =>
      simp only [ConcurrentConnection.step_writable, Option.ite_none_right_eq_some] at hstep
      obtain ⟨-, hstep⟩ := hstep
      have hkept := c.stream.sendBuf_sendOnePack r
      rcases hfired : c.stream.sendOnePack r with ⟨stream, _ | retSendStat⟩
      · rw [hfired] at hkept hstep
        obtain rfl := Option.some.inj hstep
        exact hkept ▸ hc
      · rw [hfired] at hkept hstep
        obtain rfl := Option.some.inj hstep
        have hst : stream.sendBuf.length ≤ 1024 := hkept ▸ hc
        rw [sendCompleteCallback, startRecvHead_eq]
        split_ifs
        · exact hst
        · exact (stream.sameSend_asyncRecvBytes 4).1 ▸ hst

theorem length_sendBuf_start : start.stream.sendBuf.length ≤ 1024 := by
  rw [start_eq]
  have hkept := (Stream.new.sameSend_asyncRecvBytes 4).1
  refine (congrArg List.length hkept).trans_le ?_
  rw [Stream.new, List.length_replicate, Stream.defaultBuffLen]

theorem Echoes.sending {R : FrameReader} {sent : List UInt8} (h : Echoes c R sent) :
    c.stream.Sending := by
  intro hwrite
  cases h with
  | awaits _ hidle _ => simp [hidle] at hwrite
  | answers _ _ _ _ _ hsending _ => exact hsending hwrite
  | stuckHead _ _ _ _ hidle _ => simp [hidle] at hwrite
  | stuckBody _ _ _ _ hidle _ _ => simp [hidle] at hwrite

end ConcurrentConnection

/-! ## Pairs with bounded sockets -/

/-- Behind `outgoing` there is room for what `send` takes. -/
def SocketEvent.hasRoom (cap : ℕ) (outgoing : List UInt8) : SocketEvent → Bool
  | .writable (.sent len) => decide (outgoing.length + len ≤ cap)
  | _ => true

theorem length_outgoing_le {cap : ℕ} {outgoing : List UInt8} {e : SocketEvent} (st : Stream)
    (hle : outgoing.length ≤ cap) (hroom : e.hasRoom cap outgoing = true) :
    (outgoing ++ st.sentBy e).length ≤ cap := by
  rw [List.length_append]
  cases e with
  | readable r => exact hle
  | writable r =>
      cases r with
      | sent len =>
          have hfits := of_decide_eq_true hroom
          have htaken : (st.taken (.sent len)).length ≤ len := List.length_take_le _ _
          rw [Stream.sentBy]
          omega
      | _ => exact hle

def PairEvent.moves : PairEvent → Bool
  | .connect _ => true
  | .accept => true
  | .client e => e.moves
  | .server e => e.moves

namespace Pair

variable {p : Pair} {load : Load} {echoCount : ℤ} {e : SocketEvent} {r : PairReaction}

/-- Either direction of a connection buffers `cap` bytes. -/
def hasRoom (cap : ℕ) (p : Pair) : PairEvent → Bool
  | .connect _ => true
  | .accept => true
  | .client e => e.hasRoom cap p.toServer
  | .server e => e.hasRoom cap p.toClient

def parties (p : Pair) : ℕ := p.client.isSome.toNat + p.server.isSome.toNat

theorem clientEvent_eq_some :
    p.clientEvent load echoCount e = some r ↔
      ∃ c toServer toClient out, p.client = some c ∧
        carry c.stream p.toServer p.toClient e = some (toServer, toClient) ∧
        c.step load echoCount e = some out ∧
        ⟨{ p with client := some out.client, toServer := toServer, toClient := toClient },
          out.echoCount, out.notes, []⟩ = r := by
  rw [clientEvent]
  constructor
  · intro h
    split at h
    · cases h
    · next c hc =>
        split at h
        · next toServer toClient out hcarry hout =>
            exact ⟨c, toServer, toClient, out, hc, hcarry, hout, Option.some.inj h⟩
        · cases h
  · rintro ⟨c, toServer, toClient, out, hc, hcarry, hout, rfl⟩
    simp only [hc, hcarry, hout]

theorem serverEvent_eq_some :
    p.serverEvent echoCount e = some r ↔
      ∃ c toClient toServer d notes, p.server = some c ∧
        carry c.stream p.toClient p.toServer e = some (toClient, toServer) ∧
        c.react e = some (d, notes) ∧
        ⟨{ p with server := some d, toServer := toServer, toClient := toClient },
          echoCount, [], notes⟩ = r := by
  rw [serverEvent]
  constructor
  · intro h
    split at h
    · cases h
    · next c hc =>
        split at h
        · next toClient toServer d notes hcarry hreact =>
            exact ⟨c, toClient, toServer, d, notes, hc, hcarry, hreact, Option.some.inj h⟩
        · cases h
  · rintro ⟨c, toClient, toServer, d, notes, hc, hcarry, hreact, rfl⟩
    simp only [hc, hcarry, hreact]

end Pair

def Traffic.moved (t : Traffic) : ℕ :=
  t.clientReceived.length + t.clientSent.length + t.serverReceived.length + t.serverSent.length

/-- A pair whose sockets buffer `cap` bytes each way. -/
structure Flows (load : Load) (cap : ℕ) (p : Pair) (clientNotes serverNotes : List Note)
    (t : Traffic) : Prop where
  linked : Linked load p clientNotes serverNotes t
  toServer : p.toServer.length ≤ cap
  toClient : p.toClient.length ≤ cap
  goes : ∀ c, p.client = some c → c.Goes load (echoesOf clientNotes).length
  sendBuf : ∀ c, p.server = some c → c.stream.sendBuf.length ≤ 1024

/-- A pair after an event, and how far it has come. -/
def Advances (load : Load) (cap : ℕ) (p : Pair) (clientNotes serverNotes : List Note)
    (t : Traffic) (e : PairEvent) (r : PairReaction) : Prop :=
  ∃ t', Flows load cap r.pair (clientNotes ++ r.clientNotes) (serverNotes ++ r.serverNotes) t' ∧
    t.moved + p.parties + e.moves.toNat ≤ t'.moved + r.pair.parties

section

variable {load : Load} {cap : ℕ} {p : Pair} {clientNotes serverNotes : List Note} {t : Traffic}
  {echoCount : ℕ} {r : PairReaction}

theorem Flows.connect (h : Flows load cap p clientNotes serverNotes t) {fd : Fd}
    (hstep : p.connect echoCount fd = some r) :
    Advances load cap p clientNotes serverNotes t (.connect fd) r := by
  rw [Pair.connect] at hstep
  cases hclient : p.client with
  | some c => simp [hclient] at hstep
  | none =>
      rw [hclient] at hstep
      obtain rfl := Option.some.inj hstep
      have hside := h.linked.client
      rw [hclient] at hside
      obtain ⟨hreceived, hsent, hnotes⟩ := hside.of_none
      refine ⟨t, ⟨⟨?_, ?_, h.linked.toServer, h.linked.toClient⟩, h.toServer, h.toClient, ?_, ?_⟩,
        ?_⟩
      · rw [hreceived, hsent, hnotes]
        exact .present _ _ _ _ (ClientConnection.follows_start load fd)
      · rw [List.append_nil]
        exact h.linked.server
      · rintro c hc
        obtain rfl := Option.some.inj hc
        exact ClientConnection.goes_start load fd _
      · exact h.sendBuf
      · simp only [Pair.parties, hclient, PairEvent.moves, Option.isSome_none, Option.isSome_some,
          Bool.toNat_false, Bool.toNat_true]
        omega

theorem Flows.accept (h : Flows load cap p clientNotes serverNotes t)
    (hstep : p.accept echoCount = some r) :
    Advances load cap p clientNotes serverNotes t .accept r := by
  rw [Pair.accept] at hstep
  cases hserver : p.server with
  | some c => simp [hserver] at hstep
  | none =>
      rw [hserver] at hstep
      obtain rfl := Option.some.inj hstep
      have hside := h.linked.server
      rw [hserver] at hside
      obtain ⟨hreceived, hsent, hnotes⟩ := hside.of_none
      refine ⟨t, ⟨⟨?_, ?_, h.linked.toServer, h.linked.toClient⟩, h.toServer, h.toClient, ?_, ?_⟩,
        ?_⟩
      · rw [List.append_nil]
        exact h.linked.client
      · rw [hreceived, hsent, hnotes]
        refine .present _ _ _ _ _ ConcurrentConnection.follows_start ?_
        rw [List.nil_append]
        exact ConcurrentConnection.start_clean
      · rw [List.append_nil]
        exact h.goes
      · rintro c hc
        obtain rfl := Option.some.inj hc
        exact ConcurrentConnection.length_sendBuf_start
      · simp only [Pair.parties, hserver, PairEvent.moves, Option.isSome_none, Option.isSome_some,
          Bool.toNat_false, Bool.toNat_true]
        omega

theorem Flows.clientEvent (h : Flows load cap p clientNotes serverNotes t) {e : SocketEvent}
    (hcap : e.hasRoom cap p.toServer = true)
    (hroom : (echoesOf clientNotes).length < load.msgNum →
      echoCount + 1 ≤ load.msgNum * load.clientNum)
    (hall : r.echoCount = (load.msgNum * load.clientNum : ℕ) →
      (echoesOf (clientNotes ++ r.clientNotes)).length = load.msgNum)
    (hstep : p.clientEvent load echoCount e = some r) :
    Advances load cap p clientNotes serverNotes t (.client e) r := by
  obtain ⟨c, toServer, toClient, out, hclient, hcarry, hout, rfl⟩ :=
    Pair.clientEvent_eq_some.mp hstep
  obtain ⟨hdelivers, houtgoing, hincoming⟩ := carry_spec hcarry
  obtain ⟨handled, -, hfits, hpart⟩ := h.linked.handled
  rw [← hincoming, ← List.append_assoc] at hpart
  have hread := (List.prefix_append _ _).trans hpart
  have hside := h.linked.client
  rw [hclient] at hside
  have hbefore := hside.of_some
  obtain ⟨hfollows, -⟩ := hbefore.step hdelivers hfits hread hroom hout
  have hmay : c.stream.mayCall e = true := by
    have hsome : (c.step load echoCount e).isSome = _ := c.isSome_step e
    rw [hout, Option.isSome_some] at hsome
    exact (Bool.and_eq_true_iff.mp hsome.symm).2
  refine ⟨⟨t.clientReceived ++ e.arrived, t.clientSent ++ c.stream.sentBy e, t.serverReceived,
    t.serverSent⟩, ⟨⟨.present _ _ _ _ hfollows, ?_, ?_, ?_⟩, ?_, ?_, ?_, ?_⟩, ?_⟩
  · rw [List.append_nil]
    exact h.linked.server
  · rw [houtgoing, ← List.append_assoc, h.linked.toServer]
  · rw [List.append_assoc, hincoming, h.linked.toClient]
  · rw [houtgoing]
    exact length_outgoing_le c.stream h.toServer hcap
  · have hlen := congrArg List.length hincoming
    rw [List.length_append] at hlen
    exact (Nat.le_add_left _ _).trans (hlen.trans_le h.toClient)
  · rintro d hd
    obtain rfl := Option.some.inj hd
    exact (h.goes c hclient).step hbefore hdelivers hfits hread hroom hall hout
  · exact h.sendBuf
  · have hmoves := Stream.moves_le hbefore.sendSide.sending hmay
    simp only [Traffic.moved, Pair.parties, PairEvent.moves, hclient, Option.isSome_some,
      List.length_append]
    omega

theorem Flows.serverEvent (h : Flows load cap p clientNotes serverNotes t) {e : SocketEvent}
    (hcap : e.hasRoom cap p.toClient = true)
    (hstep : p.serverEvent echoCount e = some r) :
    Advances load cap p clientNotes serverNotes t (.server e) r := by
  obtain ⟨c, toClient, toServer, d, notes, hserver, hcarry, hreact, rfl⟩ :=
    Pair.serverEvent_eq_some.mp hstep
  have hout := ConcurrentConnection.step_of_react hreact
  obtain ⟨hdelivers, houtgoing, hincoming⟩ := carry_spec hcarry
  have hside := h.linked.server
  rw [hserver] at hside
  obtain ⟨⟨completed, hfollows⟩, hclean⟩ := hside.of_some
  have hpart := h.linked.client.sent_part
  rw [← h.linked.toServer, ← hincoming, ← List.append_assoc] at hpart
  have hnotes := hfollows.notes_clean hdelivers h.linked.client.fits
    ((List.prefix_append _ _).trans hpart) hreact
  have hnext := hfollows.step hdelivers hout
  have hsent : c.sent e = c.stream.sentBy e := by
    cases e with
    | readable r => rfl
    | writable r => rfl
  rw [hsent] at hnext
  have hmay : c.stream.mayCall e = true := by
    have hsome := c.isSome_step e
    rw [hout, Option.isSome_some] at hsome
    exact (Bool.and_eq_true_iff.mp hsome.symm).2
  refine ⟨⟨t.clientReceived, t.clientSent, t.serverReceived ++ e.arrived,
    t.serverSent ++ c.stream.sentBy e⟩, ⟨⟨?_, .present _ _ _ _ _ hnext ?_, ?_, ?_⟩, ?_, ?_, ?_,
      ?_⟩, ?_⟩
  · rw [List.append_nil]
    exact h.linked.client
  · rw [List.forall_mem_append]
    exact ⟨hclean, hnotes⟩
  · rw [List.append_assoc, hincoming, h.linked.toServer]
  · rw [houtgoing, ← List.append_assoc, h.linked.toClient]
  · have hlen := congrArg List.length hincoming
    rw [List.length_append] at hlen
    exact (Nat.le_add_left _ _).trans (hlen.trans_le h.toServer)
  · rw [houtgoing]
    exact length_outgoing_le c.stream h.toClient hcap
  · rw [List.append_nil]
    exact h.goes
  · rintro c' hc
    obtain rfl := Option.some.inj hc
    exact ConcurrentConnection.length_sendBuf_step (h.sendBuf c hserver) hout
  · have hmoves := Stream.moves_le hfollows.echoes.sending hmay
    simp only [Traffic.moved, Pair.parties, PairEvent.moves, hserver, Option.isSome_some,
      List.length_append]
    omega

theorem Flows.step (h : Flows load cap p clientNotes serverNotes t) {e : PairEvent}
    (hcap : p.hasRoom cap e = true)
    (hroom : (echoesOf clientNotes).length < load.msgNum →
      echoCount + 1 ≤ load.msgNum * load.clientNum)
    (hall : r.echoCount = (load.msgNum * load.clientNum : ℕ) →
      (echoesOf (clientNotes ++ r.clientNotes)).length = load.msgNum)
    (hstep : p.step load echoCount e = some r) :
    Advances load cap p clientNotes serverNotes t e r := by
  cases e with
  | connect fd => exact h.connect hstep
  | accept => exact h.accept hstep
  | client e => exact h.clientEvent hcap hroom hall hstep
  | server e => exact h.serverEvent hcap hstep

/-! ## The bytes of a pair -/

/-- More than both sides of a pair can send and receive. -/
def pairBound (load : Load) (cap : ℕ) : ℕ := 4096 * (load.msgNum + 1) + 4 * cap + 4098

theorem Flows.moved_le (h : Flows load cap p clientNotes serverNotes t) :
    t.moved + p.parties ≤ pairBound load cap := by
  have hclient : t.clientReceived.length ≤ 1024 * (load.msgNum + 1) := by
    obtain ⟨handled, -, hfits, hpart⟩ := h.linked.handled
    have hread := (List.prefix_append _ _).trans hpart
    have hreceived := @length_received_le 1024 _ _ hfits (by decide) hread
    have hcount := h.linked.client.count_le
    obtain ⟨-, hsegments⟩ := @decoded_part 1024 handled t.clientReceived
      (fun body hbody => ⟨(hfits body hbody).1, (hfits body hbody).2.trans (by decide)⟩)
      (by decide) hread
    have hbodies := bodiesOf_mono hsegments
    rw [bodiesOf_segmentsOf] at hbodies
    have hwire := length_wire_le_mul fun body hbody => hfits body (hbodies.subset hbody)
    rw [h.linked.client.echoes_eq] at hcount
    have hmul := Nat.mul_le_mul_right 1024 hcount
    omega
  have hserver : t.serverReceived.length ≤ t.serverSent.length + 2048 := by
    have hside := h.linked.server
    cases hat : p.server with
    | none =>
        rw [hat] at hside
        rw [hside.of_none.1]
        exact Nat.zero_le _
    | some c =>
        rw [hat] at hside
        obtain ⟨⟨completed, hfollows⟩, -⟩ := hside.of_some
        have hpart := h.linked.received_part
        have hreceived := @length_received_le 1020 _ _ h.linked.client.fits (by decide) hpart
        obtain ⟨hmode, -⟩ := decoded_part h.linked.client.fits (by decide) hpart
        have hanswered := congrArg List.length (hfollows.handled_eq hmode).1
        have hunsent := Stream.length_unsent_le (h.sendBuf c hat)
        rw [List.length_append, hfollows.completed_eq] at hanswered
        omega
  have htoServer := congrArg List.length h.linked.toServer
  have htoClient := congrArg List.length h.linked.toClient
  have hroomServer := h.toServer
  have hroomClient := h.toClient
  have hparties : p.parties ≤ 2 :=
    Nat.add_le_add (Bool.toNat_le _) (Bool.toNat_le _)
  rw [List.length_append] at htoServer htoClient
  unfold Traffic.moved pairBound
  omega

/-! ## Before the last echo -/

/-- No call that moves bytes can be made, nor a connection. -/
def Pair.AtRest (load : Load) (cap : ℕ) (echoCount : ℤ) (p : Pair) : Prop :=
  ∀ e : PairEvent, e.moves = true → p.hasRoom cap e = true → p.step load echoCount e = none

theorem Pair.AtRest.client_silent {echoCount : ℤ} (hrest : p.AtRest load cap echoCount)
    {c : ClientConnection} (hc : p.client = some c) {e : SocketEvent} (hmoves : e.moves = true)
    (hcap : e.hasRoom cap p.toServer = true)
    (hcarry : (carry c.stream p.toServer p.toClient e).isSome = true) :
    (c.inMap && c.stream.mayCall e) = false := by
  have hnone := hrest (.client e) hmoves hcap
  rw [Pair.step, Pair.clientEvent, hc] at hnone
  obtain ⟨⟨toServer, toClient⟩, hcarry⟩ := Option.isSome_iff_exists.mp hcarry
  have hsome : (c.step load echoCount e).isSome = _ := c.isSome_step e
  rw [← hsome, Option.isSome_eq_false_iff, Option.isNone_iff_eq_none]
  dsimp only at hnone
  rw [hcarry] at hnone
  cases hout : c.step load echoCount e with
  | none => rfl
  | some out => simp [hout] at hnone

theorem Pair.AtRest.server_silent {echoCount : ℤ} (hrest : p.AtRest load cap echoCount)
    {c : ConcurrentConnection} (hc : p.server = some c) {e : SocketEvent}
    (hmoves : e.moves = true) (hcap : e.hasRoom cap p.toClient = true)
    (hcarry : (carry c.stream p.toClient p.toServer e).isSome = true) :
    (c.inMap && c.stream.mayCall e) = false := by
  have hnone := hrest (.server e) hmoves hcap
  rw [Pair.step, Pair.serverEvent, hc] at hnone
  obtain ⟨⟨toClient, toServer⟩, hcarry⟩ := Option.isSome_iff_exists.mp hcarry
  rw [← c.isSome_step, Option.isSome_eq_false_iff, Option.isNone_iff_eq_none,
    ConcurrentConnection.step]
  dsimp only at hnone
  rw [hcarry] at hnone
  cases hreact : c.react e with
  | none => rfl
  | some out => simp [hreact] at hnone

/-- A read of the first byte, and a write into an empty buffer. -/
theorem carry_first (st : Stream) (outgoing incoming : List UInt8) (b : UInt8) :
    (carry st outgoing (b :: incoming) (.readable (.data [b]))).isSome = true := by
  rw [carry, if_pos ⟨incoming, rfl⟩]
  rfl

theorem mayCall_first {stat : ConnectionStat} {st : Stream} {R : FrameReader}
    (h : Awaits stat st R) (b : UInt8) : st.mayCall (.readable (.data [b])) = true := by
  rw [Stream.mayCall, h.pending, Bool.true_and]
  exact h.mayRecv Nat.one_pos h.short

theorem mayCall_one {st : Stream} (hwrite : st.writePending = true) (hneed : 0 < st.needSendLen) :
    st.mayCall (.writable (.sent 1)) = true := by
  rw [Stream.mayCall, hwrite, Bool.true_and, Stream.maySend]
  exact decide_eq_true ⟨Nat.one_pos, hneed⟩

theorem hasRoom_one {cap : ℕ} (hcap : 1 ≤ cap) :
    SocketEvent.hasRoom cap [] (.writable (.sent 1)) = true := by
  rw [SocketEvent.hasRoom, List.length_nil]
  exact decide_eq_true (by omega)

/-- A client that reads would read what is on its way. -/
theorem Pair.AtRest.toClient_eq_nil {echoCount : ℤ} (hrest : p.AtRest load cap echoCount)
    {c : ClientConnection} (hc : p.client = some c) (hmap : c.inMap = true) {R : FrameReader}
    (hawaits : Awaits c.stat c.stream R) : p.toClient = [] := by
  cases hto : p.toClient with
  | nil => rfl
  | cons b rest =>
      have hsilent := hrest.client_silent hc (e := .readable (.data [b])) rfl rfl
        (hto ▸ carry_first c.stream _ rest b)
      simp [hmap, mayCall_first hawaits b] at hsilent

theorem Pair.AtRest.toServer_eq_nil {echoCount : ℤ} (hrest : p.AtRest load cap echoCount)
    {d : ConcurrentConnection} (hd : p.server = some d) (hmap : d.inMap = true) {R : FrameReader}
    (hawaits : Awaits d.stat d.stream R) : p.toServer = [] := by
  cases hto : p.toServer with
  | nil => rfl
  | cons b rest =>
      have hsilent := hrest.server_silent hd (e := .readable (.data [b])) rfl rfl
        (hto ▸ carry_first d.stream _ rest b)
      simp [hmap, mayCall_first hawaits b] at hsilent

/-- A pair that moves no more bytes has moved all the echoes: the client would read
what is on its way back, then the server would write its answer or read the next
frame, and then the client would write. -/
theorem Flows.all_of_atRest (h : Flows load cap p clientNotes serverNotes t) {echoCount : ℤ}
    (hcap : 1 ≤ cap) (hrest : p.AtRest load cap echoCount) :
    (echoesOf clientNotes).length = load.msgNum := by
  cases hclient : p.client with
  | none =>
      have hconnect := hrest (.connect ⟨1, by decide⟩) rfl rfl
      simp [Pair.step, Pair.connect, hclient] at hconnect
  | some c =>
      cases hserver : p.server with
      | none =>
          have haccept := hrest .accept rfl rfl
          simp [Pair.step, Pair.accept, hserver] at haccept
      | some d =>
          by_contra hmissing
          have hpart := h.linked.received_part
          have hgoes := h.goes c hclient
          have hclientSide := h.linked.client
          have hserverSide := h.linked.server
          rw [hclient] at hclientSide
          rw [hserver] at hserverSide
          have hc := hclientSide.of_some
          obtain ⟨⟨completed, hd⟩, -⟩ := hserverSide.of_some
          have hread : c.stream.readPending = true := by
            by_contra hidle
            exact hmissing (hgoes.finished (Bool.eq_false_of_not_eq_true hidle))
          obtain ⟨hmap, hwrite⟩ := hgoes.writes hread
          have hawaits : Awaits c.stat c.stream (decoded 1024 t.clientReceived) := by
            cases hc.reads with
            | awaits hawaits _ _ => exact hawaits
            | done hidle _ => simp [hidle] at hread
          have hnoEcho := hrest.toClient_eq_nil hclient hmap hawaits
          have hreads : Awaits d.stat d.stream (decoded 1020 t.serverReceived) := by
            obtain ⟨hmode, -⟩ := decoded_part h.linked.client.fits (by decide) hpart
            cases hd.echoes with
            | awaits hawaits _ _ => exact hawaits
            | answers _ _ _ hpending hneed _ _ =>
                have hsilent := hrest.server_silent hserver (e := .writable (.sent 1)) rfl
                  (hnoEcho ▸ hasRoom_one hcap) rfl
                simp [hd.inMap, mayCall_one hpending hneed] at hsilent
            | stuckHead _ _ hstuck _ _ _ => exact absurd hstuck hmode
            | stuckBody _ _ hstuck _ _ _ _ => exact absurd hstuck hmode
          have hnoFrame := hrest.toServer_eq_nil hserver hd.inMap hreads
          have hsilent := hrest.client_silent hclient (e := .writable (.sent 1)) rfl
            (hnoFrame ▸ hasRoom_one hcap) rfl
          simp [hmap, mayCall_one hwrite (hc.sendSide.need hwrite)] at hsilent

end

/-! ## All the pairs -/

namespace ConcurrenceSimulateServer

variable {load : Load} {cap : ℕ}

/-- An event for which the sockets have room. -/
def roomStep (cap : ℕ) (s : ConcurrenceSimulateServer load) (a : Event load) :
    Option (ConcurrenceSimulateServer load) :=
  if (s.pairs a.1).hasRoom cap a.2 = true then step s a else none

/-- No byte can be moved any more, and everybody is connected. -/
def AtRest (cap : ℕ) (s : ConcurrenceSimulateServer load) : Prop :=
  ∀ a : Event load, a.2.moves = true → roomStep cap s a = none

def movesIn (as : List (Event load)) : ℕ := as.countP fun a => a.2.moves

/-- More moves than a run can have. -/
def moveBound (load : Load) (cap : ℕ) : ℕ := pairBound load cap * load.clientNum

theorem roomStep_eq_some {s u : ConcurrenceSimulateServer load} {a : Event load} :
    roomStep cap s a = some u ↔ (s.pairs a.1).hasRoom cap a.2 = true ∧ step s a = some u := by
  rw [roomStep, Option.ite_none_right_eq_some]

/-- How far the pairs have come. -/
def progress (pairs : Fin load.clientNum → Pair) (traffic : Fin load.clientNum → Traffic) : ℕ :=
  Threads.total (fun q : Traffic × Pair => q.1.moved + q.2.parties) fun i => (traffic i, pairs i)

section

variable {s : ConcurrenceSimulateServer load}
  {hist : List (ConcurrenceSimulateServer load × Event load)} {a : Event load} {r : PairReaction}

theorem progress_update {pairs : Fin load.clientNum → Pair}
    {traffic : Fin load.clientNum → Traffic} (i : Fin load.clientNum) (p : Pair) (t : Traffic) :
    progress (Function.update pairs i p) (Function.update traffic i t) +
        ((traffic i).moved + (pairs i).parties) =
      progress pairs traffic + (t.moved + p.parties) := by
  have hupdate : (fun j => (Function.update traffic i t j, Function.update pairs i p j)) =
      Function.update (fun j => (traffic j, pairs j)) i (t, p) := by
    funext j
    by_cases hj : j = i
    · subst hj
      simp only [Function.update_self]
    · simp only [Function.update_of_ne hj]
  unfold progress
  rw [hupdate]
  exact Threads.total_update _ _ i (t, p)

/-- The pairs after what has happened, and a move for every byte. -/
structure Flowing (cap : ℕ) (s : ConcurrenceSimulateServer load)
    (hist : List (ConcurrenceSimulateServer load × Event load))
    (traffic : Fin load.clientNum → Traffic) : Prop where
  agrees : Agrees s (notesOf PairReaction.clientNotes hist) (notesOf PairReaction.serverNotes hist)
  flows : ∀ i, Flows load cap (s.pairs i) (notesOf PairReaction.clientNotes hist i)
    (notesOf PairReaction.serverNotes hist i) (traffic i)
  moves_le : movesIn (hist.map Prod.snd) ≤ progress s.pairs traffic

/-- When the last echo has been counted, every client has received its own. -/
theorem Agrees.all_of_echoCount {clientNotes serverNotes : Fin load.clientNum → List Note}
    (h : Agrees s clientNotes serverNotes)
    (hall : s.echoCount = (load.msgNum * load.clientNum : ℕ)) (i : Fin load.clientNum) :
    (echoesOf (clientNotes i)).length = load.msgNum := by
  by_contra hne
  have hlt := echoTotal_lt h.count_le (lt_of_le_of_ne (h.count_le i) hne)
  have hcount := h.echoCount_eq
  rw [hall, Nat.cast_inj] at hcount
  omega

theorem Flowing.step {traffic : Fin load.clientNum → Traffic} (h : Flowing cap s hist traffic)
    {u : ConcurrenceSimulateServer load} (hstep : roomStep cap s a = some u) :
    ∃ traffic', Flowing cap u (hist ++ [(s, a)]) traffic' := by
  obtain ⟨hcap, hstep⟩ := roomStep_eq_some.mp hstep
  obtain ⟨r, hreact, rfl⟩ := Option.map_eq_some_iff.mp hstep
  have hnext := h.agrees.step hreact
  have hadvances : Advances load cap (s.pairs a.1) (notesOf PairReaction.clientNotes hist a.1)
      (notesOf PairReaction.serverNotes hist a.1) (traffic a.1) a.2 r := by
    refine (h.flows a.1).step hcap (echoTotal_lt h.agrees.count_le) (fun hall => ?_)
      (h.agrees.echoCount_eq ▸ hreact)
    have hmine := hnext.all_of_echoCount hall a.1
    rwa [Function.update_self] at hmine
  obtain ⟨t, hflows, hmoved⟩ := hadvances
  refine ⟨Function.update traffic a.1 t, ?_, fun i => ?_, ?_⟩
  · rw [notesOf_concat hreact, notesOf_concat hreact]
    exact hnext
  · rw [notesOf_concat hreact, notesOf_concat hreact]
    by_cases hi : i = a.1
    · subst hi
      simp only [Function.update_self]
      exact hflows
    · simp only [Function.update_of_ne hi]
      exact h.flows i
  · have hprogress : progress (Function.update s.pairs a.1 r.pair) _ + _ = _ :=
      @progress_update _ s.pairs traffic a.1 r.pair t
    have hmoves := h.moves_le
    have hone : movesIn ((hist ++ [(s, a)]).map Prod.snd) =
        movesIn (hist.map Prod.snd) + a.2.moves.toNat := by
      rw [List.map_append, movesIn, movesIn, List.countP_append, List.map_singleton,
        List.countP_singleton]
      cases a.2.moves <;> rfl
    rw [hone]
    change _ ≤ progress (Function.update s.pairs a.1 r.pair) (Function.update traffic a.1 t)
    omega

theorem flowing_start (load : Load) (cap : ℕ) :
    Flowing cap (start load) [] fun _ => ⟨[], [], [], []⟩ where
  agrees := agrees_start load
  flows _ := ⟨⟨.absent, .absent, rfl, rfl⟩, Nat.zero_le _, Nat.zero_le _, nofun, nofun⟩
  moves_le := Nat.zero_le _

theorem flowing_of_run {as : List (Event load)}
    (hrun : run (roomStep cap) (start load) as = some s) :
    ∃ traffic, Flowing cap s (trace step (start load) as) traffic := by
  rw [trace_mono (fun _ _ _ h => (roomStep_eq_some.mp h).2) hrun]
  have hstep : ∀ (s : ConcurrenceSimulateServer load) hist a u,
      (∃ traffic, Flowing cap s hist traffic) → True →
        roomStep cap s a = some u → ∃ traffic, Flowing cap u (hist ++ [(s, a)]) traffic := by
    rintro s hist a u ⟨traffic, hs⟩ - hu
    exact hs.step hu
  exact run_trace_invariant hstep ⟨_, flowing_start load cap⟩ (fun _ _ => trivial) hrun

theorem movesIn_le {as : List (Event load)}
    (hrun : run (roomStep cap) (start load) as = some s) : movesIn as ≤ moveBound load cap := by
  obtain ⟨traffic, h⟩ := flowing_of_run hrun
  have hmoves := h.moves_le
  have hrun' := run_mono (fun _ _ _ h => (roomStep_eq_some.mp h).2) hrun
  rw [trace_map_snd hrun'] at hmoves
  refine hmoves.trans ?_
  have hsum := Finset.sum_le_card_nsmul Finset.univ
    (fun i => (traffic i).moved + (s.pairs i).parties) (pairBound load cap)
    fun i _ => (h.flows i).moved_le
  rwa [Finset.card_univ, Fintype.card_fin, nsmul_eq_mul, Nat.cast_id, Nat.mul_comm] at hsum

/-! ## The end of a simulation -/

/-- As long as bytes can be moved, there is a run that goes on, and it ends. -/
theorem exists_moves_to_rest {as : List (Event load)}
    (hrun : run (roomStep cap) (start load) as = some s) :
    ∃ bs u, (∀ b ∈ bs, b.2.moves = true) ∧ run (roomStep cap) s bs = some u ∧ AtRest cap u := by
  induction hn : moveBound load cap - movesIn as using Nat.strong_induction_on
    generalizing as s with
  | _ n ih =>
      subst hn
      by_cases hrest : AtRest cap s
      · exact ⟨[], s, by simp, rfl, hrest⟩
      · unfold AtRest at hrest
        push Not at hrest
        obtain ⟨a, hmoves, ha⟩ := hrest
        obtain ⟨t, ht⟩ := Option.ne_none_iff_exists'.mp ha
        have hrun' := run_concat_eq_some.mpr ⟨s, hrun, ht⟩
        have hle := movesIn_le hrun'
        have hmore : movesIn (as ++ [a]) = movesIn as + 1 := by
          rw [movesIn, movesIn, List.countP_append, List.countP_singleton, hmoves]
          rfl
        obtain ⟨bs, u, hbs, hu, hrest⟩ := ih _ (by omega) hrun' rfl
        refine ⟨a :: bs, u, ?_, run_cons_eq_some.mpr ⟨t, ht, hu⟩, hrest⟩
        exact List.forall_mem_cons.mpr ⟨hmoves, hbs⟩

theorem AtRest.pair (hrest : AtRest cap s) (i : Fin load.clientNum) :
    (s.pairs i).AtRest load cap s.echoCount := by
  intro e hmoves hcap
  have hnone := hrest (i, e) hmoves
  rw [roomStep, if_pos hcap, ConcurrenceSimulateServer.step, Option.map_eq_none_iff] at hnone
  exact hnone

/-- What a run has brought when no byte can be moved any more. -/
structure AllArrived (as : List (Event load)) (s : ConcurrenceSimulateServer load) : Prop where
  echoes : ∀ i, (echoesIn as i).length = load.msgNum
  echoCount_eq : s.echoCount = (load.msgNum * load.clientNum : ℕ)
  once : ∑ i, (clientNotesIn as i).count .allReceived = 1

theorem Agrees.allArrived {as : List (Event load)}
    (h : Agrees s (clientNotesIn as) (serverNotesIn as))
    (hall : ∀ i, (echoesIn as i).length = load.msgNum) : AllArrived as s := by
  have htotal : echoTotal (clientNotesIn as) = load.msgNum * load.clientNum := by
    have hsum := Finset.sum_const_nat (s := Finset.univ) fun i _ => hall i
    rwa [Finset.card_univ, Fintype.card_fin, Nat.mul_comm] at hsum
  refine ⟨hall, ?_, ?_⟩
  · rw [h.echoCount_eq, htotal]
  · have hentries := h.entries_eq
    rwa [htotal, if_pos rfl] at hentries

/-- However small the buffers of the sockets are and in whatever order the callbacks
run: only so many of them move a byte, there is always a way to the end, and the end is
reached only when every client has received all its echoes, `echoCount_` has counted
them and one client has found the last. -/
theorem all_echoes_arrive {cap : ℕ} (hcap : 1 ≤ cap) {as : List (Event load)}
    {s : ConcurrenceSimulateServer load}
    (hrun : run (roomStep cap) (start load) as = some s) :
    movesIn as ≤ moveBound load cap ∧
      (∃ bs u, (∀ b ∈ bs, b.2.moves = true) ∧ run (roomStep cap) s bs = some u ∧
        AtRest cap u) ∧
      (AtRest cap s → AllArrived as s) := by
  refine ⟨movesIn_le hrun, exists_moves_to_rest hrun, fun hrest => ?_⟩
  obtain ⟨traffic, h⟩ := flowing_of_run hrun
  exact h.agrees.allArrived fun i => (h.flows i).all_of_atRest hcap (hrest.pair i)

/-- One client that is to receive one echo. -/
def oneEcho : Load := ⟨1, 1, by decide, by decide, by decide⟩

def theClient : Fin oneEcho.clientNum := ⟨0, by decide⟩

def hello : List UInt8 := ClientConnection.message firstFd

def echoEvents : List (Event oneEcho) :=
  [(theClient, .connect firstFd), (theClient, .accept),
    (theClient, .client (.writable (.sent 27))),
    (theClient, .server (.readable (.data [23, 0, 0, 0]))),
    (theClient, .server (.readable (.data hello))), (theClient, .server (.writable (.sent 27))),
    (theClient, .client (.readable (.data [23, 0, 0, 0]))),
    (theClient, .client (.readable (.data hello)))]

/-- From the middle of a frame, with sockets that hold no more than it. -/
theorem all_echoes_arrive_oneEcho :
    ∃ bs u, run (roomStep 27) (start oneEcho) (echoEvents.take 4 ++ bs) = some u ∧
      AllArrived (echoEvents.take 4 ++ bs) u := by
  have hsome : (run (roomStep 27) (start oneEcho) (echoEvents.take 4)).isSome = true := by
    decide +kernel
  obtain ⟨s, hrun⟩ := Option.isSome_iff_exists.mp hsome
  obtain ⟨-, ⟨bs, u, -, hu, hrest⟩, -⟩ := all_echoes_arrive (by decide) hrun
  have hrun' : run (roomStep 27) (start oneEcho) (echoEvents.take 4 ++ bs) = some u := by
    rw [run_append, hrun]
    exact hu
  exact ⟨bs, u, hrun', (all_echoes_arrive (by decide) hrun').2.2 hrest⟩

end

end ConcurrenceSimulateServer

end Banana
