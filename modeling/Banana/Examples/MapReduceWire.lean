import Banana.Examples.MapReduceRefinement

/-!
# The replies of the server on the wire

A reply is what `onMessage` gives to `asyncSendBytes`.  As long as no reply comes
while an earlier one is being sent, what `send` has taken of a connection that is
still in the map and what its stream has still to send are the replies in order.
-/

namespace Banana.MapReduceServer

open MapReduceConnection

variable {κ τ : Type*}

def isAnswerFor [DecidableEq κ] (c : κ) : Message κ → Bool
  | .newConnect _ => false
  | .mapDone d _ => d = c

def nextMessage (s : State κ τ) : Message κ :=
  s.mailbox.recvMsgQueue.buff s.mailbox.recvMsgQueue.tail

/-- What has been sent and what is being sent are the replies. -/
structure Wired (s : State κ τ) (c : κ) : Prop where
  sending : (connectionOf s c).stream.Sending
  bytes : s.wire c ++ (connectionOf s c).stream.unsent = (s.replies c).flatten
  silent : s.replies c = [] → (connectionOf s c).stream.writePending = false

section Wired

variable {s t : State κ τ} {c d : κ} {conn : MapReduceConnection}

theorem Wired.keep (hs : Wired s c)
    (hsame : (connectionOf s c).stream.SameSend (connectionOf t c).stream)
    (hwire : t.wire c = s.wire c) (hreplies : t.replies c = s.replies c) : Wired t c := by
  refine ⟨hsame.sending hs.sending, ?_, ?_⟩
  · rw [hsame.unsent, hwire, hreplies]
    exact hs.bytes
  · rw [hreplies, hsame.2.2.2]
    exact hs.silent

variable [DecidableEq κ]

theorem sameSend_setConnection (hsame : d = c → (connectionOf s c).stream.SameSend conn.stream) :
    (connectionOf s c).stream.SameSend (connectionOf (setConnection s d conn) c).stream := by
  by_cases hdc : d = c
  · subst d
    rw [connectionOf_setConnection_self]
    exact hsame rfl
  · rw [connectionOf_setConnection_of_ne s conn hdc]
    exact Stream.SameSend.refl _

theorem Wired.setConnection (hs : Wired s c)
    (hsame : d = c → (connectionOf s c).stream.SameSend conn.stream) :
    Wired (MapReduceServer.setConnection s d conn) c :=
  hs.keep (sameSend_setConnection hsame) rfl rfl

theorem Wired.loopHead (hs : Wired s c) (paths : List (List UInt8))
    (hsame : d = c → (connectionOf s c).stream.SameSend conn.stream) :
    Wired (MapReduceServer.loopHead s d conn paths) c := by
  cases paths with
  | cons path rest => exact hs.keep (sameSend_setConnection hsame) rfl rfl
  | nil =>
      have hdone : d = c → (connectionOf s c).stream.SameSend conn.recvBodyDone.stream :=
        fun hdc => (hsame hdc).trans (Stream.sameSend_asyncRecvBytes _ _)
      exact hs.keep (sameSend_setConnection hdone) rfl rfl

theorem sameSend_recvHeadDone (conn : MapReduceConnection) (bodyLen : ℤ) :
    conn.stream.SameSend (conn.recvHeadDone bodyLen).stream := by
  unfold recvHeadDone
  by_cases hlong : 1024 < bodyLen
  · rw [if_pos hlong]
    exact Stream.sameSend_asyncRecvBytes _ _
  · rw [if_neg hlong]
    exact Stream.sameSend_asyncRecvBytes _ _

theorem sameSend_recvCompleteCallback (conn : MapReduceConnection) (retRecvStat : StreamStat)
    (vecBytes : List UInt8) :
    conn.stream.SameSend (conn.recvCompleteCallback retRecvStat vecBytes).1.stream := by
  unfold MapReduceConnection.recvCompleteCallback
  by_cases herr : retRecvStat = .recverr
  · rw [if_pos herr]
    exact Stream.SameSend.refl _
  · rw [if_neg herr]
    cases hstat : conn.stat with
    | recvBody =>
        simp only [foldl_countTask]
        exact Stream.sameSend_asyncRecvBytes _ _
    | recvHead =>
        by_cases hshort : vecBytes.length < 4
        · simp only [hshort, if_true]
          exact Stream.sameSend_asyncRecvBytes _ _
        · simp only [hshort, if_false]
          exact sameSend_recvHeadDone _ _

theorem Wired.recvCompleteCallback (hs : Wired s c) (retRecvStat : StreamStat)
    (vecBytes : List UInt8) (hsame : d = c → (connectionOf s c).stream.SameSend conn.stream) :
    Wired (MapReduceServer.recvCompleteCallback s d conn retRecvStat vecBytes) c := by
  unfold MapReduceServer.recvCompleteCallback
  split_ifs
  · have hrequest : Wired { s with
        requests := Function.update s.requests d (s.requests d ++ [vecBytes]) } c :=
      hs.keep (Stream.SameSend.refl _) rfl rfl
    exact hrequest.loopHead _ hsame
  · apply hs.setConnection
    exact fun hdc => (hsame hdc).trans (sameSend_recvCompleteCallback conn retRecvStat vecBytes)

theorem Wired.sendOnePack (hs : Wired s c) {r : SendResult} (hconn : s.connection d = some conn)
    (hpending : conn.stream.writePending = true) (hmay : conn.stream.maySend r = true)
    (hok : d = c → (conn.stream.sendOnePack r).2 ≠ some .senderr) {conn' : MapReduceConnection}
    (hstream : conn'.stream = (conn.stream.sendOnePack r).1) :
    Wired { MapReduceServer.setConnection s d conn' with
      wire := Function.update s.wire d (s.wire d ++ conn.stream.taken r) } c := by
  by_cases hdc : d = c
  · subst d
    have hold : connectionOf s c = conn := by simp [connectionOf, hconn]
    obtain ⟨hsending, hbytes, hsilent⟩ := hs
    rw [hold] at hsending hbytes hsilent
    obtain ⟨hunsent, hsending'⟩ := hsending.sendOnePack hpending hmay (hok rfl)
    have hnew : connectionOf (MapReduceServer.setConnection s c conn') c = conn' :=
      connectionOf_setConnection_self s c conn'
    refine ⟨?_, ?_, ?_⟩
    · change (connectionOf (MapReduceServer.setConnection s c conn') c).stream.Sending
      rw [hnew, hstream]
      exact hsending'
    · change Function.update s.wire c (s.wire c ++ conn.stream.taken r) c ++
        (connectionOf (MapReduceServer.setConnection s c conn') c).stream.unsent =
          (s.replies c).flatten
      rw [hnew, hstream, Function.update_self, List.append_assoc, ← hunsent]
      exact hbytes
    · intro hnone
      exact absurd hpending (by simp [hsilent hnone])
  · refine hs.keep ?_ (Function.update_of_ne (Ne.symm hdc) _ _) rfl
    exact sameSend_setConnection fun h => absurd h hdc

/-- A reply finds nothing being sent, and it is what the stream then sends. -/
theorem Wired.deliver (hs : Wired s c) (hconn : s.connection d = some conn) (maxNum : NativeInt)
    (hfree : d = c → conn.taskCount = 1 → conn.stream.writePending = false) :
    Wired (MapReduceServer.deliver s d conn maxNum) c := by
  by_cases hdc : d = c
  · subst d
    have hold : connectionOf s c = conn := by simp [connectionOf, hconn]
    have hnew : connectionOf (MapReduceServer.deliver s c conn maxNum) c =
        (conn.onMessage maxNum).1 := connectionOf_setConnection_self s c _
    have hreplies : (MapReduceServer.deliver s c conn maxNum).replies c =
        s.replies c ++ (conn.onMessage maxNum).2.toList := Function.update_self _ _ _
    have hwire : (MapReduceServer.deliver s c conn maxNum).wire c = s.wire c := rfl
    have hstream := conn.countAnswer_stream maxNum
    have hcount := (conn.countAnswer_spec maxNum).1
    obtain ⟨hsending, hbytes, hsilent⟩ := hs
    rw [hold] at hsending hbytes hsilent
    by_cases hzero : (conn.countAnswer maxNum).taskCount = 0
    · have hidle := hfree rfl (by omega)
      rw [Stream.unsent, hidle, if_neg (by simp), List.append_nil] at hbytes
      obtain ⟨hunsent, hsending'⟩ := Stream.asyncSendBytes_unsent conn.stream
        ((NativeInt.length_encode (conn.countAnswer maxNum).curMaxNum).le.trans (by decide))
      simp only [MapReduceConnection.onMessage, reply, hzero, if_true, hstream] at hnew hreplies
      refine ⟨by rwa [hnew], ?_, by simp [hreplies]⟩
      rw [hnew, hreplies, hwire, hbytes, hunsent, List.flatten_append, Option.toList_some,
        List.flatten_singleton]
    · simp only [MapReduceConnection.onMessage, hzero, if_false, Option.toList_none,
        List.append_nil] at hnew hreplies
      refine ⟨?_, ?_, ?_⟩
      · rwa [hnew, hstream]
      · rwa [hnew, hstream, hreplies, hwire]
      · rwa [hnew, hstream, hreplies]
  · exact hs.keep (sameSend_setConnection fun h => absurd h hdc) rfl
      (Function.update_of_ne (Ne.symm hdc) _ _)

variable [DecidableEq τ] {files : FileSystem} {a : Action κ τ}

theorem Wired.step (hs : Wired s c) (hopen : Open t c)
    (hfree : a = .get → isAnswerFor c (nextMessage s) = true → (connectionOf s c).taskCount = 1 →
      (connectionOf s c).stream.writePending = false)
    (h : MapReduceServer.step files s a = some t) : Wired t c := by
  cases moves_of_step h with
  | receives d r conn stream hconn hloop hpending hmay hout =>
      apply hs.setConnection
      rintro rfl
      have hsame := conn.stream.sameSend_recvOnePack r
      rw [hout] at hsame
      simpa [connectionOf, hconn] using hsame
  | received d r conn stream retRecvStat vecBytes hconn hloop hpending hmay hout =>
      apply hs.recvCompleteCallback
      rintro rfl
      have hsame := conn.stream.sameSend_recvOnePack r
      rw [hout] at hsame
      simpa [connectionOf, hconn] using hsame
  | sends d r conn stream hconn hloop hpending hmay hout =>
      apply hs.sendOnePack hconn hpending hmay
      · simp [hout]
      · simp [hout]
  | sent d r conn stream retSendStat hconn hloop hpending hmay hout =>
      apply hs.sendOnePack hconn hpending hmay
      · rintro rfl herr
        obtain rfl : retSendStat = .senderr := by simpa [hout] using herr
        have hmap := hopen _ (Function.update_self d _ s.connection)
        simp [sendCompleteCallback, destroy] at hmap
      · unfold sendCompleteCallback
        split_ifs <;> simp [hout, destroy]
  | count d rest conn hservice hconn =>
      apply hs.loopHead
      rintro rfl
      simp [connectionOf, hconn, countTask, Stream.SameSend]
  | get mailbox msg hmail hmsg =>
      have hget : Wired { s with mailbox := mailbox } c :=
        hs.keep (Stream.SameSend.refl _) rfl rfl
      have hnext : msg = nextMessage s := by
        cases InteractiveTask.moves_of_step hmail with
        | syncGet hat hsome => exact (InteractiveTask.ReceiverPc.inOnMessage.inj hmsg).symm
      have hhandles := handles_onMessage { s with mailbox := mailbox } msg
      generalize onMessage { s with mailbox := mailbox } msg = u at hhandles ⊢
      cases hhandles with
      | starts d hconn =>
          apply hget.setConnection
          rintro rfl
          have hold : connectionOf { s with mailbox := mailbox } d = .start := by
            rw [connectionOf, hconn, Option.getD_none]
          rw [hold]
          exact Stream.SameSend.refl _
      | delivers d conn maxNum hconn hmap =>
          apply hget.deliver hconn
          rintro rfl hone
          have hold : connectionOf s d = conn := by
            rw [connectionOf, hconn, Option.getD_some]
          rw [← hold]
          apply hfree rfl
          · simp [← hnext, isAnswerFor]
          · rw [hold, hone]
      | _ => exact hget
  | _ => exact hs.keep (Stream.SameSend.refl _) rfl rfl

omit [DecidableEq κ] [DecidableEq τ] in
theorem wired_start (mailboxSize taskQueueSize : ℕ) (messages : ℕ → Message κ) (tasks : ℕ → MapTask κ)
    (c : κ) : Wired (start mailboxSize taskQueueSize messages tasks : State κ τ) c := by
  have hsame : Stream.new.SameSend MapReduceConnection.start.stream := by
    rw [MapReduceConnection.start, startReadOrWriteInService_eq]
    exact Stream.sameSend_asyncRecvBytes _ _
  have hnew : Stream.new.Sending := by simp [Stream.Sending, Stream.new]
  have hunsent : MapReduceConnection.start.stream.unsent = [] := by
    rw [hsame.unsent]
    simp [Stream.unsent, Stream.new]
  refine ⟨hsame.sending hnew, ?_, fun _ => hsame.2.2.2⟩
  change [] ++ MapReduceConnection.start.stream.unsent = []
  rw [hunsent, List.nil_append]

end Wired

end Banana.MapReduceServer
