import Banana.Examples.ClientDecoding
import Banana.Library.Threads

/-!
# The simulated clients and the echo server

Every `ClientConnection` talks to a `ConcurrentConnection` of its own over a
pair of byte pipes, and `echoCount_` is shared by the clients.  An event
connects a client, accepts its connection, or lets the reactor of one side run
a callback on as many bytes as the socket gives or takes.

The bytes of a pipe link the two sides: the server has read a part of what the
client has sent, so its answers are a part of the same frames, and the client
has read a part of the answers.
-/

namespace Banana

open Segments Transition

namespace ConcurrentConnection

variable {c d : ConcurrentConnection} {received sent : List UInt8} {notes : List Note}
  {completed : List (ConnectionStat × List UInt8)} {bodies : List (List UInt8)}

theorem recvCompleteCallback_clean {segment : List UInt8}
    (hfits : ∀ body ∈ bodies, Fits 1020 body) (hsegment : SegmentOf bodies c.stat segment)
    (hread : c.stream.readPending = false) (hwrite : c.stream.writePending = false) :
    ∀ note ∈ (c.recvCompleteCallback .recved segment).2, note.Clean := by
  cases hstat : c.stat with
  | recvHead =>
      rw [hstat] at hsegment
      cases hsegment with
      | header body hbody =>
          obtain ⟨hpos, hle⟩ := hfits body hbody
          have hlong : ¬ (1024 : ℤ) < body.length := by omega
          rw [recvCompleteCallback_head hstat (NativeInt.length_bytesOfNat 4 _),
            decode_header (by omega), recvHeadDone, if_neg hlong, List.forall_mem_singleton]
          exact clean_recvNote hread (by omega) (by omega)
  | recvBody =>
      rw [hstat] at hsegment
      cases hsegment with
      | body body hbody =>
          rw [recvCompleteCallback_body hstat, recvBodyDone, List.forall_mem_singleton]
          exact clean_sendNote hwrite (hfits _ hbody)

theorem start_clean : ∀ note ∈ new.startReadOrWriteInService.2, note.Clean := by
  rw [startReadOrWriteInService, startRecvHead_eq, List.forall_mem_singleton]
  exact clean_recvNote rfl (by decide) (by decide)

theorem step_of_react {e : SocketEvent} (hreact : c.react e = some (d, notes)) :
    ConcurrentConnection.step c e = some d := by
  rw [ConcurrentConnection.step, hreact]
  rfl

theorem Follows.notes_clean {e : SocketEvent} (h : Follows c received completed sent)
    (hdelivers : e.Delivers) (hfits : ∀ body ∈ bodies, Fits 1020 body)
    (hpart : received ++ e.arrived <+: wire bodies) (hreact : c.react e = some (d, notes)) :
    ∀ note ∈ notes, note.Clean := by
  cases e with
  | readable r =>
      simp only [react, Option.ite_none_right_eq_some] at hreact
      obtain ⟨⟨-, hpending, hmay⟩, hreact⟩ := hreact
      obtain ⟨hawaits, hwrite, -⟩ := h.echoes.awaits_of_pending hpending
      have hevent := hawaits.readEvent hmay hdelivers 1020
      have hkept := (c.stream.sameSend_recvOnePack r).2.2.2
      generalize c.stream.recvOnePack r = out at hevent hkept hreact
      cases hevent with
      | continues st' _ _ _ =>
          obtain ⟨rfl, rfl⟩ := Prod.mk.inj (Option.some.inj hreact)
          simp
      | completes st' segment _ hread _ hscan =>
          have hsegment := segmentOf_complete hfits (by decide) hpart hscan
          rw [← hawaits.stat_eq] at hsegment
          have hnotes := congrArg Prod.snd (Option.some.inj hreact)
          rw [← show _ = notes from hnotes]
          exact @recvCompleteCallback_clean { c with stream := st' } bodies segment hfits hsegment
            hread (hkept.trans hwrite)
  | writable r =>
      simp only [react, Option.ite_none_right_eq_some] at hreact
      obtain ⟨⟨-, hpending, -⟩, hreact⟩ := hreact
      have hidle : c.stream.readPending = false := by
        cases hread : c.stream.readPending with
        | false => rfl
        | true => simp [(h.echoes.awaits_of_pending hread).2.1] at hpending
      have hkept := (c.stream.sameReceive_sendOnePack r).readPending
      generalize c.stream.sendOnePack r = out at hkept hreact
      obtain ⟨st', call⟩ := out
      cases call with
      | none =>
          obtain ⟨rfl, rfl⟩ := Prod.mk.inj (Option.some.inj hreact)
          simp
      | some retSendStat =>
          have hnotes := congrArg Prod.snd (Option.some.inj hreact)
          rw [← show _ = notes from hnotes, sendCompleteCallback, startRecvHead_eq]
          split_ifs
          · simp
          · rw [List.forall_mem_singleton]
            exact clean_recvNote (hkept.trans hidle) (by decide) (by decide)

end ConcurrentConnection

/-! ## A client and its server -/

/-- What a socket event does to the bytes on their way out and in.  The pipes
are reliable: a byte that is read has been written, and no call fails. -/
def carry (st : Stream) (outgoing incoming : List UInt8) :
    SocketEvent → Option (List UInt8 × List UInt8)
  | .readable (.data bytes) =>
      if bytes <+: incoming then some (outgoing, incoming.drop bytes.length) else none
  | .readable .again => some (outgoing, incoming)
  | .writable (.sent len) => some (outgoing ++ st.taken (.sent len), incoming)
  | .writable .again => some (outgoing, incoming)
  | _ => none

structure Pair where
  client : Option ClientConnection
  server : Option ConcurrentConnection
  toServer : List UInt8
  toClient : List UInt8

inductive PairEvent
  | connect (fd : Fd)
  | accept
  | client (e : SocketEvent)
  | server (e : SocketEvent)

structure PairReaction where
  pair : Pair
  echoCount : ℤ
  clientNotes : List Note
  serverNotes : List Note

namespace Pair

def connect (p : Pair) (echoCount : ℤ) (fd : Fd) : Option PairReaction :=
  match p.client with
  | some _ => none
  | none =>
      some ⟨{ p with client := some (ClientConnection.start fd).1 }, echoCount,
        (ClientConnection.start fd).2, []⟩

def accept (p : Pair) (echoCount : ℤ) : Option PairReaction :=
  match p.server with
  | some _ => none
  | none =>
      some ⟨{ p with server := some ConcurrentConnection.start }, echoCount, [],
        ConcurrentConnection.new.startReadOrWriteInService.2⟩

def clientEvent (p : Pair) (load : Load) (echoCount : ℤ) (e : SocketEvent) :
    Option PairReaction :=
  match p.client with
  | none => none
  | some c =>
      match carry c.stream p.toServer p.toClient e, c.step load echoCount e with
      | some (toServer, toClient), some out =>
          some ⟨{ p with client := some out.client, toServer := toServer, toClient := toClient },
            out.echoCount, out.notes, []⟩
      | _, _ => none

def serverEvent (p : Pair) (echoCount : ℤ) (e : SocketEvent) : Option PairReaction :=
  match p.server with
  | none => none
  | some c =>
      match carry c.stream p.toClient p.toServer e, c.react e with
      | some (toClient, toServer), some (d, notes) =>
          some ⟨{ p with server := some d, toServer := toServer, toClient := toClient },
            echoCount, [], notes⟩
      | _, _ => none

def step (p : Pair) (load : Load) (echoCount : ℤ) : PairEvent → Option PairReaction
  | .connect fd => p.connect echoCount fd
  | .accept => p.accept echoCount
  | .client e => p.clientEvent load echoCount e
  | .server e => p.serverEvent echoCount e

end Pair

theorem carry_spec {st : Stream} {e : SocketEvent}
    {outgoing incoming outgoing' incoming' : List UInt8}
    (h : carry st outgoing incoming e = some (outgoing', incoming')) :
    e.Delivers ∧ outgoing' = outgoing ++ st.sentBy e ∧ e.arrived ++ incoming' = incoming := by
  cases e with
  | readable r =>
      cases r with
      | data bytes =>
          simp only [carry, Option.ite_none_right_eq_some, Option.some.injEq, Prod.mk.injEq] at h
          obtain ⟨⟨rest, rfl⟩, rfl, rfl⟩ := h
          refine ⟨rfl, (List.append_nil _).symm, ?_⟩
          rw [SocketEvent.arrived, RecvResult.bytes, List.drop_left]
      | again =>
          obtain ⟨rfl, rfl⟩ := Prod.mk.inj (Option.some.inj h)
          exact ⟨rfl, (List.append_nil _).symm, rfl⟩
      | closed => simp [carry] at h
      | error => simp [carry] at h
  | writable r =>
      cases r with
      | sent len =>
          obtain ⟨rfl, rfl⟩ := Prod.mk.inj (Option.some.inj h)
          exact ⟨rfl, rfl, rfl⟩
      | again =>
          obtain ⟨rfl, rfl⟩ := Prod.mk.inj (Option.some.inj h)
          exact ⟨rfl, (List.append_nil _).symm, rfl⟩
      | zero => simp [carry] at h
      | error => simp [carry] at h

/-- The bytes that have gone through the sockets of a pair. -/
structure Traffic where
  clientReceived : List UInt8
  clientSent : List UInt8
  serverReceived : List UInt8
  serverSent : List UInt8

inductive ClientSide (load : Load) :
    Option ClientConnection → List UInt8 → List UInt8 → List Note → Prop
  | absent : ClientSide load none [] [] []
  | present (c : ClientConnection) (received sent : List UInt8) (notes : List Note)
      (h : c.Follows load received sent notes) : ClientSide load (some c) received sent notes

inductive ServerSide : Option ConcurrentConnection → List UInt8 → List UInt8 → List Note → Prop
  | absent : ServerSide none [] [] []
  | present (c : ConcurrentConnection) (received sent : List UInt8)
      (completed : List (ConnectionStat × List UInt8)) (notes : List Note)
      (h : c.Follows received completed sent) (hclean : ∀ note ∈ notes, note.Clean) :
      ServerSide (some c) received sent notes

structure Linked (load : Load) (p : Pair) (clientNotes serverNotes : List Note) (t : Traffic) :
    Prop where
  client : ClientSide load p.client t.clientReceived t.clientSent clientNotes
  server : ServerSide p.server t.serverReceived t.serverSent serverNotes
  toServer : t.serverReceived ++ p.toServer = t.clientSent
  toClient : t.clientReceived ++ p.toClient = t.serverSent

section

variable {load : Load} {received sent : List UInt8} {notes : List Note}

theorem ClientSide.fits {client : Option ClientConnection}
    (h : ClientSide load client received sent notes) : ∀ body ∈ sentOf notes, Fits 1020 body := by
  cases h with
  | absent => simp [sentOf]
  | present c _ _ _ h => exact h.fits

theorem ClientSide.sent_part {client : Option ClientConnection}
    (h : ClientSide load client received sent notes) : sent <+: wire (sentOf notes) := by
  cases h with
  | absent => exact List.nil_prefix
  | present c _ _ _ h => exact ⟨_, h.sendSide.sent_eq⟩

theorem ClientSide.clean {client : Option ClientConnection}
    (h : ClientSide load client received sent notes) : ∀ note ∈ notes, note.Clean := by
  cases h with
  | absent => simp
  | present c _ _ _ h => exact h.clean

theorem ClientSide.count_le {client : Option ClientConnection}
    (h : ClientSide load client received sent notes) :
    (echoesOf notes).length ≤ load.msgNum := by
  cases h with
  | absent => exact Nat.zero_le _
  | present c _ _ _ h =>
      rw [h.echoes_eq]
      exact h.reads.count_le

theorem ClientSide.echoes_eq {client : Option ClientConnection}
    (h : ClientSide load client received sent notes) :
    echoesOf notes = bodiesOf (completedOf (decoded 1024 received)) := by
  cases h with
  | absent => rfl
  | present c _ _ _ h => exact h.echoes_eq

theorem ServerSide.clean {server : Option ConcurrentConnection}
    (h : ServerSide server received sent notes) : ∀ note ∈ notes, note.Clean := by
  cases h with
  | absent => simp
  | present c _ _ _ _ _ hclean => exact hclean

/-- What the server has sent is a part of the frames it has received. -/
theorem ServerSide.sent_part {server : Option ConcurrentConnection}
    (h : ServerSide server received sent notes) {bodies : List (List UInt8)}
    (hfits : ∀ body ∈ bodies, Fits 1020 body) (hpart : received <+: wire bodies) :
    ∃ handled, handled <+: bodies ∧ sent <+: wire handled := by
  cases h with
  | absent => exact ⟨[], List.nil_prefix, List.nil_prefix⟩
  | present c _ _ completed _ h _ =>
      obtain ⟨hmode, hsegments⟩ := decoded_part hfits (by decide) hpart
      rw [← h.completed_eq] at hsegments
      have hhandled := bodiesOf_mono hsegments
      rw [bodiesOf_segmentsOf] at hhandled
      exact ⟨bodiesOf completed, hhandled, _, (h.handled_eq hmode).1⟩

variable {p : Pair} {clientNotes serverNotes : List Note} {t : Traffic}

theorem Linked.received_part (h : Linked load p clientNotes serverNotes t) :
    t.serverReceived <+: wire (sentOf clientNotes) := by
  have hsent := h.client.sent_part
  rw [← h.toServer] at hsent
  exact (List.prefix_append _ _).trans hsent

/-- The frames whose parts are on their way back. -/
theorem Linked.handled (h : Linked load p clientNotes serverNotes t) :
    ∃ handled, handled <+: sentOf clientNotes ∧ (∀ body ∈ handled, Fits 1020 body) ∧
      t.clientReceived ++ p.toClient <+: wire handled := by
  obtain ⟨handled, hhandled, hsent⟩ := h.server.sent_part h.client.fits h.received_part
  rw [← h.toClient] at hsent
  exact ⟨handled, hhandled, fun body hbody => h.client.fits body (hhandled.subset hbody), hsent⟩

theorem Linked.echoes (h : Linked load p clientNotes serverNotes t) :
    echoesOf clientNotes <+: sentOf clientNotes := by
  obtain ⟨handled, hhandled, hfits, hpart⟩ := h.handled
  have hreceived := (List.prefix_append _ _).trans hpart
  obtain ⟨-, hsegments⟩ := @decoded_part 1024 handled t.clientReceived
    (fun body hbody => ⟨(hfits body hbody).1, (hfits body hbody).2.trans (by decide)⟩)
    (by decide) hreceived
  have hbodies := bodiesOf_mono hsegments
  rw [bodiesOf_segmentsOf, ← h.client.echoes_eq] at hbodies
  exact hbodies.trans hhandled

/-! ## One event of a pair -/

theorem ClientSide.of_none (h : ClientSide load none received sent notes) :
    received = [] ∧ sent = [] ∧ notes = [] := by
  cases h with
  | absent => exact ⟨rfl, rfl, rfl⟩

theorem ClientSide.of_some {c : ClientConnection}
    (h : ClientSide load (some c) received sent notes) : c.Follows load received sent notes := by
  cases h with
  | present _ _ _ _ h => exact h

theorem ServerSide.of_none (h : ServerSide none received sent notes) :
    received = [] ∧ sent = [] ∧ notes = [] := by
  cases h with
  | absent => exact ⟨rfl, rfl, rfl⟩

theorem ServerSide.of_some {c : ConcurrentConnection}
    (h : ServerSide (some c) received sent notes) :
    (∃ completed, c.Follows received completed sent) ∧ ∀ note ∈ notes, note.Clean := by
  cases h with
  | present _ _ _ completed _ h hclean => exact ⟨⟨completed, h⟩, hclean⟩

/-- A pair after an event, and what the event does to `echoCount_`. -/
def Continues (load : Load) (echoCount : ℕ) (clientNotes serverNotes : List Note)
    (r : PairReaction) : Prop :=
  (∃ t, Linked load r.pair (clientNotes ++ r.clientNotes) (serverNotes ++ r.serverNotes) t) ∧
    ClientConnection.Counts load echoCount r.echoCount r.clientNotes

variable {echoCount : ℕ} {r : PairReaction}

theorem Linked.connect (h : Linked load p clientNotes serverNotes t) {fd : Fd}
    (hstep : p.connect echoCount fd = some r) :
    Continues load echoCount clientNotes serverNotes r := by
  rw [Pair.connect] at hstep
  cases hclient : p.client with
  | some c => simp [hclient] at hstep
  | none =>
      rw [hclient] at hstep
      obtain rfl := Option.some.inj hstep
      have hside := h.client
      rw [hclient] at hside
      obtain ⟨hreceived, hsent, hnotes⟩ := hside.of_none
      refine ⟨⟨t, ⟨?_, ?_, h.toServer, h.toClient⟩⟩,
        ClientConnection.counts_start load echoCount fd⟩
      · rw [hreceived, hsent, hnotes]
        exact .present _ _ _ _ (ClientConnection.follows_start load fd)
      · rw [List.append_nil]
        exact h.server

theorem Linked.accept (h : Linked load p clientNotes serverNotes t)
    (hstep : p.accept echoCount = some r) :
    Continues load echoCount clientNotes serverNotes r := by
  rw [Pair.accept] at hstep
  cases hserver : p.server with
  | some c => simp [hserver] at hstep
  | none =>
      rw [hserver] at hstep
      obtain rfl := Option.some.inj hstep
      have hside := h.server
      rw [hserver] at hside
      obtain ⟨hreceived, hsent, hnotes⟩ := hside.of_none
      refine ⟨⟨t, ⟨?_, ?_, h.toServer, h.toClient⟩⟩, .quiet _ rfl rfl⟩
      · rw [List.append_nil]
        exact h.client
      · rw [hreceived, hsent, hnotes]
        refine .present _ _ _ _ _ ConcurrentConnection.follows_start ?_
        rw [List.nil_append]
        exact ConcurrentConnection.start_clean

theorem Linked.clientEvent (h : Linked load p clientNotes serverNotes t) {e : SocketEvent}
    (hroom : (echoesOf clientNotes).length < load.msgNum →
      echoCount + 1 ≤ load.msgNum * load.clientNum)
    (hstep : p.clientEvent load echoCount e = some r) :
    Continues load echoCount clientNotes serverNotes r := by
  rw [Pair.clientEvent] at hstep
  cases hclient : p.client with
  | none => simp [hclient] at hstep
  | some c =>
      rw [hclient] at hstep
      dsimp only at hstep
      cases hcarry : carry c.stream p.toServer p.toClient e with
      | none => simp [hcarry] at hstep
      | some result =>
          obtain ⟨toServer, toClient⟩ := result
          cases hout : c.step load echoCount e with
          | none => simp [hcarry, hout] at hstep
          | some out =>
              rw [hcarry, hout] at hstep
              obtain rfl := Option.some.inj hstep
              obtain ⟨hdelivers, houtgoing, hincoming⟩ := carry_spec hcarry
              obtain ⟨handled, -, hfits, hpart⟩ := h.handled
              rw [← hincoming, ← List.append_assoc] at hpart
              have hside := h.client
              rw [hclient] at hside
              obtain ⟨hfollows, hcounts⟩ := hside.of_some.step hdelivers hfits
                ((List.prefix_append _ _).trans hpart) hroom hout
              refine ⟨⟨⟨t.clientReceived ++ e.arrived, t.clientSent ++ c.stream.sentBy e,
                t.serverReceived, t.serverSent⟩, ⟨.present _ _ _ _ hfollows, ?_, ?_, ?_⟩⟩,
                hcounts⟩
              · rw [List.append_nil]
                exact h.server
              · rw [houtgoing, ← List.append_assoc, h.toServer]
              · rw [List.append_assoc, hincoming, h.toClient]

theorem Linked.serverEvent (h : Linked load p clientNotes serverNotes t) {e : SocketEvent}
    (hstep : p.serverEvent echoCount e = some r) :
    Continues load echoCount clientNotes serverNotes r := by
  rw [Pair.serverEvent] at hstep
  cases hserver : p.server with
  | none => simp [hserver] at hstep
  | some c =>
      rw [hserver] at hstep
      dsimp only at hstep
      cases hcarry : carry c.stream p.toClient p.toServer e with
      | none => simp [hcarry] at hstep
      | some result =>
          obtain ⟨toClient, toServer⟩ := result
          cases hout : c.react e with
          | none => simp [hcarry, hout] at hstep
          | some out =>
              obtain ⟨d, notes⟩ := out
              rw [hcarry, hout] at hstep
              obtain rfl := Option.some.inj hstep
              obtain ⟨hdelivers, houtgoing, hincoming⟩ := carry_spec hcarry
              have hside := h.server
              rw [hserver] at hside
              obtain ⟨⟨completed, hfollows⟩, hclean⟩ := hside.of_some
              have hpart := h.client.sent_part
              rw [← h.toServer, ← hincoming, ← List.append_assoc] at hpart
              have hnotes := hfollows.notes_clean hdelivers h.client.fits
                ((List.prefix_append _ _).trans hpart) hout
              have hsent : c.sent e = c.stream.sentBy e := by
                cases e with
                | readable r => rfl
                | writable r => rfl
              have hnext := hfollows.step hdelivers (ConcurrentConnection.step_of_react hout)
              rw [hsent] at hnext
              refine ⟨⟨⟨t.clientReceived, t.clientSent, t.serverReceived ++ e.arrived,
                t.serverSent ++ c.stream.sentBy e⟩, ⟨?_, .present _ _ _ _ _ hnext ?_, ?_, ?_⟩⟩,
                .quiet _ rfl rfl⟩
              · rw [List.append_nil]
                exact h.client
              · rw [List.forall_mem_append]
                exact ⟨hclean, hnotes⟩
              · rw [List.append_assoc, hincoming, h.toServer]
              · rw [houtgoing, ← List.append_assoc, h.toClient]

theorem Linked.step (h : Linked load p clientNotes serverNotes t) {e : PairEvent}
    (hroom : (echoesOf clientNotes).length < load.msgNum →
      echoCount + 1 ≤ load.msgNum * load.clientNum)
    (hstep : p.step load echoCount e = some r) :
    Continues load echoCount clientNotes serverNotes r := by
  cases e with
  | connect fd => exact h.connect hstep
  | accept => exact h.accept hstep
  | client e => exact h.clientEvent hroom hstep
  | server e => exact h.serverEvent hstep

end

/-! ## All the pairs -/

/-- The clients of a `ConcurrenceSimulateServer` with their servers. -/
structure ConcurrenceSimulateServer (load : Load) where
  echoCount : ℤ
  pairs : Fin load.clientNum → Pair

namespace ConcurrenceSimulateServer

variable {load : Load}

def start (load : Load) : ConcurrenceSimulateServer load where
  echoCount := 0
  pairs _ := ⟨none, none, [], []⟩

abbrev Event (load : Load) := Fin load.clientNum × PairEvent

def react (s : ConcurrenceSimulateServer load) (a : Event load) : Option PairReaction :=
  (s.pairs a.1).step load s.echoCount a.2

def step (s : ConcurrenceSimulateServer load) (a : Event load) :
    Option (ConcurrenceSimulateServer load) :=
  (s.react a).map fun r =>
    { echoCount := r.echoCount, pairs := Function.update s.pairs a.1 r.pair }

/-- The notes of one side of each pair. -/
def notesOf (side : PairReaction → List Note)
    (hist : List (ConcurrenceSimulateServer load × Event load)) (i : Fin load.clientNum) :
    List Note :=
  hist.flatMap fun p => if p.2.1 = i then (p.1.react p.2).elim [] side else []

def clientNotesIn (as : List (Event load)) (i : Fin load.clientNum) : List Note :=
  notesOf PairReaction.clientNotes (trace step (start load) as) i

def serverNotesIn (as : List (Event load)) (i : Fin load.clientNum) : List Note :=
  notesOf PairReaction.serverNotes (trace step (start load) as) i

/-- The bodies that a client has given to its stream, and those it has received. -/
def sentIn (as : List (Event load)) (i : Fin load.clientNum) : List (List UInt8) :=
  sentOf (clientNotesIn as i)

def echoesIn (as : List (Event load)) (i : Fin load.clientNum) : List (List UInt8) :=
  echoesOf (clientNotesIn as i)

section

variable {s : ConcurrenceSimulateServer load}
  {hist : List (ConcurrenceSimulateServer load × Event load)} {a : Event load} {r : PairReaction}

theorem notesOf_concat (hreact : s.react a = some r) (side : PairReaction → List Note) :
    notesOf side (hist ++ [(s, a)]) =
      Function.update (notesOf side hist) a.1 (notesOf side hist a.1 ++ side r) := by
  funext i
  rw [notesOf, List.flatMap_append, List.flatMap_singleton]
  by_cases hi : a.1 = i
  · subst hi
    rw [if_pos rfl, hreact, Option.elim_some, Function.update_self]
    rfl
  · rw [if_neg hi, List.append_nil, Function.update_of_ne (Ne.symm hi)]
    rfl

/-- All the echoes received, and how often the last of them has been found. -/
def echoTotal (notes : Fin load.clientNum → List Note) : ℕ :=
  Threads.total (fun notes => (echoesOf notes).length) notes

def entries (notes : Fin load.clientNum → List Note) : ℕ :=
  Threads.total (fun notes => notes.count .allReceived) notes

structure Agrees (s : ConcurrenceSimulateServer load)
    (clientNotes serverNotes : Fin load.clientNum → List Note) : Prop where
  linked : ∀ i, ∃ t, Linked load (s.pairs i) (clientNotes i) (serverNotes i) t
  echoCount_eq : s.echoCount = (echoTotal clientNotes : ℤ)
  entries_eq : entries clientNotes =
    if echoTotal clientNotes = load.msgNum * load.clientNum then 1 else 0

variable {clientNotes serverNotes : Fin load.clientNum → List Note}

theorem echoTotal_lt (hle : ∀ i, (echoesOf (clientNotes i)).length ≤ load.msgNum)
    {i : Fin load.clientNum} (hlt : (echoesOf (clientNotes i)).length < load.msgNum) :
    echoTotal clientNotes < load.msgNum * load.clientNum := by
  have htotal := Threads.total_lt (g := fun notes => (echoesOf notes).length) hle hlt
  rwa [Fintype.card_fin] at htotal

theorem echoTotal_update (i : Fin load.clientNum) (notes : List Note) :
    echoTotal (Function.update clientNotes i (clientNotes i ++ notes)) =
      echoTotal clientNotes + (echoesOf notes).length := by
  have htotal := Threads.total_update (fun notes => (echoesOf notes).length) clientNotes i
    (clientNotes i ++ notes)
  rw [echoesOf_append, List.length_append] at htotal
  unfold echoTotal
  omega

theorem entries_update (i : Fin load.clientNum) (notes : List Note) :
    entries (Function.update clientNotes i (clientNotes i ++ notes)) =
      entries clientNotes + notes.count .allReceived := by
  have htotal := Threads.total_update (fun notes => notes.count Note.allReceived) clientNotes i
    (clientNotes i ++ notes)
  rw [List.count_append] at htotal
  unfold entries
  omega

theorem Agrees.count_le (h : Agrees s clientNotes serverNotes) (i : Fin load.clientNum) :
    (echoesOf (clientNotes i)).length ≤ load.msgNum := by
  obtain ⟨t, hlinked⟩ := h.linked i
  exact hlinked.client.count_le

theorem Agrees.step (h : Agrees s clientNotes serverNotes) (hreact : s.react a = some r) :
    Agrees { echoCount := r.echoCount, pairs := Function.update s.pairs a.1 r.pair }
      (Function.update clientNotes a.1 (clientNotes a.1 ++ r.clientNotes))
      (Function.update serverNotes a.1 (serverNotes a.1 ++ r.serverNotes)) := by
  obtain ⟨t, hlinked⟩ := h.linked a.1
  have hroom : (echoesOf (clientNotes a.1)).length < load.msgNum →
      echoTotal clientNotes + 1 ≤ load.msgNum * load.clientNum := echoTotal_lt h.count_le
  rw [react, h.echoCount_eq] at hreact
  obtain ⟨hnext, hcounts⟩ := hlinked.step hroom hreact
  refine ⟨fun i => ?_, ?_, ?_⟩
  · by_cases hi : i = a.1
    · subst hi
      simp only [Function.update_self]
      exact hnext
    · simp only [Function.update_of_ne hi]
      exact h.linked i
  · rw [echoTotal_update]
    generalize r.echoCount = echoCount, r.clientNotes = notes at hcounts
    cases hcounts with
    | quiet _ hechoes _ => rw [hechoes, List.length_nil, Nat.add_zero]
    | echo _ body _ hechoes _ => rw [hechoes, List.length_singleton]
    | last _ body _ hechoes _ => rw [hechoes, List.length_singleton]
  · rw [echoTotal_update, entries_update, h.entries_eq]
    generalize r.echoCount = echoCount, r.clientNotes = notes at hcounts
    cases hcounts with
    | quiet _ hechoes hall => rw [hechoes, hall, List.length_nil, Nat.add_zero, Nat.add_zero]
    | echo _ body hlt hechoes hall =>
        rw [hechoes, hall, List.length_singleton, if_neg (by omega), if_neg (by omega)]
    | last _ body heq hechoes hall =>
        rw [hechoes, hall, List.length_singleton, if_neg (by omega), if_pos heq]

theorem agrees_start (load : Load) :
    Agrees (start load) (fun _ => ([] : List Note)) fun _ => ([] : List Note) := by
  have htotal : echoTotal (fun _ : Fin load.clientNum => ([] : List Note)) = 0 := by
    simp [echoTotal, Threads.total, echoesOf]
  have hentries : entries (fun _ : Fin load.clientNum => ([] : List Note)) = 0 := by
    simp [entries, Threads.total]
  have hpos : 0 < load.msgNum * load.clientNum :=
    Nat.mul_pos load.msgNum_pos load.clientNum_pos
  refine ⟨fun i => ⟨⟨[], [], [], []⟩, .absent, .absent, rfl, rfl⟩, ?_, ?_⟩
  · rw [htotal]
    rfl
  · rw [htotal, hentries, if_neg (by omega)]

end

theorem agrees_of_run {as : List (Event load)} {s : ConcurrenceSimulateServer load}
    (hrun : run step (start load) as = some s) :
    Agrees s (clientNotesIn as) (serverNotesIn as) := by
  refine @run_trace_invariant (ConcurrenceSimulateServer load) (Event load) step
    (fun s hist => Agrees s (notesOf PairReaction.clientNotes hist)
      (notesOf PairReaction.serverNotes hist)) (fun _ => True) ?_ (start load) s as
    (agrees_start load) (fun _ _ => trivial) hrun
  intro s hist a t hs _ ht
  obtain ⟨r, hreact, rfl⟩ := Option.map_eq_some_iff.mp ht
  rw [notesOf_concat hreact, notesOf_concat hreact]
  exact hs.step hreact

/-- What is said of the simulated clients and their servers after any events. -/
structure EchoesAgree (as : List (Event load)) (s : ConcurrenceSimulateServer load) : Prop where
  echoes : ∀ i, echoesIn as i <+: sentIn as i
  clean : ∀ i, ∀ note ∈ clientNotesIn as i ++ serverNotesIn as i, note.Clean
  atMost : ∀ i, (echoesIn as i).length ≤ load.msgNum
  echoCount_eq : s.echoCount = ∑ i, ((echoesIn as i).length : ℤ)
  once : ∑ i, (clientNotesIn as i).count .allReceived ≤ 1
  complete : ∀ i, .allReceived ∈ clientNotesIn as i →
    ∀ j, (echoesIn as j).length = load.msgNum

/-- Any number of clients, any chunks, and any order of the events. -/
theorem echoesAgree_of_run {as : List (Event load)} {s : ConcurrenceSimulateServer load}
    (hrun : run step (start load) as = some s) : EchoesAgree as s := by
  have h := agrees_of_run hrun
  refine ⟨fun i => ?_, fun i => ?_, h.count_le, ?_, ?_, fun i hall j => ?_⟩
  · obtain ⟨t, hlinked⟩ := h.linked i
    exact hlinked.echoes
  · obtain ⟨t, hlinked⟩ := h.linked i
    rw [List.forall_mem_append]
    exact ⟨hlinked.client.clean, hlinked.server.clean⟩
  · rw [h.echoCount_eq, echoTotal, Threads.total, Nat.cast_sum]
    rfl
  · have hentries := h.entries_eq
    unfold entries Threads.total at hentries
    rw [hentries]
    split_ifs <;> omega
  · have hpos : 0 < (clientNotesIn as i).count .allReceived := List.count_pos_iff.mpr hall
    have hle := Threads.le_total (fun notes => notes.count Note.allReceived) (clientNotesIn as) i
    have hentries := h.entries_eq
    by_contra hne
    have hlt := echoTotal_lt h.count_le (lt_of_le_of_ne (h.count_le j) hne)
    rw [if_neg (by omega)] at hentries
    unfold entries at hentries
    omega

/-- Two clients that are to receive two echoes each. -/
def twoClients : Load := ⟨2, 2, by decide, by decide, by decide⟩

def firstClient : Fin twoClients.clientNum := ⟨0, by decide⟩

def secondClient : Fin twoClients.clientNum := ⟨1, by decide⟩

/-- A message goes to the server, and an echo comes back. -/
def messageGoes (i : Fin twoClients.clientNum) (body : List UInt8) : List (Event twoClients) :=
  [(i, .client (.writable (.sent (4 + body.length)))),
    (i, .server (.readable (.data (NativeInt.bytesOfNat 4 body.length)))),
    (i, .server (.readable (.data body)))]

def echoComes (i : Fin twoClients.clientNum) (body : List UInt8) : List (Event twoClients) :=
  [(i, .server (.writable (.sent (4 + body.length)))),
    (i, .client (.readable (.data (NativeInt.bytesOfNat 4 body.length)))),
    (i, .client (.readable (.data body)))]

def firstFd : Fd := ⟨5, by decide⟩

def secondFd : Fd := ⟨12, by decide⟩

def mixedEvents : List (Event twoClients) :=
  let first := ClientConnection.message firstFd
  let second := ClientConnection.message secondFd
  [(firstClient, .connect firstFd), (firstClient, .accept)] ++
    messageGoes firstClient first ++
    [(secondClient, .connect secondFd), (secondClient, .accept)] ++
    messageGoes secondClient second ++ echoComes secondClient second ++
    messageGoes secondClient second ++ echoComes firstClient first ++
    echoComes secondClient second ++ messageGoes firstClient first ++ echoComes firstClient first

theorem echoesAgree_of_run_mixedEvents :
    ∃ s, run step (start twoClients) mixedEvents = some s ∧ EchoesAgree mixedEvents s ∧
      s.echoCount = 4 ∧ .allReceived ∈ clientNotesIn mixedEvents firstClient ∧
      ∀ i, (echoesIn mixedEvents i).length = 2 := by
  have hcount : (run step (start twoClients) mixedEvents).map echoCount = some 4 := by
    decide +kernel
  have hall : .allReceived ∈ clientNotesIn mixedEvents firstClient := by decide +kernel
  obtain ⟨s, hrun, hcount⟩ := Option.map_eq_some_iff.mp hcount
  have hagree := echoesAgree_of_run hrun
  exact ⟨s, hrun, hagree, hcount, hall, hagree.complete firstClient hall⟩

end ConcurrenceSimulateServer

end Banana
