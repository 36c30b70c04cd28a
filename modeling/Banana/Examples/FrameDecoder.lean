import Banana.Examples.ConcurrentConnection
import Banana.Library.Segments
import Banana.Network.ExactReceive

/-!
# Frames and their decoder

A frame is a body behind its length.  The example servers read a stream in
segments, a header of four bytes and then a body, and a header decides what the
next segment is: `decoder` is that format.  A header above 1024 is followed by
another header, a header that is not positive by nothing, and so is a body
longer than `limit`: 1020 for the server whose answer is the whole frame, and
1024 for the one that only takes the body apart.
-/

namespace Banana

open Segments

/-- What a connection waits for; a connection that is stuck waits for nothing. -/
inductive DecoderMode
  | head
  | body (num : ℕ)
  | stuck
  deriving DecidableEq

namespace DecoderMode

def need : DecoderMode → ℕ
  | head => 4
  | body num => num
  | stuck => 0

def stat : DecoderMode → ConnectionStat
  | head => .recvHead
  | body _ => .recvBody
  | stuck => .recvBody

def afterHead (bodyLen : ℤ) : DecoderMode :=
  if 1024 < bodyLen then head else if bodyLen ≤ 0 then stuck else body bodyLen.toNat

def afterBody (limit len : ℕ) : DecoderMode := if len ≤ limit then head else stuck

end DecoderMode

def decoder (limit : ℕ) : Format UInt8 DecoderMode where
  need := DecoderMode.need
  next
    | .head, bytes => .afterHead (NativeInt.decode bytes).val
    | .body _, bytes => .afterBody limit bytes.length
    | .stuck, _ => .stuck

theorem next_head (limit : ℕ) (bytes : List UInt8) :
    (decoder limit).next .head bytes = .afterHead (NativeInt.decode bytes).val := by
  simp only [decoder]

theorem next_body (limit num : ℕ) (bytes : List UInt8) :
    (decoder limit).next (.body num) bytes = .afterBody limit bytes.length := by
  simp only [decoder]

abbrev FrameReader := Reader UInt8 DecoderMode

/-- The concatenation of frames. -/
def wire (bodies : List (List UInt8)) : List UInt8 := bodies.flatMap frame

/-- The receives that a decoder completes on a concatenation of frames. -/
def segmentsOf (bodies : List (List UInt8)) : List (ConnectionStat × List UInt8) :=
  bodies.flatMap fun body =>
    [(.recvHead, NativeInt.bytesOfNat 4 body.length), (.recvBody, body)]

/-- The bodies among the completed receives. -/
def bodiesOf (completed : List (ConnectionStat × List UInt8)) : List (List UInt8) :=
  completed.filterMap fun p => if p.1 = .recvBody then some p.2 else none

def Fits (limit : ℕ) (body : List UInt8) : Prop := 1 ≤ body.length ∧ body.length ≤ limit

/-- What the log of a decoder says in terms of `stat_`. -/
def completedOf (R : FrameReader) : List (ConnectionStat × List UInt8) :=
  R.log.map fun p => (p.1.stat, p.2)

/-! ## Lists of frames -/

@[simp] theorem wire_nil : wire [] = [] := rfl

@[simp] theorem wire_append (bodies bodies' : List (List UInt8)) :
    wire (bodies ++ bodies') = wire bodies ++ wire bodies' := List.flatMap_append

theorem wire_singleton (body : List UInt8) : wire [body] = frame body := by
  rw [wire, List.flatMap_singleton]

theorem length_frame (body : List UInt8) : (frame body).length = 4 + body.length := by
  rw [frame, List.length_append, NativeInt.length_bytesOfNat]

theorem wire_mono {bodies bodies' : List (List UInt8)} (h : bodies <+: bodies') :
    wire bodies <+: wire bodies' := by
  obtain ⟨rest, rfl⟩ := h
  rw [wire_append]
  exact List.prefix_append _ _

theorem segmentsOf_append (bodies bodies' : List (List UInt8)) :
    segmentsOf (bodies ++ bodies') = segmentsOf bodies ++ segmentsOf bodies' :=
  List.flatMap_append

@[simp] theorem bodiesOf_nil : bodiesOf [] = [] := rfl

@[simp] theorem bodiesOf_append (completed completed' : List (ConnectionStat × List UInt8)) :
    bodiesOf (completed ++ completed') = bodiesOf completed ++ bodiesOf completed' :=
  List.filterMap_append

@[simp] theorem bodiesOf_segmentsOf (bodies : List (List UInt8)) :
    bodiesOf (segmentsOf bodies) = bodies := by
  induction bodies with
  | nil => rfl
  | cons body bodies ih =>
      rw [← List.singleton_append, segmentsOf_append, bodiesOf_append, ih]
      rfl

theorem bodiesOf_mono {completed completed' : List (ConnectionStat × List UInt8)}
    (h : completed <+: completed') : bodiesOf completed <+: bodiesOf completed' := by
  obtain ⟨rest, rfl⟩ := h
  rw [bodiesOf_append]
  exact List.prefix_append _ _

/-- The headers of a decoder that completes only the segments of the frames begin
where frames begin. -/
theorem header_at_boundary {bodies : List (List UInt8)}
    {before after : List (ConnectionStat × List UInt8)} {header : List UInt8}
    (h : before ++ (.recvHead, header) :: after <+: segmentsOf bodies) :
    ∃ done body, done ++ [body] <+: bodies ∧ before.flatMap Prod.snd = wire done := by
  induction bodies generalizing before with
  | nil => simp [segmentsOf] at h
  | cons body bodies ih =>
      have hcons : segmentsOf (body :: bodies) =
          (.recvHead, NativeInt.bytesOfNat 4 body.length) :: (.recvBody, body) ::
            segmentsOf bodies := rfl
      rw [hcons] at h
      cases before with
      | nil => exact ⟨[], body, by simp, rfl⟩
      | cons p before =>
          rw [List.cons_append, List.cons_prefix_cons] at h
          obtain ⟨rfl, h⟩ := h
          cases before with
          | nil => simp at h
          | cons q before =>
              rw [List.cons_append, List.cons_prefix_cons] at h
              obtain ⟨rfl, h⟩ := h
              obtain ⟨done, body', hdone, hbytes⟩ := ih h
              refine ⟨body :: done, body', List.cons_prefix_cons.mpr ⟨rfl, hdone⟩, ?_⟩
              rw [List.flatMap_cons, List.flatMap_cons, hbytes, ← List.append_assoc]
              rfl

/-! ## The decoder on a concatenation of frames -/

variable {limit : ℕ}

theorem decode_header {n : ℕ} (hlt : n < 2147483648) :
    (NativeInt.decode (NativeInt.bytesOfNat 4 n)).val = n := by
  have htake : (NativeInt.bytesOfNat 4 n).take 4 = NativeInt.bytesOfNat 4 n :=
    List.take_of_length_le (NativeInt.length_bytesOfNat 4 n).le
  rw [NativeInt.decode, htake, NativeInt.natOfBytes_bytesOfNat, Nat.mod_eq_of_lt (by omega),
    NativeInt.ofNat_val]
  apply Int.bmod_eq_of_le
  · omega
  · omega

theorem afterHead_header {n : ℕ} (hpos : 1 ≤ n) (hle : n ≤ 1024) :
    DecoderMode.afterHead (NativeInt.decode (NativeInt.bytesOfNat 4 n)).val = .body n := by
  rw [decode_header (by omega), DecoderMode.afterHead, if_neg (by omega), if_neg (by omega),
    Int.toNat_natCast]

theorem afterHead_oversize {n : ℕ} (hgt : 1024 < n) (hlt : n < 2147483648) :
    DecoderMode.afterHead (NativeInt.decode (NativeInt.bytesOfNat 4 n)).val = .head := by
  rw [decode_header hlt, DecoderMode.afterHead, if_pos (by omega)]

theorem completedOf_complete (R : FrameReader) (segment : List UInt8) :
    completedOf (complete (decoder limit) R segment) =
      completedOf R ++ [(R.mode.stat, segment)] := by
  rw [completedOf, complete, List.map_append]
  rfl

theorem scan_header {R : FrameReader} (hmode : R.mode = .head) (hpart : R.part = [])
    {header : List UInt8} (hlen : header.length = 4) (bs : List UInt8) :
    scan (decoder limit) R (header ++ bs) =
      scan (decoder limit) (complete (decoder limit) R header) bs := by
  have hneed : header.length = (decoder limit).need R.mode := by
    rw [hlen, hmode]
    rfl
  exact scan_segment hpart (by intro hnil; simp [hnil] at hlen) hneed bs

theorem scan_frame {R : FrameReader} (hmode : R.mode = .head) (hpart : R.part = [])
    {body : List UInt8} (hfits : Fits limit body) (hlimit : limit ≤ 1024) (bs : List UInt8) :
    ∃ R' : FrameReader, scan (decoder limit) R (frame body ++ bs) = scan (decoder limit) R' bs ∧
      R'.mode = .head ∧ R'.part = [] ∧ completedOf R' = completedOf R ++ segmentsOf [body] := by
  obtain ⟨hpos, hle⟩ := hfits
  have hnext : (complete (decoder limit) R (NativeInt.bytesOfNat 4 body.length)).mode =
      .body body.length := by
    simp only [complete]
    rw [hmode, next_head, afterHead_header hpos (hle.trans hlimit)]
  refine ⟨complete (decoder limit) (complete (decoder limit) R
    (NativeInt.bytesOfNat 4 body.length)) body, ?_, ?_, rfl, ?_⟩
  · rw [frame, List.append_assoc, scan_header hmode hpart (NativeInt.length_bytesOfNat 4 _),
      scan_segment rfl]
    · intro hnil
      simp [hnil] at hpos
    · rw [hnext]
      rfl
  · simp only [complete] at hnext ⊢
    rw [hnext, next_body, DecoderMode.afterBody, if_pos hle]
  · rw [completedOf_complete, completedOf_complete, hnext, hmode, List.append_assoc]
    rfl

theorem scan_wire {R : FrameReader} (hmode : R.mode = .head) (hpart : R.part = [])
    {bodies : List (List UInt8)} (hfits : ∀ body ∈ bodies, Fits limit body)
    (hlimit : limit ≤ 1024) :
    (scan (decoder limit) R (wire bodies)).mode = .head ∧
      (scan (decoder limit) R (wire bodies)).part = [] ∧
      completedOf (scan (decoder limit) R (wire bodies)) = completedOf R ++ segmentsOf bodies := by
  induction bodies generalizing R with
  | nil =>
      rw [wire_nil, scan_nil]
      exact ⟨hmode, hpart, (List.append_nil _).symm⟩
  | cons body bodies ih =>
      rw [List.forall_mem_cons] at hfits
      obtain ⟨R', hscan, hmode', hpart', hcompleted⟩ :=
        scan_frame hmode hpart hfits.1 hlimit (wire bodies)
      obtain ⟨hmode'', hpart'', hrest⟩ := ih hmode' hpart' hfits.2
      rw [← List.singleton_append, wire_append, wire_singleton, hscan]
      refine ⟨hmode'', hpart'', ?_⟩
      rw [hrest, hcompleted, segmentsOf_append, List.append_assoc]

/-- The decoder that has read `received` since the connection began. -/
def decoded (limit : ℕ) (received : List UInt8) : FrameReader :=
  scan (decoder limit) (Reader.start .head) received

theorem decoded_append (received bytes : List UInt8) :
    decoded limit (received ++ bytes) = scan (decoder limit) (decoded limit received) bytes :=
  scan_append _ _ _ _

theorem completedOf_mono {received received' : List UInt8} (h : received <+: received') :
    completedOf (decoded limit received) <+: completedOf (decoded limit received') :=
  (log_mono _ h).map _

theorem decoded_wire {bodies : List (List UInt8)} (hfits : ∀ body ∈ bodies, Fits limit body)
    (hlimit : limit ≤ 1024) :
    (decoded limit (wire bodies)).mode = .head ∧ (decoded limit (wire bodies)).part = [] ∧
      completedOf (decoded limit (wire bodies)) = segmentsOf bodies :=
  scan_wire rfl rfl hfits hlimit

/-- After the header of another frame. -/
theorem decoded_header {bodies : List (List UInt8)} (hfits : ∀ body ∈ bodies, Fits limit body)
    (hlimit : limit ≤ 1024) (n : ℕ) :
    (decoded limit (wire bodies ++ NativeInt.bytesOfNat 4 n)).mode =
        .afterHead (NativeInt.decode (NativeInt.bytesOfNat 4 n)).val ∧
      (decoded limit (wire bodies ++ NativeInt.bytesOfNat 4 n)).part = [] ∧
      completedOf (decoded limit (wire bodies ++ NativeInt.bytesOfNat 4 n)) =
        segmentsOf bodies ++ [(.recvHead, NativeInt.bytesOfNat 4 n)] := by
  obtain ⟨hmode, hpart, hcompleted⟩ := decoded_wire hfits hlimit
  have hscan := @scan_header limit _ hmode hpart _ (NativeInt.length_bytesOfNat 4 n) []
  rw [List.append_nil, scan_nil, ← decoded_append] at hscan
  rw [hscan, completedOf_complete, hmode, hcompleted]
  refine ⟨?_, rfl, rfl⟩
  simp only [complete]
  rw [hmode, next_head]

/-- After the header of a frame that is too long, the next four bytes are a header. -/
theorem decoded_oversize {bodies : List (List UInt8)} (hfits : ∀ body ∈ bodies, Fits limit body)
    (hlimit : limit ≤ 1024) {n : ℕ} (hgt : 1024 < n) (hlt : n < 2147483648) {four : List UInt8}
    (hfour : four.length = 4) :
    completedOf (decoded limit (wire bodies ++ NativeInt.bytesOfNat 4 n ++ four)) =
      segmentsOf bodies ++ [(.recvHead, NativeInt.bytesOfNat 4 n), (.recvHead, four)] := by
  obtain ⟨hmode, hpart, hcompleted⟩ := decoded_header hfits hlimit n
  rw [afterHead_oversize hgt hlt] at hmode
  have hscan := @scan_header limit _ hmode hpart _ hfour []
  rw [List.append_nil, scan_nil, ← decoded_append] at hscan
  rw [hscan, completedOf_complete, hmode, hcompleted, List.append_assoc]
  rfl

/-- The body after its header. -/
theorem scan_body {R : FrameReader} {body : List UInt8} (hmode : R.mode = .body body.length)
    (hpart : R.part = []) (hpos : 1 ≤ body.length) :
    (scan (decoder limit) R body).mode = .afterBody limit body.length ∧
      completedOf (scan (decoder limit) R body) = completedOf R ++ [(.recvBody, body)] := by
  have hneed : body.length = (decoder limit).need R.mode := by
    rw [hmode]
    rfl
  have hscan := scan_segment hpart (List.ne_nil_of_length_pos hpos) hneed []
  rw [List.append_nil, scan_nil] at hscan
  rw [hscan, completedOf_complete, hmode]
  refine ⟨?_, rfl⟩
  simp only [complete]
  rw [hmode, next_body]

theorem not_stuck_of_longer {received received' : List UInt8} (h : received <+: received')
    (hmode : (decoded limit received').mode ≠ .stuck) : (decoded limit received).mode ≠ .stuck := by
  intro hstuck
  obtain ⟨bytes, rfl⟩ := h
  have hneed : (decoder limit).need (decoded limit received).mode = 0 := by
    rw [hstuck]
    rfl
  rw [decoded_append, scan_of_not_hungry hneed] at hmode
  exact hmode hstuck

/-- A part of a concatenation of frames that fit. -/
theorem decoded_part {bodies : List (List UInt8)} {received : List UInt8}
    (hfits : ∀ body ∈ bodies, Fits limit body) (hlimit : limit ≤ 1024)
    (hreceived : received <+: wire bodies) :
    (decoded limit received).mode ≠ .stuck ∧
      completedOf (decoded limit received) <+: segmentsOf bodies := by
  obtain ⟨hmode, -, hcompleted⟩ := decoded_wire hfits hlimit
  refine ⟨not_stuck_of_longer hreceived ?_, ?_⟩
  · rw [hmode]
    exact DecoderMode.noConfusion
  · rw [← hcompleted]
    exact completedOf_mono hreceived

/-! ## A connection that reads segments -/

/-- A receive for the rest of the decoder's segment is on its way. -/
inductive Awaits (stat : ConnectionStat) (st : Stream) (R : FrameReader) : Prop
  | mk (buf : List UInt8) (hstat : stat = R.mode.stat) (hlen : buf.length = R.mode.need)
      (hle : R.mode.need ≤ 1024) (h : st.Collects buf R.part)

/-- What a read event that does not fail does: it completes the segment or not. -/
inductive ReadEvent (limit : ℕ) (stat : ConnectionStat) (st : Stream) (R : FrameReader)
    (r : RecvResult) : Stream × Option (StreamStat × List UInt8) → Prop
  | continues (st' : Stream) (hnone : st.received r = none)
      (h : Awaits stat st' (scan (decoder limit) R r.bytes))
      (hlog : completedOf (scan (decoder limit) R r.bytes) = completedOf R) :
      ReadEvent limit stat st R r (st', none)
  | completes (st' : Stream) (segment : List UInt8) (hsome : st.received r = some segment)
      (hread : st'.readPending = false) (hlen : segment.length = R.mode.need)
      (hscan : scan (decoder limit) R r.bytes = complete (decoder limit) R segment) :
      ReadEvent limit stat st R r (st', some (.recved, segment))

variable {stat : ConnectionStat} {st : Stream} {R : FrameReader}

theorem Awaits.pending (h : Awaits stat st R) : st.readPending = true := by
  obtain ⟨_, -, -, -, h⟩ := h
  exact h.pending

theorem Awaits.stat_eq (h : Awaits stat st R) : stat = R.mode.stat := by
  obtain ⟨_, hstat, -, -, -⟩ := h
  exact hstat

theorem Awaits.need_le (h : Awaits stat st R) : R.mode.need ≤ 1024 := by
  obtain ⟨_, -, -, hle, -⟩ := h
  exact hle

theorem Awaits.short (h : Awaits stat st R) : R.part.length < R.mode.need := by
  obtain ⟨buf, -, hlen, -, h⟩ := h
  exact hlen ▸ h.short

theorem Awaits.not_stuck (h : Awaits stat st R) : R.mode ≠ .stuck := by
  intro hmode
  have hshort := h.short
  simp [hmode, DecoderMode.need] at hshort

/-- The socket may give any number of bytes up to the end of the segment. -/
theorem Awaits.mayRecv (h : Awaits stat st R) {bytes : List UInt8} (hpos : 0 < bytes.length)
    (hle : R.part.length + bytes.length ≤ R.mode.need) : st.mayRecv (.data bytes) = true := by
  obtain ⟨buf, -, hlen, -, h⟩ := h
  have htotal := h.total
  have hneed : bytes.length ≤ st.needRecvLen := by omega
  simp [Stream.mayRecv, hpos, hneed]

theorem Awaits.of_sameReceive {st' : Stream} (h : Awaits stat st R)
    (hread : st'.readPending = st.readPending) (hlen : st'.recvLen = st.recvLen)
    (hneed : st'.needRecvLen = st.needRecvLen) (hbuf : st'.recvBuf = st.recvBuf) :
    Awaits stat st' R := by
  obtain ⟨buf, hstat, hbuflen, hle, h⟩ := h
  exact ⟨buf, hstat, hbuflen, hle, h.of_sameReceive hread hlen hneed hbuf⟩

theorem awaits_asyncRecvBytes (st : Stream) {mode : DecoderMode} {num : ℤ}
    (log : List (DecoderMode × List UInt8)) (hnum : num = mode.need) (hpos : 1 ≤ num)
    (hle : num ≤ 1024) :
    (st.asyncRecvBytes num).1 = true ∧
      Awaits mode.stat (st.asyncRecvBytes num).2 ⟨mode, [], log⟩ := by
  obtain ⟨hok, h⟩ := st.collects_asyncRecvBytes hpos hle
  refine ⟨hok, ⟨_, rfl, ?_, by simp only; omega, h⟩⟩
  rw [Stream.length_resize, hnum, Int.toNat_natCast]

theorem awaits_recvHead (st : Stream) (log : List (DecoderMode × List UInt8)) :
    Awaits .recvHead (st.asyncRecvBytes 4).2 ⟨.head, [], log⟩ :=
  (@awaits_asyncRecvBytes st .head 4 log rfl (by decide) (by decide)).2

theorem awaits_recvBody (st : Stream) {bodyLen : ℤ} (log : List (DecoderMode × List UInt8))
    (hpos : ¬ bodyLen ≤ 0) (hlong : ¬ 1024 < bodyLen) :
    Awaits .recvBody (st.asyncRecvBytes bodyLen).2 ⟨.body bodyLen.toNat, [], log⟩ := by
  have hnum : bodyLen = ((DecoderMode.body bodyLen.toNat).need : ℤ) :=
    (Int.toNat_of_nonneg (by omega)).symm
  exact (awaits_asyncRecvBytes st log hnum (by omega) (by omega)).2

theorem Awaits.readEvent (h : Awaits stat st R) {r : RecvResult} (hmay : st.mayRecv r = true)
    (hfails : r.fails = false) (limit : ℕ) :
    ReadEvent limit stat st R r (st.recvOnePack r) := by
  obtain ⟨buf, hstat, hbuf, hle, h⟩ := h
  have htook := h.took hmay
  generalize st.recvOnePack r = out at htook
  cases htook with
  | again st' h' => exact .continues _ rfl ⟨buf, hstat, hbuf, hle, h'⟩ rfl
  | more st' bytes h' =>
      have hshort := h'.short
      rw [List.length_append] at hshort
      have hlt : R.part.length + bytes.length < (decoder limit).need R.mode :=
        lt_of_lt_of_eq hshort hbuf
      have hscan := scan_of_lt hlt
      refine .continues _ (h.received_of_lt hshort) ?_ ?_
      · rw [RecvResult.bytes, hscan]
        exact ⟨buf, hstat, hbuf, hle, h'⟩
      · rw [RecvResult.bytes, hscan]
        rfl
  | full st' bytes hlen hread hrecv =>
      have hpos : 0 < bytes.length := by
        have hboth : 0 < bytes.length ∧ bytes.length ≤ st.needRecvLen := by
          simpa [Stream.mayRecv] using hmay
        exact hboth.1
      have heq : R.part.length + bytes.length = (decoder limit).need R.mode := by
        rw [← List.length_append]
        exact hlen.trans hbuf
      exact .completes _ _ (h.received_of_eq hlen) hread (hlen.trans hbuf)
        (scan_of_eq (List.ne_nil_of_length_pos hpos) heq)
  | closed _ _ _ => simp [RecvResult.fails] at hfails
  | error _ _ _ => simp [RecvResult.fails] at hfails

end Banana
