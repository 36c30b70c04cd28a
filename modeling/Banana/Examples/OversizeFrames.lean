import Banana.Examples.EchoFidelity
import Banana.Examples.MapReduceDecoding

/-!
# Frames that are too long

Both connections log that they discard a body above 1024 bytes, and ask for the
next header without reading the body.  So the first bytes of the body are taken
for a header, whatever they are: the decoders stay at the boundaries of frames
exactly on the streams that have no such frame.
-/

namespace Banana

open Segments Transition

/-- The decoder reads headers where frames begin only, and gets the bodies that
are not too long as if there were no others. -/
structure Resynchronises (bodies : List (List UInt8))
    (completed : List (ConnectionStat × List UInt8)) (received : List UInt8) : Prop where
  headers : ∀ before header after, completed = before ++ (.recvHead, header) :: after →
    ∃ done body, done ++ [body] <+: bodies ∧
      (before.flatMap Prod.snd).length = (wire done).length
  handled : bodiesOf completed <+: bodies.filter fun body => body.length ≤ 1024
  all : received = wire bodies →
    bodiesOf completed = bodies.filter fun body => body.length ≤ 1024

theorem resynchronises_of_fits {limit : ℕ} (hlimit : limit ≤ 1024) {bodies : List (List UInt8)}
    (hfits : ∀ body ∈ bodies, Fits limit body) {received : List UInt8}
    (hreceived : received <+: wire bodies) :
    Resynchronises bodies (completedOf (decoded limit received)) received := by
  obtain ⟨-, hsegments⟩ := decoded_part hfits hlimit hreceived
  have hfilter : bodies.filter (fun body => body.length ≤ 1024) = bodies := by
    rw [List.filter_eq_self]
    intro body hbody
    simpa using (hfits body hbody).2.trans hlimit
  refine ⟨fun before header after hsplit => ?_, ?_, fun hall => ?_⟩
  · rw [hsplit] at hsegments
    obtain ⟨done, body, hdone, hbytes⟩ := header_at_boundary hsegments
    exact ⟨done, body, hdone, congrArg List.length hbytes⟩
  · rw [hfilter]
    have hbodies := bodiesOf_mono hsegments
    rwa [bodiesOf_segmentsOf] at hbodies
  · rw [hfilter, hall, (decoded_wire hfits hlimit).2.2, bodiesOf_segmentsOf]

theorem flatMap_segmentsOf (bodies : List (List UInt8)) :
    (segmentsOf bodies).flatMap Prod.snd = wire bodies := by
  induction bodies with
  | nil => rfl
  | cons body bodies ih =>
      rw [← List.singleton_append, segmentsOf_append, List.flatMap_append, ih, wire_append]
      rfl

theorem length_wire_le {bodies bodies' : List (List UInt8)} (h : bodies <+: bodies') :
    (wire bodies).length ≤ (wire bodies').length := (wire_mono h).length_le

/-- A header that begins behind the header of a long frame is not where a frame
begins. -/
theorem not_boundary {before after done : List (List UInt8)} {body body' : List UInt8}
    (hpos : 1 ≤ body.length) (hdone : done ++ [body'] <+: before ++ body :: after) :
    (wire before).length + 4 ≠ (wire done).length := by
  have hwhole : before ++ [body] <+: before ++ body :: after := ⟨after, by simp⟩
  have hlength : (wire (before ++ [body])).length = (wire before).length + (4 + body.length) := by
    rw [wire_append, wire_singleton, List.length_append, length_frame]
  rcases List.prefix_or_prefix_of_prefix ((List.prefix_append done [body']).trans hdone) hwhole
    with hshort | hlong
  · rcases List.prefix_concat_iff.mp hshort with rfl | hbefore
    · omega
    · have hle := length_wire_le hbefore
      omega
  · have hle := length_wire_le hlong
    omega

theorem not_resynchronises {limit : ℕ} (hlimit : limit ≤ 1024)
    {before after : List (List UInt8)} {body : List UInt8}
    (hfits : ∀ body ∈ before, Fits limit body) (hgt : 1024 < body.length)
    (hlt : body.length < 2147483648) (received : List UInt8) :
    ¬ Resynchronises (before ++ body :: after) (completedOf (decoded limit
      (wire before ++ NativeInt.bytesOfNat 4 body.length ++ body.take 4))) received := by
  intro hresync
  have hfour : (body.take 4).length = 4 := by
    rw [List.length_take]
    omega
  rw [decoded_oversize hfits hlimit hgt hlt hfour] at hresync
  obtain ⟨done, body', hdone, hposition⟩ := hresync.headers
    (segmentsOf before ++ [(.recvHead, NativeInt.bytesOfNat 4 body.length)]) (body.take 4) []
    (by rw [List.append_assoc]; rfl)
  rw [List.flatMap_append, flatMap_segmentsOf, List.flatMap_singleton, List.length_append,
    NativeInt.length_bytesOfNat] at hposition
  exact not_boundary (by omega) hdone hposition

theorem wire_prefix_oversize (before after : List (List UInt8)) (body : List UInt8) :
    wire before ++ NativeInt.bytesOfNat 4 body.length ++ body.take 4 <+:
      wire (before ++ body :: after) := by
  have hwhole : wire (before ++ body :: after) =
      wire before ++ (NativeInt.bytesOfNat 4 body.length ++ body ++ wire after) := by
    rw [wire_append, ← List.singleton_append, wire_append, wire_singleton, frame]
  rw [hwhole, List.append_assoc, List.append_assoc]
  refine (List.prefix_append_right_inj _).mpr ((List.prefix_append_right_inj _).mpr ?_)
  have hfour : body.take 4 <+: body := List.take_prefix 4 body
  exact hfour.trans (List.prefix_append _ _)

/-- The first frame of a stream that is too long. -/
theorem exists_first_oversize {bodies : List (List UInt8)}
    (hlong : ¬ ∀ body ∈ bodies, body.length ≤ 1024) :
    ∃ before body after, bodies = before ++ body :: after ∧ 1024 < body.length ∧
      ∀ body ∈ before, body.length ≤ 1024 := by
  have hfound : bodies.find? (fun body => decide (1024 < body.length)) ≠ none := by
    simpa using hlong
  obtain ⟨body, hfound⟩ := Option.ne_none_iff_exists'.mp hfound
  obtain ⟨hgt, before, after, rfl, hbefore⟩ := List.find?_eq_some_iff_append.mp hfound
  exact ⟨before, body, after, rfl, by simpa using hgt, fun body hbody => by
    simpa using hbefore body hbody⟩

/-! ## The two connections -/

theorem MapReduceConnection.exists_oversize {before after : List (List UInt8)}
    {body : List UInt8} (hfits : ∀ body ∈ before, Fits 1024 body) (hgt : 1024 < body.length)
    (hlt : body.length < 2147483648) :
    ∃ es c, run MapReduceConnection.step MapReduceConnection.start es = some c ∧
      (∀ e ∈ es, e.Delivers) ∧
      MapReduceConnection.arrivedIn es <+: wire (before ++ body :: after) ∧
      ¬ Resynchronises (before ++ body :: after) (MapReduceConnection.completedIn es)
        (MapReduceConnection.arrivedIn es) := by
  obtain ⟨hmode, hpart, -⟩ := decoded_header hfits (Nat.le_refl 1024) body.length
  rw [afterHead_oversize hgt hlt] at hmode
  obtain ⟨es, c, hrun, hdelivers, harrived⟩ :=
    MapReduceConnection.exists_delivery (hmode.trans_ne DecoderMode.noConfusion)
  have hfour : (body.take 4).length = 4 := by
    rw [List.length_take]
    omega
  rw [← harrived] at hmode hpart
  have hfull : (decoded 1024 (MapReduceConnection.arrivedIn es)).part.length +
      (body.take 4).length ≤ (decoded 1024 (MapReduceConnection.arrivedIn es)).mode.need := by
    rw [hmode, hpart, hfour]
    decide
  obtain ⟨d, hrun', hdelivers', harrived'⟩ := MapReduceConnection.exists_receive hrun hdelivers
    (hmode.trans_ne DecoderMode.noConfusion) (by omega) hfull
  refine ⟨_, d, hrun', hdelivers', ?_, ?_⟩
  · rw [harrived', harrived]
    exact wire_prefix_oversize before after body
  · rw [(MapReduceConnection.follows_of_run hrun' hdelivers').completed_eq, harrived', harrived]
    exact not_resynchronises (Nat.le_refl 1024) hfits hgt hlt _

theorem ConcurrentConnection.exists_oversize {before after : List (List UInt8)}
    {body : List UInt8} (hfits : ∀ body ∈ before, Fits 1020 body) (hgt : 1024 < body.length)
    (hlt : body.length < 2147483648) :
    ∃ es c, run ConcurrentConnection.step ConcurrentConnection.start es = some c ∧
      (∀ e ∈ es, e.Delivers) ∧
      ConcurrentConnection.arrivedIn es <+: wire (before ++ body :: after) ∧
      ¬ Resynchronises (before ++ body :: after) (ConcurrentConnection.completedIn es)
        (ConcurrentConnection.arrivedIn es) := by
  obtain ⟨hmode, hpart, -⟩ := decoded_header hfits (by decide) body.length
  have hheader := afterHead_oversize hgt hlt
  rw [hheader] at hmode
  obtain ⟨es, c, hrun, hdelivers, harrived, hpending⟩ :=
    ConcurrentConnection.exists_header hfits (hheader.trans_ne DecoderMode.noConfusion)
  have hfour : (body.take 4).length = 4 := by
    rw [List.length_take]
    omega
  rw [← harrived] at hmode hpart
  have hfull : (decoded 1020 (ConcurrentConnection.arrivedIn es)).part.length +
      (body.take 4).length ≤ (decoded 1020 (ConcurrentConnection.arrivedIn es)).mode.need := by
    rw [hmode, hpart, hfour]
    decide
  obtain ⟨d, hrun', hdelivers', harrived'⟩ :=
    ConcurrentConnection.exists_receive hrun hdelivers hpending (by omega) hfull
  refine ⟨_, d, hrun', hdelivers', ?_, ?_⟩
  · rw [harrived', harrived]
    exact wire_prefix_oversize before after body
  · rw [(ConcurrentConnection.follows_of_run hrun' hdelivers').completed_eq, harrived', harrived]
    exact not_resynchronises (by decide) hfits hgt hlt _

/-- In every run on a stream of frames the decoders stay at the boundaries of
frames, exactly when no frame is too long. -/
theorem resynchronises_iff_le {bodies : List (List UInt8)}
    (hlen : ∀ body ∈ bodies, 1 ≤ body.length ∧ body.length < 2147483648) :
    ((∀ es c, run MapReduceConnection.step MapReduceConnection.start es = some c →
        (∀ e ∈ es, e.Delivers) → MapReduceConnection.arrivedIn es <+: wire bodies →
        Resynchronises bodies (MapReduceConnection.completedIn es)
          (MapReduceConnection.arrivedIn es)) ↔
      ∀ body ∈ bodies, body.length ≤ 1024) ∧
      ((∀ body ∈ bodies, body.length ≤ 1020 ∨ 1024 < body.length) →
        ((∀ es c, run ConcurrentConnection.step ConcurrentConnection.start es = some c →
            (∀ e ∈ es, e.Delivers) → ConcurrentConnection.arrivedIn es <+: wire bodies →
            Resynchronises bodies (ConcurrentConnection.completedIn es)
              (ConcurrentConnection.arrivedIn es)) ↔
          ∀ body ∈ bodies, body.length ≤ 1024)) := by
  refine ⟨⟨fun hall => ?_, fun hshort es c hrun hdelivers harrived => ?_⟩,
    fun hecho => ⟨fun hall => ?_, fun hshort es c hrun hdelivers harrived => ?_⟩⟩
  · by_contra hlong
    obtain ⟨before, body, after, rfl, hgt, hbefore⟩ := exists_first_oversize hlong
    have hfits : ∀ body ∈ before, Fits 1024 body := fun body hbody =>
      ⟨(hlen body (by simp [hbody])).1, hbefore body hbody⟩
    obtain ⟨es, c, hrun, hdelivers, harrived, hnot⟩ :=
      MapReduceConnection.exists_oversize hfits hgt (hlen body (by simp)).2
    exact hnot (hall es c hrun hdelivers harrived)
  · rw [(MapReduceConnection.follows_of_run hrun hdelivers).completed_eq]
    exact resynchronises_of_fits (Nat.le_refl 1024)
      (fun body hbody => ⟨(hlen body hbody).1, hshort body hbody⟩) harrived
  · by_contra hlong
    obtain ⟨before, body, after, rfl, hgt, hbefore⟩ := exists_first_oversize hlong
    have hfits : ∀ body ∈ before, Fits 1020 body := fun body hbody =>
      ⟨(hlen body (by simp [hbody])).1,
        (hecho body (by simp [hbody])).resolve_right (not_lt.mpr (hbefore body hbody))⟩
    obtain ⟨es, c, hrun, hdelivers, harrived, hnot⟩ :=
      ConcurrentConnection.exists_oversize hfits hgt (hlen body (by simp)).2
    exact hnot (hall es c hrun hdelivers harrived)
  · rw [(ConcurrentConnection.follows_of_run hrun hdelivers).completed_eq]
    exact @resynchronises_of_fits 1020 (by decide) bodies (fun body hbody =>
      ⟨(hlen body hbody).1, (hecho body hbody).resolve_right (not_lt.mpr (hshort body hbody))⟩)
      _ harrived

theorem resynchronises_iff_le_short :
    (∃ c, run MapReduceConnection.step MapReduceConnection.start
        MapReduceConnection.fourPieces = some c ∧
      Resynchronises [[97, 32, 98]]
        (MapReduceConnection.completedIn MapReduceConnection.fourPieces)
        (MapReduceConnection.arrivedIn MapReduceConnection.fourPieces)) ∧
      ∃ c, run ConcurrentConnection.step ConcurrentConnection.start
          ConcurrentConnection.hiEvents = some c ∧
        Resynchronises [[104, 105]]
          (ConcurrentConnection.completedIn ConcurrentConnection.hiEvents)
          (ConcurrentConnection.arrivedIn ConcurrentConnection.hiEvents) := by
  constructor
  · obtain ⟨c, hrun⟩ : ∃ c, run MapReduceConnection.step MapReduceConnection.start
        MapReduceConnection.fourPieces = some c := by
      rw [MapReduceConnection.start, MapReduceConnection.startReadOrWriteInService_eq,
        Stream.asyncRecvBytes_new]
      exact ⟨_, rfl⟩
    have hdelivers : ∀ e ∈ MapReduceConnection.fourPieces, e.Delivers := by
      simp [MapReduceConnection.fourPieces, MapReduceConnection.Event.Delivers, RecvResult.fails]
    have hexact := (@resynchronises_iff_le [[97, 32, 98]] (by simp)).1
    exact ⟨c, hrun, hexact.mpr (by simp) _ c hrun hdelivers (by decide)⟩
  · obtain ⟨c, hrun⟩ : ∃ c, run ConcurrentConnection.step ConcurrentConnection.start
        ConcurrentConnection.hiEvents = some c := by
      rw [ConcurrentConnection.start_eq, Stream.asyncRecvBytes_new]
      exact ⟨_, rfl⟩
    have hdelivers : ∀ e ∈ ConcurrentConnection.hiEvents, e.Delivers := by
      simp [ConcurrentConnection.hiEvents, SocketEvent.Delivers, RecvResult.fails,
        SendResult.fails]
    have hexact := (@resynchronises_iff_le [[104, 105]] (by simp)).2 (by simp)
    exact ⟨c, hrun, hexact.mpr (by simp) _ c hrun hdelivers (by decide)⟩

/-- A body of 1025 bytes that begins like the frame of "a". -/
def imitation : List UInt8 := [1, 0, 0, 0] ++ List.replicate 1021 97

def imitationEvents : List SocketEvent :=
  [.readable (.data [1, 4, 0, 0]), .readable (.data [1, 0, 0, 0]), .readable (.data [97])]

theorem imitation_handled :
    imitation.length = 1025 ∧
      (∃ c, run MapReduceConnection.step MapReduceConnection.start
          (imitationEvents.map .socket) = some c ∧
        MapReduceConnection.arrivedIn (imitationEvents.map .socket) <+: wire [imitation] ∧
        MapReduceConnection.postedIn (imitationEvents.map .socket) = [[97]] ∧
        ¬ Resynchronises [imitation]
          (MapReduceConnection.completedIn (imitationEvents.map .socket))
          (MapReduceConnection.arrivedIn (imitationEvents.map .socket))) ∧
      ∃ c, run ConcurrentConnection.step ConcurrentConnection.start imitationEvents = some c ∧
        ConcurrentConnection.arrivedIn imitationEvents <+: wire [imitation] ∧
        c.stream.unsent = [1, 0, 0, 0, 97] ∧
        ¬ Resynchronises [imitation] (ConcurrentConnection.completedIn imitationEvents)
          (ConcurrentConnection.arrivedIn imitationEvents) := by
  have hlength : imitation.length = 1025 := by
    rw [imitation, List.length_append, List.length_replicate]
    rfl
  have hprefix : [1, 4, 0, 0, 1, 0, 0, 0, 97] <+: wire [imitation] := by
    rw [wire_singleton, frame, hlength, imitation, List.replicate_succ]
    exact ⟨List.replicate 1020 97, rfl⟩
  have hfilter : [imitation].filter (fun body => body.length ≤ 1024) = [] := by
    rw [List.filter_singleton, hlength]
    rfl
  have hnot : ∀ received, ¬ Resynchronises [imitation]
      [(.recvHead, [1, 4, 0, 0]), (.recvHead, [1, 0, 0, 0]), (.recvBody, [97])] received := by
    intro received hresync
    have hhandled := hresync.handled
    rw [hfilter, List.prefix_nil] at hhandled
    exact absurd hhandled (by decide)
  refine ⟨hlength, ?_, ?_⟩
  · rw [MapReduceConnection.postedIn, MapReduceConnection.completedIn, MapReduceConnection.start,
      MapReduceConnection.startReadOrWriteInService_eq, Stream.asyncRecvBytes_new]
    exact ⟨_, rfl, hprefix, rfl, hnot _⟩
  · rw [ConcurrentConnection.completedIn, ConcurrentConnection.start_eq,
      Stream.asyncRecvBytes_new]
    exact ⟨_, rfl, hprefix, rfl, hnot _⟩

end Banana
