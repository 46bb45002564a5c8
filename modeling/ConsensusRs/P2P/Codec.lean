import ConsensusRs.P2P.Protocol
import ConsensusRs.Framework.Run
import ConsensusRs.Framework.Except

/-!
# The frame codec

`p2p::codec::MsgPacketCodec`: a frame is a raw message's JSON behind its
length as a big-endian `u32` (`MSG_SIZE` bytes). `decode` takes the first
frame off a buffer when it is all there; a session's `FramedRead` calls it
after each read until it returns `None` (`drain`), and `feed` runs that over
the chunks the socket delivers.

* `decode_cases`: what `decode` does with every buffer. The length is added
  to `MSG_SIZE` in `u32`, so a prefix of `0xFFFFFFFC` or more panics (a
  wrapped sum in a release build lets `split_to` run past the buffer
  instead);
* `feed_roundtrip`: the frames of messages shorter than that, however the
  stream is cut, decode to the messages, and leave the buffer empty.

`MAX_MSG_SIZE` is declared and never checked, so the model has no bound.
-/

namespace ConsensusRs

open Framework

variable (W : Wire)

/-- `MSG_SIZE`: the bytes of the length prefix. -/
def msgSize : Nat := 4

/-- `BigEndian::read_u32` of a buffer's first four bytes (`decode` reads it
only from a buffer that has them). -/
def readU32 : List UInt8 → Nat
  | a :: b :: c :: d :: _ => ((a.toNat * 256 + b.toNat) * 256 + c.toNat) * 256 + d.toNat
  | _ => 0

/-- `BigEndian::write_u32`. -/
def writeU32 (n : Nat) : List UInt8 :=
  [(n / 2 ^ 24 % 256).toUInt8, (n / 2 ^ 16 % 256).toUInt8, (n / 2 ^ 8 % 256).toUInt8, (n % 256).toUInt8]

/-- `u32::MAX`. -/
def u32Max : Nat := 2 ^ 32 - 1

/-- `a + b` on `u32` at `site`. -/
def u32Add (site : Site) (a b : Nat) : Except Abort Nat :=
  if a + b ≤ u32Max then .ok (a + b) else .error (.overflow site)

/-- `BytesMut::split_to`: the first `n` bytes and the rest; past the end,
its assertion fails. -/
def splitTo (site : Site) (src : List UInt8) (n : Nat) : Except Abort (List UInt8 × List UInt8) :=
  if n ≤ src.length then .ok (src.take n, src.drop n) else .error (.assertion site)

/-- `RawMessage::from_bytes`: `serde_json::from_slice(..).unwrap()`. -/
def RawMessage.fromBytes (bytes : List UInt8) : Except Abort RawMessage :=
  match W.rawFromBytes bytes with
  | some msg => .ok msg
  | none => .error .decode

/-- `MsgPacketCodec::decode`: the frame at the front of the buffer, taken
off it, if it is all there. -/
def decode (src : List UInt8) : Except Abort (Option RawMessage × List UInt8) := do
  if src.length < msgSize then return (none, src)
  let size := readU32 src
  let frameLen ← u32Add .decode size msgSize
  if src.length ≥ frameLen then
    let (_, src) ← splitTo .decode src msgSize
    let (buf, src) ← splitTo .decode src size
    let rawMessage ← RawMessage.fromBytes W buf
    return (some rawMessage, src)
  else return (none, src)

/-- `MsgPacketCodec::encode`: the message's JSON behind its length, appended
to `dst` (the length is cast `as u32`, and `reserve` adds `MSG_SIZE` to it
in `u32`). -/
def encode (msg : RawMessage) (dst : List UInt8) : Except Abort (List UInt8) := do
  let msg := W.rawToBytes msg
  let size := msg.length % 2 ^ 32
  let _ ← u32Add .encode size msgSize
  pure (dst ++ writeU32 size ++ msg)

/-- The stream a `FramedWrite` sends for the messages: each encoded after
the ones before. -/
def encodeAll (msgs : List RawMessage) : Except Abort (List UInt8) :=
  msgs.foldlM (fun dst msg => encode W msg dst) []

/-- `decode` called until it returns `None`, on `fuel` calls. -/
def decodeAll : Nat → List UInt8 → Except Abort (List RawMessage × List UInt8)
  | 0, buf => .ok ([], buf)
  | fuel + 1, buf => do
    match ← decode W buf with
    | (some msg, buf) =>
      let (msgs, buf) ← decodeAll fuel buf
      pure (msg :: msgs, buf)
    | (none, buf) => pure ([], buf)

/-- What a `FramedRead` does with its buffer after a read: every frame the
buffer holds (a frame takes four bytes or more, so one call more than the
bytes is enough). -/
def drain (buf : List UInt8) : Except Abort (List RawMessage × List UInt8) :=
  decodeAll W (buf.length + 1) buf

/-- One read: the chunk appended to the buffer, then the buffer drained;
the state is the messages decoded so far and the buffer. -/
def feedStep (s : List RawMessage × List UInt8) (chunk : List UInt8) :
    Except Abort (List RawMessage × List UInt8) := do
  let (msgs, buf) ← drain W (s.2 ++ chunk)
  pure (s.1 ++ msgs, buf)

/-- The reads of a session, chunk after chunk, from an empty buffer. -/
def feed (chunks : List (List UInt8)) : Except Abort (List RawMessage × List UInt8) :=
  runFrom (feedStep W) ([], []) chunks

/-! ## The length prefix -/

@[simp] theorem length_writeU32 (n : Nat) : (writeU32 n).length = 4 := rfl

theorem readU32_writeU32 {n : Nat} (h : n < 2 ^ 32) (rest : List UInt8) : readU32 (writeU32 n ++ rest) = n := by
  simp only [writeU32, List.cons_append, List.nil_append, readU32, Nat.toUInt8_eq, UInt8.toNat_ofNat']
  omega

/-- The prefix is read from the first four bytes only. -/
theorem readU32_append {bs : List UInt8} (h : 4 ≤ bs.length) (rest : List UInt8) : readU32 (bs ++ rest) = readU32 bs := by
  match bs, h with
  | _ :: _ :: _ :: _ :: _, _ => rfl

theorem u32Add_eq_ok {site : Site} {a b : Nat} (h : a + b ≤ u32Max) : u32Add site a b = .ok (a + b) :=
  if_pos h

theorem u32Add_eq_error {site : Site} {a b : Nat} (h : u32Max < a + b) :
    u32Add site a b = .error (.overflow site) :=
  if_neg (Nat.not_le.mpr h)

/-- Below `2³² - 4`, the length prefix plus `MSG_SIZE` fits a `u32`. -/
theorem u32Add_four_of_lt {site : Site} {size : Nat} (h : size < 2 ^ 32 - 4) :
    u32Add site size 4 = .ok (size + 4) :=
  u32Add_eq_ok (by unfold u32Max; omega)

/-- From `2³² - 4` on, the length prefix plus `MSG_SIZE` overflows. -/
theorem u32Add_four_of_le {site : Site} {size : Nat} (h : 2 ^ 32 - 4 ≤ size) :
    u32Add site size 4 = .error (.overflow site) :=
  u32Add_eq_error (by unfold u32Max; omega)

theorem splitTo_eq_ok {site : Site} {src : List UInt8} {n : Nat} (h : n ≤ src.length) :
    splitTo site src n = .ok (src.take n, src.drop n) := by
  simp [splitTo, h]

/-! ## `decode` on every buffer -/

section Decode

variable {src : List UInt8}

theorem decode_of_short (h : src.length < 4) : decode W src = .ok (none, src) := by
  simp [decode, msgSize, h, pure, Except.pure]

theorem decode_of_overflow (h : 4 ≤ src.length) (hbig : 2 ^ 32 - 4 ≤ readU32 src) :
    decode W src = .error (.overflow .decode) := by
  simp only [decode, msgSize, Nat.not_lt.mpr h, if_false, u32Add_four_of_le hbig, error_bind]

theorem decode_of_partial (h : 4 ≤ src.length) (hsize : readU32 src < 2 ^ 32 - 4)
    (hshort : src.length < 4 + readU32 src) : decode W src = .ok (none, src) := by
  have hlt : ¬ readU32 src + 4 ≤ src.length := by omega
  simp only [decode, msgSize, Nat.not_lt.mpr h, if_false, u32Add_four_of_lt hsize, ok_bind, ge_iff_le, hlt]
  rfl

theorem decode_of_whole (h : 4 ≤ src.length) (hsize : readU32 src < 2 ^ 32 - 4)
    (hlong : 4 + readU32 src ≤ src.length) :
    decode W src = (RawMessage.fromBytes W ((src.drop 4).take (readU32 src))).map
      fun msg => (some msg, src.drop (4 + readU32 src)) := by
  have hfit : readU32 src + 4 ≤ src.length := by omega
  have hdrop : readU32 src ≤ (src.drop 4).length := by
    rw [List.length_drop]
    omega
  simp only [decode, msgSize, Nat.not_lt.mpr h, if_false, u32Add_four_of_lt hsize, ok_bind, ge_iff_le, hfit, if_true,
    splitTo_eq_ok h, splitTo_eq_ok hdrop, List.drop_drop]
  cases RawMessage.fromBytes W ((src.drop 4).take (readU32 src)) <;> rfl

end Decode

/-- `decode` on every buffer: fewer than four bytes wait for more; a length
of `2³² - 4` or more overflows the `u32` sum and panics; a frame not all
there waits for more, with the buffer as it is; and a whole frame is taken
off, exactly its `4 + size` bytes, and its JSON decoded. -/
theorem decode_cases (src : List UInt8) :
    (src.length < 4 → decode W src = .ok (none, src)) ∧
      (4 ≤ src.length → 2 ^ 32 - 4 ≤ readU32 src → decode W src = .error (.overflow .decode)) ∧
      (4 ≤ src.length → readU32 src < 2 ^ 32 - 4 → src.length < 4 + readU32 src →
        decode W src = .ok (none, src)) ∧
      (4 ≤ src.length → readU32 src < 2 ^ 32 - 4 → 4 + readU32 src ≤ src.length →
        decode W src = (RawMessage.fromBytes W ((src.drop 4).take (readU32 src))).map
          fun msg => (some msg, src.drop (4 + readU32 src))) :=
  ⟨decode_of_short W, decode_of_overflow W, decode_of_partial W, decode_of_whole W⟩

/-- A length prefix of `0xFFFFFFFC`, whatever follows, panics in the sum. -/
theorem decode_overflow_toy : decode Wire.toy [255, 255, 255, 252] = .error (.overflow .decode) := by
  decide

/-! ## Frames -/

/-- A message's frame: its JSON behind its length. -/
def frame (m : RawMessage) : List UInt8 :=
  writeU32 (W.rawToBytes m).length ++ W.rawToBytes m

/-- The frames of messages, one after the other. -/
def frames (ms : List RawMessage) : List UInt8 :=
  ms.flatMap (frame W)

/-- A message the codec carries: its JSON is short enough that the length
and `MSG_SIZE` add up in `u32`, and it decodes back to the message. -/
def Framable (m : RawMessage) : Prop :=
  (W.rawToBytes m).length ≤ 2 ^ 32 - 5 ∧ W.rawFromBytes (W.rawToBytes m) = some m

@[simp] theorem frames_nil : frames W [] = [] := rfl

@[simp] theorem frames_cons (m : RawMessage) (ms : List RawMessage) :
    frames W (m :: ms) = frame W m ++ frames W ms := rfl

@[simp] theorem frames_append (ms ns : List RawMessage) : frames W (ms ++ ns) = frames W ms ++ frames W ns := by
  simp [frames]

theorem length_frame (m : RawMessage) : (frame W m).length = 4 + (W.rawToBytes m).length := by
  simp [frame]

/-- Every frame has a byte at least, so a buffer holds no more frames than
bytes. -/
theorem length_le_length_frames (ms : List RawMessage) : ms.length ≤ (frames W ms).length := by
  induction ms with
  | nil => simp
  | cons m ms ih =>
    rw [frames_cons, List.length_append, length_frame, List.length_cons]
    omega

theorem encode_of_framable {m : RawMessage} (hm : Framable W m) (dst : List UInt8) :
    encode W m dst = .ok (dst ++ frame W m) := by
  have hm1 := hm.1
  have hmod : (W.rawToBytes m).length % 2 ^ 32 = (W.rawToBytes m).length := Nat.mod_eq_of_lt (by omega)
  have hfits : (W.rawToBytes m).length < 2 ^ 32 - 4 := by omega
  simp only [encode, msgSize, hmod, u32Add_four_of_lt hfits, ok_bind, frame, List.append_assoc]
  rfl

theorem encodeAll_of_framable {ms : List RawMessage} (hms : ∀ m ∈ ms, Framable W m) :
    encodeAll W ms = .ok (frames W ms) := by
  suffices h : ∀ dst, ms.foldlM (fun dst msg => encode W msg dst) dst = .ok (dst ++ frames W ms) from h []
  induction ms with
  | nil => intro dst; simp [pure, Except.pure]
  | cons m ms ih =>
    intro dst
    have hm := hms m List.mem_cons_self
    rw [List.foldlM_cons, encode_of_framable W hm, ok_bind, ih (fun m' h' => hms m' (List.mem_cons_of_mem _ h'))]
    simp

theorem readU32_frame {m : RawMessage} (hm : Framable W m) (rest : List UInt8) :
    readU32 (frame W m ++ rest) = (W.rawToBytes m).length := by
  have hm1 := hm.1
  rw [frame, List.append_assoc]
  exact readU32_writeU32 (by omega) _

/-- A whole frame at the front of the buffer is taken off and decoded. -/
theorem decode_frame {m : RawMessage} (hm : Framable W m) (rest : List UInt8) :
    decode W (frame W m ++ rest) = .ok (some m, rest) := by
  have hm1 := hm.1
  have hlen := length_frame W m
  have hread := readU32_frame W hm rest
  have hbody : ((frame W m ++ rest).drop 4).take (W.rawToBytes m).length = W.rawToBytes m := by
    rw [frame, List.append_assoc, List.drop_left' (length_writeU32 _), List.take_left' rfl]
  have hrest : (frame W m ++ rest).drop (4 + (W.rawToBytes m).length) = rest := List.drop_left' hlen
  rw [decode_of_whole W (by simp; omega) (by rw [hread]; omega) (by simp; omega), hread, hbody, hrest]
  simp [RawMessage.fromBytes, hm.2, Except.map]

/-! ## Draining the buffer -/

/-- What a drained buffer holds of a stream of frames: a part of the next
frame, short of all of it, or nothing when no frame is left. -/
def Pending (r : List UInt8) : List RawMessage → Prop
  | [] => r = []
  | m :: _ => r <+: frame W m ∧ r.length < (frame W m).length

/-- An empty buffer is pending before any frame. -/
theorem pending_nil (rest : List RawMessage) : Pending W [] rest := by
  cases rest with
  | nil => rfl
  | cons m rest => exact ⟨List.nil_prefix, by rw [length_frame, List.length_nil]; omega⟩

/-- A part of a frame waits for more. -/
theorem decode_of_pending {r : List UInt8} {rest : List RawMessage} (hrest : ∀ m ∈ rest, Framable W m)
    (hr : Pending W r rest) : decode W r = .ok (none, r) := by
  cases rest with
  | nil =>
    rw [show r = [] from hr]
    exact decode_of_short W (by simp)
  | cons m rest =>
    have hm := hrest m List.mem_cons_self
    obtain ⟨⟨u, hu⟩, hshort⟩ := hr
    by_cases h4 : r.length < 4
    · exact decode_of_short W h4
    · have hread : readU32 r = (W.rawToBytes m).length := by
        rw [← readU32_append (by omega) u, hu, ← List.append_nil (frame W m), readU32_frame W hm]
      have hm1 := hm.1
      rw [length_frame] at hshort
      exact decode_of_partial W (by omega) (by omega) (by omega)

/-- `decode` called on the whole frames at the front of a buffer and then a
pending part returns their messages and leaves the part, given a call for
each frame and one more. -/
theorem decodeAll_frames {done rest : List RawMessage} {r : List UInt8} (hdone : ∀ m ∈ done, Framable W m)
    (hrest : ∀ m ∈ rest, Framable W m) (hr : Pending W r rest) :
    ∀ fuel, done.length < fuel → decodeAll W fuel (frames W done ++ r) = .ok (done, r) := by
  induction done with
  | nil =>
    intro fuel hfuel
    cases fuel with
    | zero => exact absurd hfuel (Nat.not_lt_zero _)
    | succ fuel =>
    simp only [decodeAll, frames_nil, List.nil_append, decode_of_pending W hrest hr, ok_bind]
    rfl
  | cons m done ih =>
    intro fuel hfuel
    cases fuel with
    | zero => exact absurd hfuel (Nat.not_lt_zero _)
    | succ fuel =>
    have hm := hdone m List.mem_cons_self
    have ih' := ih (fun m' h' => hdone m' (List.mem_cons_of_mem _ h')) fuel (by simp at hfuel; omega)
    simp only [decodeAll, frames_cons, List.append_assoc, decode_frame W hm, ok_bind, ih']
    rfl

theorem drain_frames {done rest : List RawMessage} {r : List UInt8} (hdone : ∀ m ∈ done, Framable W m)
    (hrest : ∀ m ∈ rest, Framable W m) (hr : Pending W r rest) :
    drain W (frames W done ++ r) = .ok (done, r) := by
  apply decodeAll_frames W hdone hrest hr
  have := length_le_length_frames W done
  simp only [List.length_append]
  omega

/-- Every prefix of a stream of frames is the whole frames of some messages
and a pending part of the next. -/
theorem exists_pending {ms : List RawMessage} {p u : List UInt8} (h : p ++ u = frames W ms) :
    ∃ done rest r, ms = done ++ rest ∧ p = frames W done ++ r ∧ Pending W r rest := by
  induction ms generalizing p with
  | nil =>
    have hp : p = [] := List.append_eq_nil_iff.mp h |>.1
    exact ⟨[], [], [], rfl, hp, rfl⟩
  | cons m ms ih =>
    rw [frames_cons] at h
    have hp : p <+: frame W m ++ frames W ms := ⟨u, h⟩
    have hf : frame W m <+: frame W m ++ frames W ms := List.prefix_append _ _
    by_cases hlen : p.length < (frame W m).length
    · exact ⟨[], m :: ms, p, rfl, rfl, List.prefix_of_prefix_length_le hp hf hlen.le, hlen⟩
    · obtain ⟨p', rfl⟩ := List.prefix_of_prefix_length_le hf hp (by omega)
      rw [List.append_assoc, List.append_cancel_left_eq] at h
      obtain ⟨done, rest, r, rfl, rfl, hr⟩ := ih h
      exact ⟨m :: done, rest, r, rfl, by simp, hr⟩

/-! ## The reads of a session -/

/-- The reads of a session after the bytes `p` of the frames of `ms`: the
messages of the frames read whole, and the part of the next in the buffer. -/
def FeedState (ms : List RawMessage) (s : List RawMessage × List UInt8) (p : List UInt8) : Prop :=
  ∃ rest, ms = s.1 ++ rest ∧ p = frames W s.1 ++ s.2 ∧ Pending W s.2 rest

/-- One read of a chunk of the stream succeeds, and the state still holds
the frames read whole. -/
theorem feedStep_frames {ms : List RawMessage} (hms : ∀ m ∈ ms, Framable W m) {s : List RawMessage × List UInt8}
    {p c u : List UInt8} (hs : FeedState W ms s p) (hpre : p ++ c ++ u = frames W ms) :
    ∃ s', feedStep W s c = .ok s' ∧ FeedState W ms s' (p ++ c) := by
  obtain ⟨rest, hrest, hp, -⟩ := hs
  have hbuf : s.2 ++ c ++ u = frames W rest := by
    rw [hrest, hp, frames_append] at hpre
    simp only [List.append_assoc] at hpre ⊢
    exact List.append_cancel_left hpre
  obtain ⟨done, rest', r, rfl, hsplit, hr⟩ := exists_pending W hbuf
  have hgood : ∀ m ∈ done ++ rest', Framable W m := fun m h => hms m (by rw [hrest]; simp [h])
  have hdrain : drain W (s.2 ++ c) = .ok (done, r) := by
    rw [hsplit]
    exact drain_frames W (fun m h => hgood m (by simp [h])) (fun m h => hgood m (by simp [h])) hr
  refine ⟨(s.1 ++ done, r), by simp [feedStep, hdrain, pure, Except.pure], rest', ?_, ?_, hr⟩
  · simp [hrest]
  · simp [hp, hsplit]

/-- A state that has read all of the stream holds every message and an
empty buffer. -/
theorem FeedState.eq_of_all {ms : List RawMessage} {s : List RawMessage × List UInt8}
    (hs : FeedState W ms s (frames W ms)) : s = (ms, []) := by
  obtain ⟨rest, hrest, hp, hr⟩ := hs
  have hbuf : s.2 = frames W rest := by
    rw [hrest, frames_append] at hp
    exact (List.append_cancel_left hp).symm
  cases rest with
  | nil => exact Prod.ext (by simpa using hrest.symm) hbuf
  | cons m rest =>
    have hlen := congrArg List.length hbuf
    simp only [frames_cons, List.length_append] at hlen
    exact absurd hr.2 (by omega)

/-- The frame codec's round trip: the messages' frames, however the stream
is cut into reads, decode to the messages, in order, and leave the buffer
empty. -/
theorem feed_roundtrip (msgs : List RawMessage) (hlen : ∀ m ∈ msgs, (W.rawToBytes m).length ≤ 2 ^ 32 - 5)
    (hserde : ∀ m ∈ msgs, W.rawFromBytes (W.rawToBytes m) = some m) :
    ∃ S, encodeAll W msgs = .ok S ∧ ∀ chunks : List (List UInt8), chunks.flatten = S → feed W chunks = .ok (msgs, []) := by
  have hms : ∀ m ∈ msgs, Framable W m := fun m h => ⟨hlen m h, hserde m h⟩
  refine ⟨frames W msgs, encodeAll_of_framable W hms, fun chunks hchunks => ?_⟩
  -- The invariant: the state holds the bytes read so far, which with the
  -- chunks still to come make up the stream.
  let Inv (s : List RawMessage × List UInt8) (cs : List (List UInt8)) : Prop :=
    ∃ p, FeedState W msgs s p ∧ p ++ cs.flatten = frames W msgs
  have hstep : ∀ s c cs, Inv s (c :: cs) → ∃ s', feedStep W s c = .ok s' ∧ Inv s' cs := by
    rintro s c cs ⟨p, hs, hp⟩
    rw [List.flatten_cons, ← List.append_assoc] at hp
    obtain ⟨s', hs', hfs⟩ := feedStep_frames W hms hs hp
    exact ⟨s', hs', p ++ c, hfs, hp⟩
  have h₀ : Inv ([], []) chunks := ⟨[], ⟨msgs, rfl, rfl, pending_nil W msgs⟩, by simp [hchunks]⟩
  obtain ⟨s, hrun, p, hs, hp⟩ := runFrom_ok_of_inv hstep h₀
  rw [List.flatten_nil, List.append_nil] at hp
  subst hp
  rw [feed, hrun, hs.eq_of_all W]

/-- A block message, read one byte at a time. -/
theorem feed_roundtrip_toy :
    (∀ m ∈ [⟨⟨.block, 0, 0, none⟩, [7]⟩], (Wire.toy.rawToBytes m).length ≤ 2 ^ 32 - 5) ∧
      (∀ m ∈ [⟨⟨.block, 0, 0, none⟩, [7]⟩], Wire.toy.rawFromBytes (Wire.toy.rawToBytes m) = some m) ∧
      ∃ S, encodeAll Wire.toy [⟨⟨.block, 0, 0, none⟩, [7]⟩] = .ok S ∧ ∀ chunks : List (List UInt8),
        chunks.flatten = S → feed Wire.toy chunks = .ok ([⟨⟨.block, 0, 0, none⟩, [7]⟩], []) :=
  ⟨by decide, by decide, feed_roundtrip Wire.toy _ (by decide) (by decide)⟩

end ConsensusRs
