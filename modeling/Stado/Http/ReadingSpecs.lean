import Stado.Http.Reading

/-!
# What one read of a connection finds

The head a stream starts with, and what one call of the reader makes of the
stream, whatever the pieces it arrives in.
-/

namespace Stado.Http

open Sigv4 List Option Cuts

variable {limits : RequestLimits} {ending : Option String} {bound : ℕ} {stream : Bytes}
  {buf : Bytes} {position : ℕ} {left : List (Piece UInt8)} {socket : Socket}

theorem headEnd_ne : headEnd ≠ [] := by decide

/-! ## Finding the head -/

def Over (bound : ℕ) (stream : Bytes) : Prop :=
  bound ≤ stream.length ∧ bound ≤ isizeMax ∧
    ∀ position, find headEnd stream = some position → bound < position + headEnd.length

/-- What a head past its bound is refused with, once this much has arrived. -/
def overText (buf : Bytes) : String :=
  match find headEnd buf with
  | some position => s!"its {position + headEnd.length} bytes pass"
  | none => s!"{buf.length} bytes without its end reach"

def Seen (bound : ℕ) (stream buf : Bytes) : Prop :=
  (∃ later, stream = buf ++ later) ∧ buf.length ≤ isizeMax ∧ bound ≤ buf.length

inductive Finds (bound : ℕ) (ending : Option String) (stream : Bytes) :
    HeadRead → List (Piece UInt8) → Prop
  | found {buf : Bytes} {position : ℕ} {left : List (Piece UInt8)}
      (hfind : find headEnd stream = some position)
      (hbound : position + headEnd.length ≤ bound)
      (hbuf : position + headEnd.length ≤ buf.length) (hsize : buf.length ≤ isizeMax)
      (hstream : stream = buf ++ joined left) :
      Finds bound ending stream (.found buf position) left
  | over {buf : Bytes} {left : List (Piece UInt8)} (hseen : Seen bound stream buf)
      (hover : Over bound stream) :
      Finds bound ending stream (.ended (.failed (.refused (headTooLarge (overText buf) bound))))
        left
  | full {left : List (Piece UInt8)} (hroom : isizeMax ≤ stream.length)
      (hnone : find headEnd (stream.take isizeMax) = none) (hbound : isizeMax < bound) :
      Finds bound ending stream (.ended (closedHead (stream.take isizeMax))) left
  | drained (hnone : find headEnd stream = none) (hroom : stream.length < isizeMax)
      (hbound : stream.length < bound) :
      Finds bound ending stream (.ended (drained ending stream)) []

theorem endOfHead_none (h : find headEnd buf = none) (hbound : buf.length < bound) :
    endOfHead bound buf = some (.ok none) := by
  rw [endOfHead, h]
  show some (if bound ≤ buf.length then _ else _) = _
  rw [if_neg (Nat.not_le.mpr hbound)]

theorem endOfHead_reached (h : find headEnd buf = none) (hbound : bound ≤ buf.length) :
    endOfHead bound buf = some (.error (headTooLarge (overText buf) bound)) := by
  rw [endOfHead, overText, h]
  show some (if bound ≤ buf.length then _ else _) = _
  rw [if_pos hbound]

theorem endOfHead_found (h : find headEnd buf = some position) (hsize : buf.length ≤ isizeMax) :
    endOfHead bound buf = some (if bound < position + headEnd.length then
      .error (headTooLarge (overText buf) bound) else .ok (some position)) := by
  have hle : position + headEnd.length ≤ usizeMax := by
    have := find_eq_some_le h
    have := isizeMax_lt_usizeMax
    omega
  rw [endOfHead, overText, h]
  show (checkedAdd position headEnd.length).map _ = _
  rw [checkedAdd_eq hle]
  rfl

/-- What is settled of a buffer is what the stream that starts with it holds. -/
theorem settled_finds {pieces : List (Piece UInt8)} {next : Option (HeadRead × List (Piece UInt8))}
    (hsize : buf.length ≤ isizeMax) (hnext : find headEnd buf = none → buf.length < bound →
      ∃ found left, next = some (found, left) ∧
        Finds bound ending (buf ++ joined pieces) found left) :
    ∃ found left, settled bound buf pieces next = some (found, left) ∧
      Finds bound ending (buf ++ joined pieces) found left := by
  unfold settled
  cases hfind : find headEnd buf with
  | some position =>
    have hle := find_eq_some_le hfind
    have hwhole := find_append_of_eq_some headEnd_ne hfind (joined pieces)
    rw [endOfHead_found hfind hsize]
    by_cases hover : bound < position + headEnd.length
    · rw [if_pos hover]
      refine ⟨_, _, rfl, .over ⟨⟨_, rfl⟩, hsize, by omega⟩ ⟨?_, by omega, ?_⟩⟩
      · rw [length_append]
        omega
      · intro other hother
        rw [hwhole] at hother
        obtain rfl := Option.some.inj hother
        exact hover
    · rw [if_neg hover]
      exact ⟨_, _, rfl, .found hwhole (Nat.le_of_not_lt hover) hle hsize rfl⟩
  | none =>
    by_cases hbound : bound ≤ buf.length
    · rw [endOfHead_reached hfind hbound]
      refine ⟨_, _, rfl, .over ⟨⟨_, rfl⟩, hsize, hbound⟩ ⟨?_, by omega, ?_⟩⟩
      · rw [length_append]
        omega
      · intro position hposition
        have := lt_of_find_append headEnd_ne hfind hposition
        omega
    · rw [endOfHead_none hfind (Nat.lt_of_not_le hbound)]
      exact hnext hfind (Nat.lt_of_not_le hbound)

/-- Reading a head finds what the whole stream holds. -/
theorem readHead_finds (bound : ℕ) (ending : Option String) (buf : Bytes)
    (pieces : List (Piece UInt8)) (hsize : buf.length ≤ isizeMax) :
    ∃ found left, readHead bound ending buf pieces = some (found, left) ∧
      Finds bound ending (buf ++ joined pieces) found left := by
  have hfull : ∀ (full : Bytes) (left : List (Piece UInt8)), full.length = isizeMax →
      find headEnd full = none → full.length < bound →
      Finds bound ending (full ++ joined left) (.ended (closedHead full)) left := by
    intro full left hlength hnone hbound
    have htake : (full ++ joined left).take isizeMax = full := by
      rw [← hlength, take_left]
    have hfinds : Finds bound ending (full ++ joined left)
        (.ended (closedHead ((full ++ joined left).take isizeMax))) left := by
      refine .full ?_ (by rw [htake, hnone]) (hlength ▸ hbound)
      rw [length_append]
      omega
    rw [htake] at hfinds
    exact hfinds
  induction pieces generalizing buf with
  | nil =>
    refine settled_finds hsize ?_
    intro hnone hbound
    refine ⟨_, _, rfl, ?_⟩
    by_cases hroom : isizeMax ≤ buf.length
    · rw [if_pos hroom]
      exact hfull buf [] (Nat.le_antisymm hsize hroom) hnone hbound
    · rw [if_neg hroom, joined_nil, append_nil]
      exact .drained hnone (Nat.lt_of_not_le hroom) hbound
  | cons piece later ih =>
    refine settled_finds hsize ?_
    intro hnone hbound
    by_cases hroom : isizeMax ≤ buf.length
    · rw [if_pos hroom]
      exact ⟨_, _, rfl, hfull buf _ (Nat.le_antisymm hsize hroom) hnone hbound⟩
    · rw [if_neg hroom]
      by_cases hpart : isizeMax - buf.length < piece.1.length
      · -- the read fills the buffer
        rw [dif_pos hpart]
        have hlength : (buf ++ piece.1.take (isizeMax - buf.length)).length = isizeMax := by
          rw [length_append, length_take]
          omega
        have hsplit : buf ++ joined (piece :: later) =
            (buf ++ piece.1.take (isizeMax - buf.length)) ++
              joined (piece.rest (isizeMax - buf.length) hpart :: later) := by
          rw [joined_cons, joined_cons, append_assoc, ← append_assoc (piece.1.take _)]
          show _ = buf ++ (piece.1.take _ ++ piece.1.drop _ ++ _)
          rw [take_append_drop]
        rw [hsplit]
        refine settled_finds (Nat.le_of_eq hlength) ?_
        intro hnone hbound
        exact ⟨_, _, rfl, hfull _ _ hlength hnone hbound⟩
      · rw [dif_neg hpart]
        have hread := ih (buf ++ piece.1) (by rw [length_append]; omega)
        rw [append_assoc] at hread
        exact hread

/-! ## Reading the body -/

theorem missing_take (stream later : Bytes) (n : ℕ) :
    stream.take n ++ later.take (n - (stream.take n).length) = (stream ++ later).take n := by
  rw [take_append]
  congr 2
  rw [length_take]
  omega

theorem missing_drop (stream later : Bytes) (n : ℕ) :
    stream.drop n ++ later.drop (n - (stream.take n).length) = (stream ++ later).drop n := by
  rw [drop_append]
  congr 2
  rw [length_take]
  omega

theorem carried_eq (buf : Bytes) (consumed : ℕ) :
    carried buf consumed = some (buf.drop consumed) := by
  unfold carried
  split_ifs with hmore
  · rw [slice_eq (Nat.le_of_lt hmore) le_rfl, take_length]
  · rw [drop_of_length_le (Nat.le_of_not_lt hmore)]

/-- What a body leaves to read. -/
def unread (socket : Socket) (buf : Bytes) (bodyStart length : ℕ) : List (Piece UInt8) :=
  (receive socket.pieces (length - ((buf.drop bodyStart).take length).length)).2

theorem readBody_eq (limits : RequestLimits) (head : Head) {bodyStart length : ℕ} (socket : Socket)
    (hstart : bodyStart ≤ buf.length) (hsize : buf.length ≤ isizeMax) (hlength : length ≤ isizeMax) :
    ∃ interim, readBody limits head buf bodyStart length socket =
      some (if (((buf ++ socket.bytes).drop bodyStart).take length).length < length then
        ⟨.ended (.failed (shortBody head socket.ending
          (((buf ++ socket.bytes).drop bodyStart).take length).length length)), [],
          ⟨unread socket buf bodyStart length, socket.ending⟩, interim,
          some ⟨bodyStart, length, head.maxBodyBytes limits⟩⟩
      else ⟨.request (head.received (((buf ++ socket.bytes).drop bodyStart).take length)),
        buf.drop (bodyStart + length), ⟨unread socket buf bodyStart length, socket.ending⟩, interim,
        some ⟨bodyStart, length, head.maxBodyBytes limits⟩⟩) ∧
      buf.drop (bodyStart + length) ++ joined (unread socket buf bodyStart length) =
        (buf ++ socket.bytes).drop (bodyStart + length) := by
  have hwide := isizeMax_lt_usizeMax
  have hslice : slice buf bodyStart (bodyStart + min (buf.length - bodyStart) length) =
      some ((buf.drop bodyStart).take length) := by
    rw [slice_eq (by omega) (by omega), drop_take, Nat.add_sub_cancel_left]
    congr 1
    rw [← length_drop, take_eq_take_iff]
    omega
  have hheld : ((buf.drop bodyStart).take length).length ≤ length := by
    rw [length_take]
    omega
  obtain ⟨hgot, hleft⟩ := receive_eq socket.pieces
    (length - ((buf.drop bodyStart).take length).length)
  have hbody : (buf.drop bodyStart).take length ++ (receive socket.pieces
        (length - ((buf.drop bodyStart).take length).length)).1 =
      ((buf ++ socket.bytes).drop bodyStart).take length := by
    rw [hgot, missing_take, drop_append_of_le_length hstart]
    rfl
  have hrest : buf.drop (bodyStart + length) ++ joined (unread socket buf bodyStart length) =
      (buf ++ socket.bytes).drop (bodyStart + length) := by
    rw [unread, hleft, ← drop_drop, missing_drop, ← drop_drop, drop_append_of_le_length hstart]
    rfl
  have hconsumed : min (bodyStart + length) usizeMax = bodyStart + length :=
    Nat.min_eq_left (by omega)
  refine ⟨head.expectsContinue && 0 < length - ((buf.drop bodyStart).take length).length, ?_, hrest⟩
  unfold readBody
  dsimp only
  rw [withCapacity_eq hlength, checkedAdd_eq (by omega)]
  dsimp only [bind_eq_bind, bind_some]
  rw [hslice]
  dsimp only [bind_some]
  rw [checkedSub_eq hheld]
  dsimp only [bind_some]
  rw [hbody, hconsumed, carried_eq]
  split_ifs
  · rfl
  · rfl

/-! ## One call -/

/-- A stream starts with a head within its bounds, which is accepted and declares
a body of this length. -/
structure Declares (limits : RequestLimits) (stream : Bytes) (position : ℕ) (head : Head)
    (length : ℕ) : Prop where
  ends : find headEnd stream = some position
  bounded : position + headEnd.length ≤ limits.headBytes.get
  held : position + headEnd.length ≤ isizeMax
  parsed : parseHead (stream.take position) = .ok head
  admitted : head.bodyLength limits = .ok length

theorem Declares.unique {position other : ℕ} {head head' : Head}
    {length length' : ℕ} (h : Declares limits stream position head length)
    (h' : Declares limits stream other head' length') :
    position = other ∧ head = head' ∧ length = length' := by
  obtain rfl := Option.some.inj (h.ends.symm.trans h'.ends)
  obtain rfl := Except.ok.inj (h.parsed.symm.trans h'.parsed)
  exact ⟨rfl, rfl, Except.ok.inj (h.admitted.symm.trans h'.admitted)⟩

/-- What a stream starts with: a request and what follows it, a head past its
bound, an end, or a head whose body panics. -/
inductive Framing where
  | request (received : Received) (rest : Bytes)
  | over
  | ended (ended : Ended)
  | panicked

def frameHead (limits : RequestLimits) (ending : Option String) (stream : Bytes) (position : ℕ) :
    Framing :=
  match parseHead (stream.take position) with
  | .error refusal => .ended (.failed (.refused refusal))
  | .ok head =>
    match head.bodyLength limits with
    | .error refusal => .ended (.failed (.refused refusal))
    | .ok length =>
      let body := (stream.drop (position + headEnd.length)).take length
      if isizeMax < length then .panicked
      else if body.length < length then
        .ended (.failed (shortBody head ending body.length length))
      else .request (head.received body) (stream.drop (position + headEnd.length + length))

/-- The framing of a whole stream, however it arrives. -/
def frame (limits : RequestLimits) (ending : Option String) (stream : Bytes) : Framing :=
  let seen := stream.take isizeMax
  match find headEnd seen with
  | some position =>
    if limits.headBytes.get < position + headEnd.length then .over
    else frameHead limits ending stream position
  | none =>
    if limits.headBytes.get ≤ seen.length then .over
    else if isizeMax ≤ stream.length then .ended (closedHead seen)
    else .ended (drained ending stream)

def Framing.Answers (limits : RequestLimits) (ending : Option String) (stream : Bytes) :
    Framing → Option Read → Prop
  | .request received rest, read => ∃ found, read = some found ∧
      found.answer = .request received ∧ found.carry ++ found.socket.bytes = rest ∧
        found.carry.length ≤ isizeMax ∧ found.socket.ending = ending
  | .over, read => ∃ found buf, read = some found ∧ Seen limits.headBytes.get stream buf ∧
      found.answer = .ended (.failed (.refused (headTooLarge (overText buf) limits.headBytes.get)))
  | .ended last, read => ∃ found, read = some found ∧ found.answer = .ended last
  | .panicked, read => read = none

theorem find_take :
    find headEnd (stream.take isizeMax) = some position ↔
      find headEnd stream = some position ∧ position + headEnd.length ≤ isizeMax := by
  have hsplit := find_append headEnd_ne (stream.take isizeMax) (stream.drop isizeMax) position
  rw [take_append_drop, length_take] at hsplit
  rw [hsplit]
  constructor
  · rintro ⟨hfind, hle⟩
    exact ⟨hfind, by omega⟩
  · rintro ⟨hfind, hle⟩
    have := find_eq_some_le hfind
    exact ⟨hfind, by omega⟩

theorem frame_found (hfind : find headEnd stream = some position)
    (hbound : position + headEnd.length ≤ limits.headBytes.get)
    (hheld : position + headEnd.length ≤ isizeMax) :
    frame limits ending stream = frameHead limits ending stream position := by
  have hseen : find headEnd (stream.take isizeMax) = some position := find_take.mpr ⟨hfind, hheld⟩
  rw [frame, hseen]
  exact if_neg (Nat.not_lt.mpr hbound)

theorem frame_over (h : Over limits.headBytes.get stream) : frame limits ending stream = .over := by
  obtain ⟨hreached, hheld, hends⟩ := h
  unfold frame
  dsimp only
  cases hseen : find headEnd (stream.take isizeMax) with
  | some position => exact if_pos (hends position (find_take.mp hseen).1)
  | none =>
    refine if_pos ?_
    rw [length_take]
    omega

theorem frameHead_declares {position length : ℕ} {head : Head}
    (h : Declares limits stream position head length) :
    frameHead limits ending stream position = if isizeMax < length then .panicked
      else if ((stream.drop (position + headEnd.length)).take length).length < length then
        .ended (.failed (shortBody head ending
          ((stream.drop (position + headEnd.length)).take length).length length))
      else .request (head.received ((stream.drop (position + headEnd.length)).take length))
        (stream.drop (position + headEnd.length + length)) := by
  unfold frameHead
  rw [h.parsed]
  dsimp only
  rw [h.admitted]

theorem readRequest_ended {carry : Bytes} {last : Ended}
    (h : readHead limits.headBytes.get socket.ending carry socket.pieces = some (.ended last, left)) :
    readRequest limits carry socket =
      some ⟨.ended last, [], ⟨left, socket.ending⟩, false, none⟩ := by
  rw [readRequest, h]
  rfl

theorem readRequest_found {carry buf : Bytes}
    (h : readHead limits.headBytes.get socket.ending carry socket.pieces =
      some (.found buf position, left)) (hbuf : position + headEnd.length ≤ buf.length)
    (hsize : buf.length ≤ isizeMax) :
    readRequest limits carry socket = match parseHead (buf.take position) with
      | .error refusal =>
        some ⟨.ended (.failed (.refused refusal)), [], ⟨left, socket.ending⟩, false, none⟩
      | .ok head =>
        match head.bodyLength limits with
        | .error refusal =>
          some ⟨.ended (.failed (.refused refusal)), [], ⟨left, socket.ending⟩, false, none⟩
        | .ok length =>
          readBody limits head buf (position + headEnd.length) length
            ⟨left, socket.ending⟩ := by
  have hwide := isizeMax_lt_usizeMax
  have hraw : slice buf 0 position = some (buf.take position) := slice_eq (Nat.zero_le _) (by omega)
  rw [readRequest, h]
  dsimp only [bind_eq_bind, bind_some]
  rw [hraw]
  dsimp only [bind_some]
  cases hparse : parseHead (buf.take position) with
  | error refusal => rfl
  | ok head =>
    dsimp only
    rw [checkedAdd_eq (by omega)]
    rfl

theorem Over.undeclared (h : Over limits.headBytes.get stream) (position : ℕ)
    (head : Head) (length : ℕ) : ¬Declares limits stream position head length := by
  intro hdeclares
  have hpast := h.2.2 position hdeclares.ends
  have hbounded := hdeclares.bounded
  omega

/-- A call that finds no acceptable head ends with nothing reserved. -/
def Undeclared (limits : RequestLimits) (ending : Option String) (stream : Bytes)
    (read : Option Read) : Prop :=
  ∃ last left, read = some ⟨.ended last, [], left, false, none⟩ ∧
    (∀ position head length, ¬Declares limits stream position head length) ∧
    (frame limits ending stream = .ended last ∨
      frame limits ending stream = .over ∧ ∃ buf, Seen limits.headBytes.get stream buf ∧
        last = .failed (.refused (headTooLarge (overText buf) limits.headBytes.get)))

/-- A call that finds an acceptable head reads its body. -/
def Declared (limits : RequestLimits) (ending : Option String) (stream : Bytes)
    (read : Option Read) : Prop :=
  ∃ position head length buf left, Declares limits stream position head length ∧
    position + headEnd.length ≤ buf.length ∧ buf.length ≤ isizeMax ∧
    stream = buf ++ joined left ∧
    read = readBody limits head buf (position + headEnd.length) length ⟨left, ending⟩

/-- One call, for any carry a vector holds and any cut of the rest. -/
theorem readRequest_cases (limits : RequestLimits) (carry : Bytes) (socket : Socket)
    (hcarry : carry.length ≤ isizeMax) :
    Undeclared limits socket.ending (carry ++ socket.bytes) (readRequest limits carry socket) ∨
      Declared limits socket.ending (carry ++ socket.bytes) (readRequest limits carry socket) := by
  obtain ⟨found, left, hread, hfinds⟩ :=
    readHead_finds limits.headBytes.get socket.ending carry socket.pieces hcarry
  change Finds _ _ (carry ++ socket.bytes) _ _ at hfinds
  generalize carry ++ socket.bytes = stream at hfinds
  cases hfinds with
  | «over» hseen hover =>
    exact .inl ⟨_, _, readRequest_ended hread, hover.undeclared,
      .inr ⟨frame_over hover, _, hseen, rfl⟩⟩
  | full hroom hnone hbound =>
    refine .inl ⟨_, _, readRequest_ended hread, ?_, .inl ?_⟩
    · intro position head length hdeclares
      rw [find_take.mpr ⟨hdeclares.ends, hdeclares.held⟩] at hnone
      cases hnone
    · rw [frame, hnone]
      dsimp only
      rw [if_neg (by rw [length_take]; omega), if_pos hroom]
  | drained hnone hroom hbound =>
    refine .inl ⟨_, _, readRequest_ended hread, ?_, .inl ?_⟩
    · intro position head length hdeclares
      rw [hdeclares.ends] at hnone
      cases hnone
    · rw [frame, take_of_length_le (Nat.le_of_lt hroom), hnone]
      dsimp only
      rw [if_neg (Nat.not_le.mpr hbound), if_neg (Nat.not_le.mpr hroom)]
  | @found buf position left hfind hbound hbuf hsize hstream =>
    have hheld : position + headEnd.length ≤ isizeMax := hbuf.trans hsize
    have hraw : buf.take position = stream.take position := by
      rw [hstream, take_append_of_le_length (by omega)]
    have hframe := @frame_found limits socket.ending _ _ hfind hbound hheld
    rw [frameHead] at hframe
    rw [readRequest_found hread hbuf hsize, hraw]
    have hsame : ∀ {other : ℕ} {head : Head} {length : ℕ},
        Declares limits stream other head length → other = position := by
      intro other head length hdeclares
      exact Option.some.inj (hdeclares.ends.symm.trans hfind)
    cases hparse : parseHead (stream.take position) with
    | error refusal =>
      rw [hparse] at hframe
      refine .inl ⟨_, _, rfl, ?_, .inl hframe⟩
      intro other head length hdeclares
      obtain rfl := hsame hdeclares
      rw [hdeclares.parsed] at hparse
      cases hparse
    | ok head =>
      rw [hparse] at hframe
      dsimp only at hframe ⊢
      cases hlength : head.bodyLength limits with
      | error refusal =>
        rw [hlength] at hframe
        refine .inl ⟨_, _, rfl, ?_, .inl hframe⟩
        intro other head' length hdeclares
        obtain rfl := hsame hdeclares
        obtain rfl := Except.ok.inj (hparse.symm.trans hdeclares.parsed)
        rw [hdeclares.admitted] at hlength
        cases hlength
      | ok length =>
        exact .inr ⟨position, head, length, buf, left,
          ⟨hfind, hbound, hheld, hparse, hlength⟩, hbuf, hsize, hstream, rfl⟩

theorem readBody_panics (limits : RequestLimits) (head : Head) (buf : Bytes) (bodyStart : ℕ)
    (socket : Socket) {length : ℕ} (h : isizeMax < length) :
    readBody limits head buf bodyStart length socket = none := by
  rw [readBody, withCapacity, if_neg (Nat.not_le.mpr h)]
  rfl

theorem readRequest_frame (limits : RequestLimits) (carry : Bytes) (socket : Socket)
    (hcarry : carry.length ≤ isizeMax) :
    (frame limits socket.ending (carry ++ socket.bytes)).Answers limits socket.ending
      (carry ++ socket.bytes) (readRequest limits carry socket) := by
  generalize hread : readRequest limits carry socket = read
  rcases hread ▸ readRequest_cases limits carry socket hcarry with
    ⟨last, left, rfl, -, hended | ⟨hover, seen, hseen, rfl⟩⟩ |
    ⟨position, head, length, buf, left, hdeclares, hbuf, hsize, hstream, rfl⟩
  · rw [hended]
    exact ⟨_, rfl, rfl⟩
  · rw [hover]
    exact ⟨_, seen, rfl, hseen, rfl⟩
  · rw [frame_found hdeclares.ends hdeclares.bounded hdeclares.held, frameHead_declares hdeclares]
    by_cases hroom : isizeMax < length
    · rw [if_pos hroom, readBody_panics _ _ _ _ _ hroom]
      rfl
    · rw [if_neg hroom]
      obtain ⟨interim, hbody, hrest⟩ := readBody_eq limits head
        ⟨left, socket.ending⟩ hbuf hsize (Nat.le_of_not_lt hroom)
      have hwhole : buf ++ Socket.bytes ⟨left, socket.ending⟩ = carry ++ socket.bytes :=
        hstream.symm
      rw [hwhole] at hbody hrest
      rw [hbody]
      split_ifs with hshort
      · exact ⟨_, rfl, rfl⟩
      · refine ⟨_, rfl, rfl, hrest, ?_, rfl⟩
        show (buf.drop _).length ≤ _
        rw [length_drop]
        omega

def bytesOf (text : String) : Bytes := utf8 text.toList

def oneKilobyte : Bound := ⟨1024, by decide, by decide⟩

def kilobytes : RequestLimits := ⟨oneKilobyte, oneKilobyte, oneKilobyte, oneKilobyte, oneKilobyte⟩

def delivers (text : String) : Socket := ⟨whole (bytesOf text), none⟩

end Stado.Http
