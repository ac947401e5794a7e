import Stado.Http.Heads

/-!
# Requests do not depend on how their bytes arrive

Repeated calls on a connection give the requests of its stream, for every cut of
it into reads. Only the byte count in the sentence of a head past its bound tells
two cuts apart, and only a length written with a sign or with other white space
is framed where it should be refused.
-/

namespace Stado.Http

open Sigv4 List Cuts Segment

variable {limits : RequestLimits} {ending : Option String} {stream rest : Bytes}
  {requests : List Received} {position : ℕ} {last last' : Option Ended}

/-- What repeated calls give: the requests in order, and the end, `none` where a
call panics. -/
inductive Serves (limits : RequestLimits) :
    Bytes → Socket → List Received → Option Ended → Prop
  | panicked {carry : Bytes} {socket : Socket} (hread : readRequest limits carry socket = none) :
      Serves limits carry socket [] none
  | ended {carry : Bytes} {socket : Socket} {read : Read} {last : Ended}
      (hread : readRequest limits carry socket = some read) (hanswer : read.answer = .ended last) :
      Serves limits carry socket [] (some last)
  | request {carry : Bytes} {socket : Socket} {read : Read} {received : Received}
      {later : List Received} {last : Option Ended}
      (hread : readRequest limits carry socket = some read)
      (hanswer : read.answer = .request received)
      (hlater : Serves limits read.carry read.socket later last) :
      Serves limits carry socket (received :: later) last

theorem Serves.unique {carry : Bytes} {socket : Socket} {requests requests' : List Received}
    (h : Serves limits carry socket requests last)
    (h' : Serves limits carry socket requests' last') : requests = requests' ∧ last = last' := by
  induction h generalizing requests' last' with
  | panicked hread =>
    cases h' with
    | panicked => exact ⟨rfl, rfl⟩
    | ended hread' => cases hread.symm.trans hread'
    | request hread' => cases hread.symm.trans hread'
  | ended hread hanswer =>
    cases h' with
    | panicked hread' => cases hread.symm.trans hread'
    | ended hread' hanswer' =>
      obtain rfl := Option.some.inj (hread.symm.trans hread')
      obtain rfl := Answer.ended.inj (hanswer.symm.trans hanswer')
      exact ⟨rfl, rfl⟩
    | request hread' hanswer' =>
      obtain rfl := Option.some.inj (hread.symm.trans hread')
      cases hanswer.symm.trans hanswer'
  | request hread hanswer _ ih =>
    cases h' with
    | panicked hread' => cases hread.symm.trans hread'
    | ended hread' hanswer' =>
      obtain rfl := Option.some.inj (hread.symm.trans hread')
      cases hanswer.symm.trans hanswer'
    | request hread' hanswer' hlater' =>
      obtain rfl := Option.some.inj (hread.symm.trans hread')
      obtain rfl := Answer.request.inj (hanswer.symm.trans hanswer')
      obtain ⟨rfl, rfl⟩ := ih hlater'
      exact ⟨rfl, rfl⟩

/-! ## The requests of a stream -/

inductive Follows (limits : RequestLimits) : Bytes → List Received → Bytes → Prop
  | here (stream : Bytes) : Follows limits stream [] stream
  | next {stream : Bytes} {position length : ℕ} {head : Head} {requests : List Received}
      {rest : Bytes} (hdeclares : Declares limits stream position head length)
      (hheld : length ≤ isizeMax) (hall : position + headEnd.length + length ≤ stream.length)
      (hlater : Follows limits (stream.drop (position + headEnd.length + length)) requests rest) :
      Follows limits stream
        (head.received ((stream.drop (position + headEnd.length)).take length) :: requests) rest

/-- No whole request starts here. -/
def Stuck (limits : RequestLimits) (stream : Bytes) : Prop :=
  ∀ position head length, Declares limits stream position head length →
    isizeMax < length ∨ stream.length < position + headEnd.length + length

theorem frame_declares {position length : ℕ} {head : Head}
    (hdeclares : Declares limits stream position head length) (hheld : length ≤ isizeMax)
    (hall : position + headEnd.length + length ≤ stream.length) :
    frame limits ending stream =
      .request (head.received ((stream.drop (position + headEnd.length)).take length))
        (stream.drop (position + headEnd.length + length)) := by
  rw [frame_found hdeclares.ends hdeclares.bounded hdeclares.held, frameHead_declares hdeclares,
    if_neg (Nat.not_lt.mpr hheld), if_neg]
  rw [length_take, length_drop]
  omega

/-- Every stream is requests up to where no whole one starts. -/
theorem follows_stuck (limits : RequestLimits) (stream : Bytes) :
    ∃ requests rest, Follows limits stream requests rest ∧ Stuck limits rest := by
  induction hn : stream.length using Nat.strong_induction_on generalizing stream with
  | _ n ih =>
    by_cases hstuck : Stuck limits stream
    · exact ⟨[], stream, .here stream, hstuck⟩
    · unfold Stuck at hstuck
      push Not at hstuck
      obtain ⟨position, head, length, hdeclares, hheld, hall⟩ := hstuck
      have hshorter : (stream.drop (position + headEnd.length + length)).length < n := by
        have hpos : 0 < headEnd.length := by decide
        rw [length_drop]
        omega
      obtain ⟨requests, rest, hfollows, hrest⟩ := ih _ hshorter _ rfl
      exact ⟨_, rest, .next hdeclares hheld hall hfollows, hrest⟩

theorem serves_follows (h : Follows limits stream requests rest) {carry : Bytes} {socket : Socket}
    (hcarry : carry.length ≤ isizeMax) (hstream : carry ++ socket.bytes = stream) :
    ∃ carry' left, carry'.length ≤ isizeMax ∧ carry' ++ left.bytes = rest ∧
      left.ending = socket.ending ∧ ∀ later last, Serves limits carry' left later last →
        Serves limits carry socket (requests ++ later) last := by
  induction h generalizing carry socket with
  | here stream => exact ⟨carry, socket, hcarry, hstream, rfl, fun _ _ hlater => hlater⟩
  | next hdeclares hheld hall _ ih =>
    have hanswers := readRequest_frame limits carry socket hcarry
    rw [hstream, frame_declares hdeclares hheld hall] at hanswers
    obtain ⟨read, hread, hanswer, hleft, hkept, hending⟩ := hanswers
    obtain ⟨carry', left, hcarry', hrest, hending', hlater⟩ := ih hkept hleft
    refine ⟨carry', left, hcarry', hrest, hending'.trans hending, ?_⟩
    intro later last hserves
    exact .request hread hanswer (hlater later last hserves)

/-! ## Where the requests end -/

def Last (limits : RequestLimits) (ending : Option String) (stream : Bytes) (last : Option Ended) :
    Prop :=
  match frame limits ending stream with
  | .request _ _ => False
  | .over => ∃ buf, Seen limits.headBytes.get stream buf ∧
      last = some (.failed (.refused (headTooLarge (overText buf) limits.headBytes.get)))
  | .ended ended => last = some ended
  | .panicked => last = none

theorem frameHead_request {received : Received}
    (h : frameHead limits ending stream position = .request received rest) :
    ∃ head length, parseHead (stream.take position) = .ok head ∧
      head.bodyLength limits = .ok length ∧ length ≤ isizeMax ∧
      length ≤ (stream.drop (position + headEnd.length)).length := by
  unfold frameHead at h
  cases hparse : parseHead (stream.take position) with
  | error refusal =>
    rw [hparse] at h
    cases h
  | ok head =>
    rw [hparse] at h
    dsimp only at h
    cases hlength : head.bodyLength limits with
    | error refusal =>
      rw [hlength] at h
      cases h
    | ok length =>
      rw [hlength] at h
      dsimp only at h
      split_ifs at h with hroom hshort
      rw [length_take] at hshort
      exact ⟨head, length, rfl, hlength, Nat.le_of_not_lt hroom, by omega⟩

theorem frameHead_ne_over : frameHead limits ending stream position ≠ .over := by
  unfold frameHead
  cases parseHead (stream.take position) with
  | error refusal => exact nofun
  | ok head =>
    dsimp only
    cases head.bodyLength limits with
    | error refusal => exact nofun
    | ok length =>
      dsimp only
      split_ifs <;> exact nofun

theorem frame_ne_request (h : Stuck limits stream) (received : Received)
    (rest : Bytes) : frame limits ending stream ≠ .request received rest := by
  intro hframe
  unfold frame at hframe
  dsimp only at hframe
  cases hseen : find headEnd (stream.take isizeMax) with
  | none =>
    rw [hseen] at hframe
    dsimp only at hframe
    split_ifs at hframe
  | some position =>
    rw [hseen] at hframe
    dsimp only at hframe
    split_ifs at hframe with hbound
    obtain ⟨hfind, hheld⟩ := find_take.mp hseen
    obtain ⟨head, length, hparse, hlength, hroom, hfits⟩ := frameHead_request hframe
    have hle := find_eq_some_le hfind
    rw [length_drop] at hfits
    rcases h position head length
      ⟨hfind, Nat.le_of_not_lt hbound, hheld, hparse, hlength⟩ with hpast | hshort
    · omega
    · omega

theorem frame_eq_over (h : frame limits ending stream = .over) :
    Over limits.headBytes.get stream := by
  unfold frame at h
  dsimp only at h
  cases hseen : find headEnd (stream.take isizeMax) with
  | some position =>
    rw [hseen] at h
    dsimp only at h
    obtain ⟨hfind, hheld⟩ := find_take.mp hseen
    have hle := find_eq_some_le hfind
    split_ifs at h with hbound
    · refine ⟨by omega, by omega, ?_⟩
      intro other hother
      obtain rfl := Option.some.inj (hfind.symm.trans hother)
      exact hbound
    · exact absurd h frameHead_ne_over
  | none =>
    rw [hseen] at h
    dsimp only at h
    split_ifs at h with hbound
    rw [length_take] at hbound
    refine ⟨by omega, by omega, ?_⟩
    intro position hposition
    by_contra hpast
    have hfound := find_take.mpr ⟨hposition, by omega⟩
    rw [hseen] at hfound
    cases hfound

theorem serves_last {stream carry : Bytes} {socket : Socket} (hstuck : Stuck limits stream)
    (hcarry : carry.length ≤ isizeMax) (hstream : carry ++ socket.bytes = stream) :
    ∃ last, Serves limits carry socket [] last ∧ Last limits socket.ending stream last := by
  have hanswers := readRequest_frame limits carry socket hcarry
  rw [hstream] at hanswers
  unfold Last
  cases hframe : frame limits socket.ending stream with
  | request received rest => exact absurd hframe (frame_ne_request hstuck received rest)
  | «over» =>
    rw [hframe] at hanswers
    obtain ⟨read, buf, hread, hseen, hanswer⟩ := hanswers
    exact ⟨_, .ended hread hanswer, buf, hseen, rfl⟩
  | ended last =>
    rw [hframe] at hanswers
    obtain ⟨read, hread, hanswer⟩ := hanswers
    exact ⟨_, .ended hread hanswer, rfl⟩
  | panicked =>
    rw [hframe] at hanswers
    exact ⟨none, .panicked hanswers, rfl⟩

/-- Calls on any cut of a stream give its requests, and end where they end. -/
theorem serves_stream (h : Follows limits stream requests rest) (hstuck : Stuck limits rest)
    {socket : Socket} (hstream : socket.bytes = stream) :
    ∃ last, Serves limits [] socket requests last ∧ Last limits socket.ending rest last := by
  obtain ⟨carry, left, hcarry, hrest, hending, hlater⟩ :=
    @serves_follows _ _ _ _ h [] socket (Nat.zero_le _) hstream
  obtain ⟨last, hserves, hlast⟩ := serves_last hstuck hcarry hrest
  have hwhole := hlater [] last hserves
  rw [append_nil] at hwhole
  rw [hending] at hlast
  exact ⟨last, hwhole, hlast⟩

/-! ## Cuts at the ends of requests -/

variable {bound : ℕ} {buf : Bytes}

theorem settled_found (hfind : find headEnd buf = some position)
    (hbound : position + headEnd.length ≤ bound) (hsize : buf.length ≤ isizeMax)
    (pieces : List (Piece UInt8)) (next : Option (HeadRead × List (Piece UInt8))) :
    settled bound buf pieces next = some (.found buf position, pieces) := by
  rw [settled, endOfHead_found hfind hsize, if_neg (Nat.not_lt.mpr hbound)]

theorem settled_over (hsize : buf.length ≤ isizeMax) (hreached : bound ≤ buf.length)
    (hends : ∀ position, find headEnd buf = some position → bound < position + headEnd.length)
    (pieces : List (Piece UInt8)) (next : Option (HeadRead × List (Piece UInt8))) :
    settled bound buf pieces next =
      some (.ended (.failed (.refused (headTooLarge (overText buf) bound))), pieces) := by
  unfold settled
  cases hfind : find headEnd buf with
  | some position => rw [endOfHead_found hfind hsize, if_pos (hends position hfind)]
  | none => rw [endOfHead_reached hfind hreached]

theorem readHead_settled {pieces : List (Piece UInt8)} {found : HeadRead × List (Piece UInt8)}
    (h : ∀ next, settled bound buf pieces next = some found) :
    readHead bound ending buf pieces = some found := by
  cases pieces with
  | _ => exact h _

/-- The first read of a call that carries nothing. -/
theorem readHead_first (hbound : 0 < bound) (piece : Piece UInt8) (later : List (Piece UInt8)) :
    readHead bound ending [] (piece :: later) = if h : isizeMax < piece.1.length then
        settled bound (piece.1.take isizeMax) (piece.rest isizeMax h :: later)
          (some (.ended (closedHead (piece.1.take isizeMax)), piece.rest isizeMax h :: later))
      else readHead bound ending piece.1 later := by
  have hempty : endOfHead bound [] = some (.ok none) := endOfHead_none rfl hbound
  rw [readHead, settled, hempty]
  rfl

theorem readRequest_exact {piece : Piece UInt8} {position length : ℕ} {head : Head}
    (hdeclares : Declares limits piece.1 position head length) (hheld : length ≤ isizeMax)
    (hexact : piece.1.length = position + headEnd.length + length) (later : List (Piece UInt8))
    (ending : Option String) :
    ∃ read, readRequest limits [] ⟨piece :: later, ending⟩ = some read ∧ read.answer =
        .request (head.received ((piece.1.drop (position + headEnd.length)).take length)) ∧
      read.carry = [] ∧ read.socket = ⟨later, ending⟩ := by
  -- the buffer the head is found in, and what of the piece is left to read
  obtain ⟨buf, left, hread, hbuf, hsize, hlong, hpiece, hunread⟩ : ∃ buf left,
      readHead limits.headBytes.get ending [] (piece :: later) = some (.found buf position, left) ∧
      position + headEnd.length ≤ buf.length ∧ buf.length ≤ isizeMax ∧
      buf.length ≤ piece.1.length ∧ buf ++ joined left = piece.1 ++ joined later ∧
      unread ⟨left, ending⟩ buf (position + headEnd.length) length = later := by
    have hmissing : ∀ buf : Bytes, position + headEnd.length ≤ buf.length →
        length - ((buf.drop (position + headEnd.length)).take length).length =
          piece.1.length - buf.length := by
      intro buf hbuf
      rw [length_take, length_drop]
      omega
    rw [readHead_first limits.headBytes.positive]
    by_cases hlong : isizeMax < piece.1.length
    · have hheldHead := hdeclares.held
      have hfind : find headEnd (piece.1.take isizeMax) = some position :=
        find_take.mpr ⟨hdeclares.ends, hdeclares.held⟩
      have hlength : (piece.1.take isizeMax).length = isizeMax := by
        rw [length_take]
        omega
      have hrest : (piece.rest isizeMax hlong).1.length = piece.1.length - isizeMax := length_drop
      refine ⟨piece.1.take isizeMax, piece.rest isizeMax hlong :: later, ?_, ?_,
        Nat.le_of_eq hlength, by omega, ?_, ?_⟩
      · rw [dif_pos hlong]
        exact settled_found hfind hdeclares.bounded (Nat.le_of_eq hlength) _ _
      · rw [hlength]
        exact hdeclares.held
      · rw [joined_cons, ← append_assoc]
        show piece.1.take isizeMax ++ piece.1.drop isizeMax ++ _ = _
        rw [take_append_drop]
      · rw [unread, hmissing _ (by rw [hlength]; exact hdeclares.held), hlength, ← hrest]
        exact receive_piece _ _
    · have hsize : piece.1.length ≤ isizeMax := Nat.le_of_not_lt hlong
      have hbuf : position + headEnd.length ≤ piece.1.length := by omega
      refine ⟨piece.1, later, ?_, hbuf, hsize, le_rfl, rfl, ?_⟩
      · rw [dif_neg hlong]
        exact readHead_settled (settled_found hdeclares.ends hdeclares.bounded hsize later)
      · rw [unread, hmissing _ hbuf, Nat.sub_self, receive_zero]
  have hraw : buf.take position = piece.1.take position := by
    have hwhole := congrArg (List.take position) hpiece
    rw [take_append_of_le_length (by omega), take_append_of_le_length (by omega)] at hwhole
    exact hwhole
  have hbody : (buf ++ Socket.bytes ⟨left, ending⟩).drop (position + headEnd.length) =
      piece.1.drop (position + headEnd.length) ++ joined later := by
    show (buf ++ joined left).drop _ = _
    rw [hpiece, drop_append_of_le_length (by omega)]
  have hexactBody : (piece.1.drop (position + headEnd.length)).length = length := by
    rw [length_drop]
    omega
  have htake : ((buf ++ Socket.bytes ⟨left, ending⟩).drop (position + headEnd.length)).take length =
      (piece.1.drop (position + headEnd.length)).take length := by
    rw [hbody, take_append_of_le_length (Nat.le_of_eq hexactBody.symm)]
  obtain ⟨interim, hrun, -⟩ := readBody_eq limits head ⟨left, ending⟩ hbuf hsize hheld
  rw [htake, hunread] at hrun
  rw [readRequest_found hread hbuf hsize, hraw, hdeclares.parsed]
  dsimp only
  rw [hdeclares.admitted]
  dsimp only
  rw [hrun, if_neg (by rw [length_take]; omega)]
  refine ⟨_, rfl, rfl, ?_, rfl⟩
  exact drop_of_length_le (by omega)

theorem serves_pieces (h : Follows limits stream requests rest) :
    ∃ pieces, stream = joined pieces ++ rest ∧
      ∀ later ending more last, Serves limits [] ⟨later, ending⟩ more last →
        Serves limits [] ⟨pieces ++ later, ending⟩ (requests ++ more) last := by
  induction h with
  | here stream => exact ⟨[], rfl, fun _ _ _ _ hlater => hlater⟩
  | @next stream position length head requests rest hdeclares hheld hall _ ih =>
    obtain ⟨pieces, hstream, hserves⟩ := ih
    have hpos : 0 < headEnd.length := by decide
    have hlength : (stream.take (position + headEnd.length + length)).length =
        position + headEnd.length + length := by
      rw [length_take]
      omega
    have hne : stream.take (position + headEnd.length + length) ≠ [] := by
      intro hnil
      rw [hnil, length_nil] at hlength
      omega
    have hsplit := take_append_drop (position + headEnd.length + length) stream
    have hpiece : Declares limits (stream.take (position + headEnd.length + length)) position
        head length := by
      refine ⟨?_, hdeclares.bounded, hdeclares.held, ?_, hdeclares.admitted⟩
      · have hfind := hdeclares.ends
        rw [← hsplit] at hfind
        exact (find_append headEnd_ne _ _ position).mpr ⟨hfind, by omega⟩
      · rw [take_take, Nat.min_eq_left (by omega)]
        exact hdeclares.parsed
    have hbody : ((stream.take (position + headEnd.length + length)).drop
        (position + headEnd.length)).take length =
        (stream.drop (position + headEnd.length)).take length := by
      rw [drop_take, take_take]
      congr 1
      omega
    refine ⟨⟨_, hne⟩ :: pieces, ?_, ?_⟩
    · rw [joined_cons, append_assoc, ← hstream, hsplit]
    · intro later ending more last hlater
      obtain ⟨read, hread, hanswer, hcarry, hsocket⟩ :=
        @readRequest_exact _ ⟨_, hne⟩ _ _ _ hpiece hheld hlength (pieces ++ later) ending
      rw [hbody] at hanswer
      refine .request hread hanswer ?_
      rw [hcarry, hsocket]
      exact hserves later ending more last hlater

/-! ## Heads past their bound -/

/-- A head past its bound, on a stream that goes on past it. -/
def Overlong (limits : RequestLimits) (stream : Bytes) : Prop :=
  Over limits.headBytes.get stream ∧ limits.headBytes.get < stream.length ∧
    limits.headBytes.get < isizeMax

/-- The refusal of a head past its bound tells how much had arrived. -/
theorem serves_over {n : ℕ} (hover : Over limits.headBytes.get stream)
    (hreached : limits.headBytes.get ≤ n) (hheld : n ≤ isizeMax) (hn : n ≤ stream.length)
    (ending : Option String) :
    ∃ pieces, joined pieces = stream ∧ Serves limits [] ⟨pieces, ending⟩ [] (some (.failed (.refused
        (headTooLarge (overText (stream.take n)) limits.headBytes.get)))) := by
  have hpos := limits.headBytes.positive
  have hlength : (stream.take n).length = n := by
    rw [length_take]
    omega
  have hne : stream.take n ≠ [] := by
    intro hnil
    rw [hnil, length_nil] at hlength
    omega
  have hsplit := take_append_drop n stream
  have hends : ∀ position, find headEnd (stream.take n) = some position →
      limits.headBytes.get < position + headEnd.length := by
    intro position hposition
    have hfind := find_append_of_eq_some headEnd_ne hposition (stream.drop n)
    rw [hsplit] at hfind
    exact hover.2.2 position hfind
  refine ⟨⟨_, hne⟩ :: whole (stream.drop n), ?_, ?_⟩
  · rw [joined_cons, joined_whole]
    exact hsplit
  · have hread : readHead limits.headBytes.get ending []
        (⟨stream.take n, hne⟩ :: whole (stream.drop n)) =
        some (.ended (.failed (.refused (headTooLarge (overText (stream.take n))
          limits.headBytes.get))), whole (stream.drop n)) := by
      rw [readHead_first hpos, dif_neg (Nat.not_lt.mpr (hlength.le.trans hheld))]
      exact readHead_settled (settled_over (hlength.le.trans hheld) (hreached.trans hlength.ge)
        hends _)
    exact .ended (readRequest_ended hread) rfl

theorem toString_inj {m n : ℕ} (h : toString m = toString n) : m = n := by
  have hdigits : Nat.toDigits 10 m = Nat.toDigits 10 n := by
    have hlists := congrArg String.toList h
    rw [← Nat.toList_repr, ← Nat.toList_repr]
    exact hlists
  have hnumber := congrArg (fun digits => Nat.ofDigitChars 10 digits 0) hdigits
  simp only [Nat.ofDigitChars_ten_toDigits] at hnumber
  exact hnumber

theorem headTooLarge_inj {what what' : String}
    (h : headTooLarge what bound = headTooLarge what' bound) : what = what' := by
  have hsentence := congrArg Refusal.sentence h
  unfold headTooLarge at hsentence
  dsimp only at hsentence
  have hprefix := (String.append_left_inj _).mp hsentence
  have hbound := (String.append_left_inj _).mp hprefix
  have hnumber := (String.append_left_inj _).mp hbound
  have hthe := (String.append_left_inj _).mp hnumber
  exact (String.append_right_inj _).mp hthe

theorem overText_reached (hover : Over bound stream) (hseen : Seen bound stream buf)
    (hlength : buf.length = bound) : overText buf = s!"{bound} bytes without its end reach" := by
  obtain ⟨⟨later, rfl⟩, -, -⟩ := hseen
  have hnone : find headEnd buf = none := by
    cases hfind : find headEnd buf with
    | none => rfl
    | some position =>
      have hpast := hover.2.2 position (find_append_of_eq_some headEnd_ne hfind later)
      have hle := find_eq_some_le hfind
      omega
  rw [overText, hnone, ← hlength]

theorem overText_ne (hlength : buf.length = bound + 1) :
    overText buf ≠ s!"{bound} bytes without its end reach" := by
  unfold overText
  cases find headEnd buf with
  | none =>
    intro heq
    have hnumber := toString_inj ((String.append_left_inj _).mp heq)
    omega
  | some position =>
    intro heq
    have hlast := congrArg (fun text => text.toList.getLast?) heq
    have hpass : (toString " bytes pass").toList.getLast? = some 's' := by decide
    have hreach : (toString " bytes without its end reach").toList.getLast? = some 'h' := by
      decide
    simp only [String.toList_append, List.getLast?_append, hpass, hreach, Option.some_or] at hlast
    cases hlast

/-! ## Ambiguous framing -/

/-- A head with a transfer coding, with two lengths, or with a length that is not
only decimal digits. -/
def Ambiguous (stream : Bytes) : Prop :=
  ∃ position, find headEnd stream = some position ∧
    (namedValues transferEncoding (headLines (stream.take position)) ≠ [] ∨
      2 ≤ (namedValues contentLengthName (headLines (stream.take position))).length ∨
      ∃ value ∈ namedValues contentLengthName (headLines (stream.take position)),
        ¬DigitsOnly value)

def LenientLength (stream : Bytes) (position : ℕ) : Prop :=
  ∃ value ∈ namedValues contentLengthName (headLines (stream.take position)), Lenient value

theorem ambiguous_iff {position length : ℕ} {head : Head}
    (h : Declares limits stream position head length) :
    Ambiguous stream ↔ LenientLength stream position := by
  obtain ⟨huncoded, hlengths⟩ := h.lines
  have hdigits : ∀ value ∈ namedValues contentLengthName (headLines (stream.take position)),
      DigitsOnly value ↔ ¬Lenient value := by
    intro value hvalue
    rcases hlengths with hnone | ⟨one, hone, hparse⟩
    · rw [hnone] at hvalue
      cases hvalue
    · rw [hone] at hvalue
      obtain rfl := mem_singleton.mp hvalue
      exact digitsOnly_iff hparse
  constructor
  · rintro ⟨other, hother, hambiguous⟩
    obtain rfl := Option.some.inj (h.ends.symm.trans hother)
    rcases hambiguous with hcoded | htwo | ⟨value, hvalue, hodd⟩
    · exact absurd huncoded hcoded
    · rcases hlengths with hnone | ⟨one, hone, -⟩
      · rw [hnone] at htwo
        exact absurd htwo (by decide)
      · rw [hone] at htwo
        exact absurd htwo (Nat.not_succ_le_self 1)
    · rw [hdigits value hvalue, not_not] at hodd
      exact ⟨value, hvalue, hodd⟩
  · rintro ⟨value, hvalue, hlenient⟩
    refine ⟨position, h.ends, .inr (.inr ⟨value, hvalue, ?_⟩)⟩
    rw [hdigits value hvalue, not_not]
    exact hlenient

theorem closedHead_refused (h : buf ≠ []) :
    ∃ refusal, closedHead buf = .failed (.refused refusal) := ⟨_, if_neg h⟩

theorem refused_of_undeclared (hfind : find headEnd stream = some position)
    (h : ∀ position head length, ¬Declares limits stream position head length)
    (hlast : Last limits ending stream last) :
    ∃ refusal, last = some (.failed (.refused refusal)) := by
  unfold Last at hlast
  have hle := find_eq_some_le hfind
  by_cases hheld : position + headEnd.length ≤ isizeMax
  · by_cases hbound : position + headEnd.length ≤ limits.headBytes.get
    · rw [frame_found hfind hbound hheld, frameHead] at hlast
      cases hparse : parseHead (stream.take position) with
      | error refusal =>
        rw [hparse] at hlast
        exact ⟨refusal, hlast⟩
      | ok head =>
        rw [hparse] at hlast
        dsimp only at hlast
        cases hlength : head.bodyLength limits with
        | error refusal =>
          rw [hlength] at hlast
          exact ⟨refusal, hlast⟩
        | ok length => exact absurd ⟨hfind, hbound, hheld, hparse, hlength⟩ (h _ _ _)
    · have hframe : frame limits ending stream = .over := by
        rw [frame, find_take.mpr ⟨hfind, hheld⟩]
        exact if_pos (Nat.lt_of_not_le hbound)
      rw [hframe] at hlast
      obtain ⟨buf, -, rfl⟩ := hlast
      exact ⟨_, rfl⟩
  · -- more than a vector holds comes before the head's end
    have hnone : find headEnd (stream.take isizeMax) = none := by
      cases hseen : find headEnd (stream.take isizeMax) with
      | none => rfl
      | some other =>
        obtain ⟨hother, hfits⟩ := find_take.mp hseen
        obtain rfl := Option.some.inj (hfind.symm.trans hother)
        exact absurd hfits hheld
    rw [frame, hnone] at hlast
    dsimp only at hlast
    by_cases hreached : limits.headBytes.get ≤ (stream.take isizeMax).length
    · rw [if_pos hreached] at hlast
      obtain ⟨buf, -, rfl⟩ := hlast
      exact ⟨_, rfl⟩
    · rw [if_neg hreached, if_pos (by omega)] at hlast
      have hne : stream.take isizeMax ≠ [] := by
        intro hnil
        have hlength := congrArg List.length hnil
        rw [length_take, length_nil] at hlength
        have : 0 < isizeMax := by decide
        omega
      obtain ⟨refusal, hrefusal⟩ := closedHead_refused hne
      exact ⟨refusal, hlast.trans (congrArg some hrefusal)⟩

/-! ## Every cut -/

/-- Every cut of a stream gives the same requests and the same end; well-formed
requests are given as they are; and an ambiguous head is refused where it stands. -/
structure CutIndependent (limits : RequestLimits) (ending : Option String) (stream : Bytes) :
    Prop where
  same : ∃ requests last, ∀ socket : Socket, socket.bytes = stream → socket.ending = ending →
    ∀ requests' last', Serves limits [] socket requests' last' ↔ requests' = requests ∧ last' = last
  whole : ∀ segments : List Segment, (∀ segment ∈ segments, segment.WellFormed limits) →
    stream = segments.flatMap bytes → ∃ requests, List.Forall₂ Denotes segments requests ∧
        ∀ socket : Socket, socket.bytes = stream → socket.ending = ending →
          Serves limits [] socket requests (some (drained ending []))
  refused : ∀ requests rest, Follows limits stream requests rest → Ambiguous rest →
    ∀ socket : Socket, socket.bytes = stream → socket.ending = ending →
      ∃ refusal, Serves limits [] socket requests (some (.failed (.refused refusal)))

/-- Nothing that tells cuts apart, or that is framed where it is ambiguous. -/
def Plain (limits : RequestLimits) (stream : Bytes) : Prop :=
  ¬Overlong limits stream ∧ ∀ position head length,
    Declares limits stream position head length → ¬LenientLength stream position

theorem Follows.trans {stream rest rest' : Bytes} {requests later : List Received}
    (h : Follows limits stream requests rest) (h' : Follows limits rest later rest') :
    Follows limits stream (requests ++ later) rest' := by
  induction h with
  | here stream => exact h'
  | next hdeclares hheld hall _ ih => exact .next hdeclares hheld hall (ih h')

/-- Short of a head past its bound, the end is told by the stream. -/
theorem last_unique (hplain : ¬Overlong limits stream)
    (h : Last limits ending stream last) (h' : Last limits ending stream last') : last = last' := by
  unfold Last at h h'
  cases hframe : frame limits ending stream with
  | request received rest =>
    rw [hframe] at h
    cases h
  | «over» =>
    have hover := frame_eq_over hframe
    rw [hframe] at h h'
    obtain ⟨buf, hseen, rfl⟩ := h
    obtain ⟨buf', hseen', rfl⟩ := h'
    have hreached : ∀ buf, Seen limits.headBytes.get stream buf →
        buf.length = limits.headBytes.get := by
      rintro buf ⟨⟨later, rfl⟩, hheld, hlong⟩
      by_contra hpast
      refine hplain ⟨hover, ?_, by omega⟩
      rw [length_append]
      omega
    rw [overText_reached hover hseen (hreached buf hseen),
      overText_reached hover hseen' (hreached buf' hseen')]
  | ended ended =>
    rw [hframe] at h h'
    exact h.trans h'.symm
  | panicked =>
    rw [hframe] at h h'
    exact h.trans h'.symm

theorem follows_segments {segments : List Segment}
    (h : ∀ segment ∈ segments, segment.WellFormed limits) :
    ∃ requests, List.Forall₂ Denotes segments requests ∧
      Follows limits (segments.flatMap bytes) requests [] := by
  induction segments with
  | nil => exact ⟨[], .nil, .here []⟩
  | cons segment segments ih =>
    obtain ⟨requests, hdenotes, hfollows⟩ :=
      ih (fun other hother => h other (mem_cons_of_mem _ hother))
    have hwell := h segment mem_cons_self
    obtain ⟨head, hheads, hdeclares⟩ := declares hwell (segments.flatMap bytes)
    have hbytes : segment.bytes.length = (utf8 segment.headText).length + headEnd.length +
        segment.body.length := by
      rw [bytes, length_append, length_append]
      omega
    have hdrop : (segment.bytes ++ segments.flatMap bytes).drop
        ((utf8 segment.headText).length + headEnd.length) =
        segment.body ++ segments.flatMap bytes := by
      rw [bytes, ← append_assoc (utf8 _), append_assoc _ segment.body, ← length_append, drop_left]
    have hfollowsAll := Follows.next hdeclares hwell.held.2
      (by rw [length_append, hbytes]; omega)
      (by rw [← hbytes, drop_left]; exact hfollows)
    rw [hdrop, take_left] at hfollowsAll
    obtain ⟨hmethod, hpath, hversion, hheaders⟩ := hheads
    exact ⟨_, .cons ⟨hmethod, hpath, hversion, hheaders, rfl⟩ hdenotes, hfollowsAll⟩

theorem stuck_nil (limits : RequestLimits) : Stuck limits [] := by
  intro position head length hdeclares
  cases hdeclares.ends

theorem last_nil (h : Last limits ending [] last) : last = some (drained ending []) := by
  have hframe : frame limits ending [] = .ended (drained ending []) := by
    unfold frame
    show (if limits.headBytes.get ≤ 0 then _ else _) = _
    rw [if_neg (Nat.not_le.mpr limits.headBytes.positive), if_neg (by decide)]
  unfold Last at h
  rw [hframe] at h
  exact h

theorem shortBody_ne_refused (head : Head) (ending : Option String) (count length : ℕ)
    (refusal : Refusal) : shortBody head ending count length ≠ .refused refusal := by
  cases ending <;> exact nofun

theorem declared_not_refused {position length : ℕ}
    {head : Head} {refusal : Refusal} (hfollows : Follows limits stream requests rest)
    (hdeclares : Declares limits rest position head length) {socket : Socket}
    (hstream : socket.bytes = stream) :
    ¬Serves limits [] socket requests (some (.failed (.refused refusal))) := by
  intro hserves
  by_cases hwhole : length ≤ isizeMax ∧ position + headEnd.length + length ≤ rest.length
  · obtain ⟨more, rest', hlater, hstuck⟩ :=
      follows_stuck limits (rest.drop (position + headEnd.length + length))
    obtain ⟨last, hall, -⟩ := serves_stream
      (hfollows.trans (.next hdeclares hwhole.1 hwhole.2 hlater)) hstuck hstream
    have hlength := congrArg List.length (hserves.unique hall).1
    rw [length_append, length_cons] at hlength
    omega
  · have hstuck : Stuck limits rest := by
      intro other head' length' hdeclares'
      obtain ⟨rfl, rfl, rfl⟩ := hdeclares.unique hdeclares'
      omega
    obtain ⟨last, hall, hlast⟩ := serves_stream hfollows hstuck hstream
    obtain rfl := (hserves.unique hall).2
    unfold Last at hlast
    rw [frame_found hdeclares.ends hdeclares.bounded hdeclares.held,
      frameHead_declares hdeclares] at hlast
    by_cases hroom : isizeMax < length
    · rw [if_pos hroom] at hlast
      cases hlast
    · have hle := find_eq_some_le hdeclares.ends
      rw [if_neg hroom, if_pos (by rw [length_take, length_drop]; omega)] at hlast
      have herror := Ended.failed.inj (Option.some.inj hlast)
      exact shortBody_ne_refused _ _ _ _ _ herror.symm

/-- The framing of a stream is independent of its cuts, and refuses what is
ambiguous, exactly when no head of it passes the bound with more to come, and no
accepted head states its length with a sign or with white space of another kind. -/
theorem cuts_ignored (limits : RequestLimits) (ending : Option String) (stream : Bytes) :
    CutIndependent limits ending stream ↔
      ∀ requests rest, Follows limits stream requests rest → Plain limits rest := by
  constructor
  · intro h requests rest hfollows
    constructor
    · rintro ⟨hover, hlonger, hroom⟩
      -- the same requests, then two cuts of the head past its bound
      obtain ⟨pieces, hstream, hserves⟩ := serves_pieces hfollows
      obtain ⟨requests', last', hsame⟩ := h.same
      have hcut : ∀ n, limits.headBytes.get ≤ n → n ≤ isizeMax → n ≤ rest.length →
          some (.failed (.refused (headTooLarge (overText (rest.take n))
            limits.headBytes.get))) = last' := by
        intro n hreached hheld hn
        obtain ⟨later, hlater, hlast⟩ := serves_over hover hreached hheld hn ending
        have hall := hserves later ending [] _ hlast
        refine ((hsame ⟨pieces ++ later, ending⟩ ?_ rfl _ _).mp hall).2
        show joined (pieces ++ later) = stream
        rw [joined_append, hlater, hstream]
      have hfirst := hcut limits.headBytes.get le_rfl (by omega) (by omega)
      have hsecond := hcut (limits.headBytes.get + 1) (by omega) (by omega) (by omega)
      have htexts := headTooLarge_inj (ReadError.refused.inj (Ended.failed.inj
        (Option.some.inj (hsecond.trans hfirst.symm))))
      have htake : ∀ n ≤ rest.length, (rest.take n).length = n := by
        intro n hn
        rw [length_take]
        omega
      have hseen : Seen limits.headBytes.get rest (rest.take limits.headBytes.get) := by
        refine ⟨⟨_, (take_append_drop _ _).symm⟩, ?_, ?_⟩
        · rw [htake _ (by omega)]
          omega
        · rw [htake _ (by omega)]
      rw [overText_reached hover hseen (htake _ (by omega))] at htexts
      exact overText_ne (htake _ (by omega)) htexts
    · intro position head length hdeclares hlenient
      have hbytes : Socket.bytes ⟨whole stream, ending⟩ = stream := joined_whole stream
      obtain ⟨refusal, hserves⟩ := h.refused requests rest hfollows
        ((ambiguous_iff hdeclares).mpr hlenient) ⟨whole stream, ending⟩ hbytes rfl
      exact declared_not_refused hfollows hdeclares hbytes hserves
  · intro h
    obtain ⟨requests, rest, hfollows, hstuck⟩ := follows_stuck limits stream
    refine ⟨?_, ?_, ?_⟩
    · obtain ⟨last, -, hlast⟩ := @serves_stream _ _ _ _ hfollows hstuck
        ⟨whole stream, ending⟩ (joined_whole stream)
      refine ⟨requests, last, ?_⟩
      rintro socket hstream rfl requests' last'
      obtain ⟨last'', hserves, hlast''⟩ := serves_stream hfollows hstuck hstream
      obtain rfl := last_unique (h requests rest hfollows).1 hlast hlast''
      constructor
      · exact fun hserves' => hserves'.unique hserves
      · rintro ⟨rfl, rfl⟩
        exact hserves
    · rintro segments hwell rfl
      obtain ⟨requests', hdenotes, hsegments⟩ := follows_segments hwell
      refine ⟨requests', hdenotes, ?_⟩
      rintro socket hstream rfl
      obtain ⟨last, hserves, hlast⟩ := serves_stream hsegments (stuck_nil limits) hstream
      rw [last_nil hlast] at hserves
      exact hserves
    · rintro requests' rest' hfollows' hambiguous socket hstream rfl
      have hundeclared : ∀ position head length, ¬Declares limits rest' position head length := by
        intro position head length hdeclares
        exact (h requests' rest' hfollows').2 position head length hdeclares
          ((ambiguous_iff hdeclares).mp hambiguous)
      obtain ⟨position, hfind, -⟩ := hambiguous
      have hstuck' : Stuck limits rest' := fun position head length hdeclares =>
        absurd hdeclares (hundeclared position head length)
      obtain ⟨last, hserves, hlast⟩ := serves_stream hfollows' hstuck' hstream
      obtain ⟨refusal, rfl⟩ := refused_of_undeclared hfind hundeclared hlast
      exact ⟨refusal, hserves⟩

def signedPost : Socket := delivers "POST /x HTTP/1.1\r\nContent-Length: +3\r\n\r\nabc"

def Answer.isRequest : Answer → Bool
  | .request _ => true
  | .ended _ => false

theorem signedPost_ambiguous : Ambiguous signedPost.bytes := by
  have hfind : find headEnd signedPost.bytes = some 36 := by decide +kernel
  have hvalues : namedValues contentLengthName (headLines (signedPost.bytes.take 36)) =
      [" +3".toList] := by decide +kernel
  refine ⟨36, hfind, .inr (.inr ⟨" +3".toList, ?_, ?_⟩)⟩
  · rw [hvalues]
    exact mem_singleton_self _
  · rintro ⟨-, hdigits⟩
    revert hdigits
    decide

/-- A length written with a sign is framed, and its request served. -/
theorem signedPost_framed : ¬CutIndependent kilobytes none signedPost.bytes := by
  intro h
  obtain ⟨refusal, hserves⟩ :=
    h.refused [] signedPost.bytes (.here _) signedPost_ambiguous signedPost rfl rfl
  have hrequest : (readRequest kilobytes [] signedPost).map (fun read => read.answer.isRequest) =
      some true := by decide +kernel
  cases hserves with
  | ended hread hanswer =>
    rw [hread, Option.map_some, hanswer] at hrequest
    cases hrequest

end Stado.Http
