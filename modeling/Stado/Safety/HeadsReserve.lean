import Stado.Http.ReadingSpecs

/-!
# What a request head makes the listener reserve

Every step of a call is defined and the space it reserves for a body is bounded,
unless a head that declares more than its bytes that arrive goes to a route with
no bound, or declares more than a vector holds: that panics the one task every
connection is served on.
-/

namespace Stado.Http

open Sigv4

variable {limits : RequestLimits} {head : Head}

inductive Calls (limits : RequestLimits) (connection : Socket) : Bytes → Socket → Prop
  | first : Calls limits connection [] connection
  | next {carry : Bytes} {left : Socket} {read : Read} {received : Received}
      (h : Calls limits connection carry left) (hread : readRequest limits carry left = some read)
      (hrequest : read.answer = .request received) :
      Calls limits connection read.carry read.socket

/-- What a request leaves to the next one is held in a vector. -/
theorem readRequest_carry {carry : Bytes} {socket : Socket} {read : Read} {received : Received}
    (hcarry : carry.length ≤ isizeMax) (hread : readRequest limits carry socket = some read)
    (hrequest : read.answer = .request received) : read.carry.length ≤ isizeMax := by
  have hanswers := readRequest_frame limits carry socket hcarry
  rw [hread] at hanswers
  cases hframe : frame limits socket.ending (carry ++ socket.bytes) with
  | request other rest =>
    rw [hframe] at hanswers
    obtain ⟨found, hfound, -, -, hheld, -⟩ := hanswers
    obtain rfl := Option.some.inj hfound
    exact hheld
  | «over» =>
    rw [hframe] at hanswers
    obtain ⟨found, buf, hfound, -, hended⟩ := hanswers
    obtain rfl := Option.some.inj hfound
    rw [hrequest] at hended
    cases hended
  | ended last =>
    rw [hframe] at hanswers
    obtain ⟨found, hfound, hended⟩ := hanswers
    obtain rfl := Option.some.inj hfound
    rw [hrequest] at hended
    cases hended
  | panicked =>
    rw [hframe] at hanswers
    cases hanswers

theorem Calls.held {connection left : Socket} {carry : Bytes}
    (h : Calls limits connection carry left) : carry.length ≤ isizeMax := by
  induction h with
  | first => exact Nat.zero_le _
  | next _ hread hrequest ih => exact readRequest_carry ih hread hrequest

/-! ## Reservations -/

/-- The space is what the route's limits admit, or bytes of the stream fill it. -/
def Reservation.Bounded (reservation : Reservation) (stream : Bytes) : Prop :=
  (∃ most, reservation.bound = some most ∧ reservation.space ≤ most) ∨
    reservation.start + reservation.space ≤ stream.length

/-- Every step is defined, and what is reserved is bounded. -/
def Guarded (stream : Bytes) (read : Option Read) : Prop :=
  ∃ found, read = some found ∧
    ∀ reservation, found.reserved = some reservation → reservation.Bounded stream

/-- A route that sets no size of its own on a body. -/
def Head.boundless (head : Head) : Bool := head.objectPut || head.objectCompose || head.s3Request

theorem maxBodyBytes_boundless (h : head.boundless = true) : head.maxBodyBytes limits = none := by
  rw [Head.maxBodyBytes]
  exact if_pos h

theorem maxBodyBytes_bounded (h : head.boundless = false) :
    ∃ most, head.maxBodyBytes limits = some most := by
  unfold Head.boundless at h
  unfold Head.maxBodyBytes
  rw [h, if_neg Bool.false_ne_true]
  split_ifs <;> exact ⟨_, rfl⟩

/-- A declared length is within what the route's limits admit. -/
theorem bodyLength_le {length most : ℕ} (h : head.bodyLength limits = .ok length)
    (hmost : head.maxBodyBytes limits = some most) : length ≤ most := by
  unfold Head.bodyLength at h
  obtain ⟨declared, -, h⟩ := Checks.bind_eq_ok.mp h
  rw [hmost] at h
  dsimp only at h
  split_ifs at h with hover
  obtain rfl := Except.ok.inj h
  exact Nat.le_of_not_lt hover

theorem readBody_reserved {buf : Bytes} {bodyStart length : ℕ} (socket : Socket)
    (hstart : bodyStart ≤ buf.length) (hsize : buf.length ≤ isizeMax) (hlength : length ≤ isizeMax) :
    ∃ found, readBody limits head buf bodyStart length socket = some found ∧
      found.reserved = some ⟨bodyStart, length, head.maxBodyBytes limits⟩ := by
  obtain ⟨interim, hbody, -⟩ := readBody_eq limits head socket hstart hsize hlength
  refine ⟨_, hbody, ?_⟩
  split_ifs <;> rfl

/-- A call of any connection is guarded exactly when an accepted head declares no
more than a vector holds, and, on a route with no bound, no more than follows it. -/
theorem heads_reserve {connection left : Socket} {carry : Bytes}
    (h : Calls limits connection carry left) :
    Guarded (carry ++ left.bytes) (readRequest limits carry left) ↔
      ∀ position head length, Declares limits (carry ++ left.bytes) position head length →
        length ≤ isizeMax ∧ (head.boundless = true →
          position + headEnd.length + length ≤ (carry ++ left.bytes).length) := by
  generalize hread : readRequest limits carry left = read
  rcases hread ▸ readRequest_cases limits carry left h.held with
    ⟨last, rest, rfl, hundeclared, -⟩ |
    ⟨position, head, length, buf, rest, hdeclares, hbuf, hsize, -, rfl⟩
  · refine iff_of_true ⟨_, rfl, nofun⟩ ?_
    intro position head length hdeclares
    exact absurd hdeclares (hundeclared position head length)
  · constructor
    · rintro ⟨found, hfound, hbounded⟩ other head' length' hdeclares'
      obtain ⟨rfl, rfl, rfl⟩ := hdeclares.unique hdeclares'
      have hlength : length ≤ isizeMax := by
        by_contra hroom
        rw [readBody_panics _ _ _ _ _ (Nat.lt_of_not_le hroom)] at hfound
        cases hfound
      refine ⟨hlength, ?_⟩
      intro hboundless
      obtain ⟨found', hfound', hreserved⟩ := @readBody_reserved limits head _ _ _
        ⟨rest, left.ending⟩ hbuf hsize hlength
      obtain rfl := Option.some.inj (hfound.symm.trans hfound')
      rcases hbounded _ hreserved with ⟨most, hmost, -⟩ | hfollows
      · rw [maxBodyBytes_boundless hboundless] at hmost
        cases hmost
      · exact hfollows
    · intro hcondition
      obtain ⟨hlength, hboundless⟩ := hcondition position head length hdeclares
      obtain ⟨found, hfound, hreserved⟩ := @readBody_reserved limits head _ _ _
        ⟨rest, left.ending⟩ hbuf hsize hlength
      refine ⟨found, hfound, ?_⟩
      intro reservation hreservation
      obtain rfl := Option.some.inj (hreserved.symm.trans hreservation)
      cases hroute : head.boundless with
      | true => exact .inr (hboundless hroute)
      | false =>
        obtain ⟨most, hmost⟩ := @maxBodyBytes_bounded limits _ hroute
        exact .inl ⟨most, hmost, bodyLength_le hdeclares.admitted hmost⟩

def smallPost : Socket := delivers "POST /x HTTP/1.1\r\nContent-Length: 3\r\n\r\nabc"

theorem smallPost_reserve :
    Guarded ([] ++ smallPost.bytes) (readRequest kilobytes [] smallPost) ∧
    ∀ position head length, Declares kilobytes ([] ++ smallPost.bytes) position head length →
      length ≤ isizeMax ∧ (head.boundless = true →
        position + headEnd.length + length ≤ ([] ++ smallPost.bytes).length) := by
  refine (and_iff_left_of_imp (heads_reserve .first).mp).mpr ?_
  have hreserved : (readRequest kilobytes [] smallPost).map Read.reserved =
      some (some ⟨39, 3, some 1024⟩) := by decide +kernel
  obtain ⟨found, hfound, hspace⟩ := Option.map_eq_some_iff.mp hreserved
  refine ⟨found, hfound, ?_⟩
  intro reservation hreservation
  obtain rfl := Option.some.inj (hspace.symm.trans hreservation)
  exact .inl ⟨1024, rfl, by decide⟩

/-- A head that declares more than a vector holds, on a route with no bound. -/
def hugePut : Socket :=
  delivers "PUT /s3/bucket/key HTTP/1.1\r\nContent-Length: 9223372036854775808\r\n\r\n"

theorem hugePut_panics : ¬Guarded ([] ++ hugePut.bytes) (readRequest kilobytes [] hugePut) := by
  have hnone : (readRequest kilobytes [] hugePut).isNone = true := by decide +kernel
  rintro ⟨found, hfound, -⟩
  rw [hfound] at hnone
  cases hnone

end Stado.Http
