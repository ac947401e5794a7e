import Mathlib.Data.List.Basic

/-!
# Streams cut into pieces

A stream arrives as pieces, none of them empty. Taking a number of elements off
it gives the same however it was cut, and a needle found in what has arrived is
found at the same place in the whole stream.
-/

namespace Cuts

open List Option

variable {α : Type*}

/-! ## Pieces -/

/-- What one read finds: never nothing. -/
abbrev Piece (α : Type*) := {piece : List α // piece ≠ []}

/-- The stream that pieces make up. -/
def joined (pieces : List (Piece α)) : List α := pieces.flatMap Subtype.val

@[simp] theorem joined_nil : joined ([] : List (Piece α)) = [] := rfl

@[simp] theorem joined_cons (piece : Piece α) (later : List (Piece α)) :
    joined (piece :: later) = piece.1 ++ joined later := rfl

theorem joined_append (pieces later : List (Piece α)) :
    joined (pieces ++ later) = joined pieces ++ joined later :=
  flatMap_append

def whole (stream : List α) : List (Piece α) :=
  match stream with
  | [] => []
  | a :: later => [⟨a :: later, cons_ne_nil a later⟩]

@[simp] theorem joined_whole (stream : List α) : joined (whole stream) = stream := by
  cases stream with
  | nil => rfl
  | cons a later => exact append_nil _

/-- What is left of a piece after its first elements. -/
def Piece.rest (piece : Piece α) (n : ℕ) (h : n < piece.1.length) : Piece α :=
  ⟨piece.1.drop n, by rw [Ne, drop_eq_nil_iff]; omega⟩

/-- The next `n` elements of a stream, fewer where it ends. -/
def receive : List (Piece α) → ℕ → List α × List (Piece α)
  | [], _ => ([], [])
  | piece :: later, n =>
    if n = 0 then ([], piece :: later)
    else if h : n < piece.1.length then (piece.1.take n, piece.rest n h :: later)
    else
      let (got, left) := receive later (n - piece.1.length)
      (piece.1 ++ got, left)

/-- However a stream is cut, the same elements are received and the same left. -/
theorem receive_eq (pieces : List (Piece α)) (n : ℕ) :
    (receive pieces n).1 = (joined pieces).take n ∧
      joined (receive pieces n).2 = (joined pieces).drop n := by
  induction pieces generalizing n with
  | nil => simp [receive]
  | cons piece later ih =>
    unfold receive
    split_ifs with hnone hpart
    · subst hnone
      exact ⟨rfl, rfl⟩
    · refine ⟨?_, ?_⟩
      · rw [joined_cons, take_append_of_le_length (Nat.le_of_lt hpart)]
      · rw [joined_cons, joined_cons, drop_append_of_le_length (Nat.le_of_lt hpart)]
        rfl
    · have hle : piece.1.length ≤ n := Nat.le_of_not_lt hpart
      obtain ⟨hgot, hleft⟩ := ih (n - piece.1.length)
      refine ⟨?_, ?_⟩
      · show piece.1 ++ _ = _
        rw [hgot, joined_cons, take_append, take_of_length_le hle]
      · show joined (receive later (n - piece.1.length)).2 = _
        rw [hleft, joined_cons, drop_append, drop_of_length_le hle, nil_append]

@[simp] theorem receive_zero (pieces : List (Piece α)) : receive pieces 0 = ([], pieces) := by
  cases pieces with
  | nil => rfl
  | cons piece later => exact if_pos rfl

theorem receive_piece (piece : Piece α) (later : List (Piece α)) :
    (receive (piece :: later) piece.1.length).2 = later := by
  have hpos : 0 < piece.1.length := length_pos_iff.mpr piece.2
  rw [receive, if_neg (Nat.ne_of_gt hpos), dif_neg (Nat.lt_irrefl _), Nat.sub_self, receive_zero]

/-! ## Needles -/

variable [DecidableEq α] {needle : List α}

/-- Where a needle first starts. -/
def find (needle : List α) : List α → Option ℕ
  | [] => none
  | a :: later => if needle <+: a :: later then some 0 else (find needle later).map (· + 1)

theorem find_cons (needle : List α) (a : α) (later : List α) :
    find needle (a :: later) =
      if needle <+: a :: later then some 0 else (find needle later).map (· + 1) := rfl

variable {stream : List α} {n : ℕ}

theorem find_eq_some_le (h : find needle stream = some n) : n + needle.length ≤ stream.length := by
  induction stream generalizing n with
  | nil => cases h
  | cons a later ih =>
    rw [find_cons] at h
    split_ifs at h with hhere
    · obtain rfl := Option.some.inj h
      rw [Nat.zero_add]
      exact hhere.length_le
    · obtain ⟨m, hm, rfl⟩ := map_eq_some_iff.mp h
      have hle := ih hm
      rw [length_cons]
      omega

theorem prefix_of_find (h : find needle stream = some n) : needle <+: stream.drop n := by
  induction stream generalizing n with
  | nil => cases h
  | cons a later ih =>
    rw [find_cons] at h
    split_ifs at h with hhere
    · obtain rfl := Option.some.inj h
      exact hhere
    · obtain ⟨m, hm, rfl⟩ := map_eq_some_iff.mp h
      exact ih hm

theorem find_cons_ne {a b : α} (h : a ≠ b) (needle stream : List α) :
    find (b :: needle) (a :: stream) = (find (b :: needle) stream).map (· + 1) := by
  rw [find_cons, if_neg]
  intro hprefix
  exact h (cons_prefix_cons.mp hprefix).1.symm

/-- What has arrived decides where the needle is, once it holds it. -/
theorem find_append (hneedle : needle ≠ []) (stream later : List α) (n : ℕ) :
    find needle stream = some n ↔
      find needle (stream ++ later) = some n ∧ n + needle.length ≤ stream.length := by
  have hpos : 0 < needle.length := length_pos_iff.mpr hneedle
  induction stream generalizing n with
  | nil =>
    refine iff_of_false nofun ?_
    rintro ⟨-, hle⟩
    rw [length_nil] at hle
    omega
  | cons a stream ih =>
    rw [cons_append, find_cons, find_cons, length_cons]
    by_cases hhere : needle <+: a :: stream
    · have hwhole : needle <+: a :: (stream ++ later) :=
        hhere.trans (prefix_append (a :: stream) later)
      have hle : needle.length ≤ stream.length + 1 := hhere.length_le
      rw [if_pos hhere, if_pos hwhole]
      constructor
      · rintro heq
        obtain rfl := Option.some.inj heq
        exact ⟨rfl, by omega⟩
      · exact And.left
    · rw [if_neg hhere]
      by_cases hwhole : needle <+: a :: (stream ++ later)
      · -- the needle starts here, but has not all arrived
        rw [if_pos hwhole]
        have hlong : stream.length + 1 < needle.length := by
          by_contra hle
          refine hhere (prefix_of_prefix_length_le hwhole
            (prefix_append (a :: stream) later) ?_)
          rw [length_cons]
          omega
        refine iff_of_false ?_ ?_
        · intro heq
          obtain ⟨m, hm, rfl⟩ := map_eq_some_iff.mp heq
          have hle := find_eq_some_le hm
          omega
        · rintro ⟨heq, hle⟩
          omega
      · rw [if_neg hwhole]
        constructor
        · intro heq
          obtain ⟨m, hm, rfl⟩ := map_eq_some_iff.mp heq
          obtain ⟨hfound, hle⟩ := (ih m).mp hm
          exact ⟨by rw [hfound]; rfl, by omega⟩
        · rintro ⟨heq, hle⟩
          obtain ⟨m, hm, rfl⟩ := map_eq_some_iff.mp heq
          rw [(ih m).mpr ⟨hm, by omega⟩]
          rfl

/-- A needle found is found in everything that arrives after. -/
theorem find_append_of_eq_some (hneedle : needle ≠ []) (h : find needle stream = some n)
    (later : List α) : find needle (stream ++ later) = some n :=
  ((find_append hneedle stream later n).mp h).1

/-- A needle not found yet ends in what arrives later. -/
theorem lt_of_find_append (hneedle : needle ≠ []) {later : List α}
    (hnone : find needle stream = none) (h : find needle (stream ++ later) = some n) :
    stream.length < n + needle.length := by
  by_contra hle
  have hfound := (find_append hneedle stream later n).mpr ⟨h, Nat.le_of_not_lt hle⟩
  rw [hnone] at hfound
  cases hfound

end Cuts
