import Mathlib.Algebra.Order.BigOperators.Group.List
import Mathlib.Tactic.Ring

/-!
# A cursor shared by overlapping walks

Walks read a shared cursor when they start and set it when they end; at most
`m` are under way at once, and they end in any order, so the cursor can move
back. A walk that starts at distance `d` from a goal and does not reach it ends
nearer to it. The potential of the walks under way falls with every walk that
ends, so at most `m * (m + 1) ^ n` walks end before one reaches a goal at
distance `n`.
-/

namespace Rotation

open List

variable {Cursor : Type} (m : ℕ) (distance : Cursor → ℕ)

/-- What one distance is worth: more than `m` times each smaller one. -/
def weight (d : ℕ) : ℕ := (m + 1) ^ d

/-- A walk under way is worth the larger of the distance it started at and the
cursor's, at which it may be started anew. -/
def worth (cursor origin : Cursor) : ℕ :=
  max (weight m (distance origin)) (weight m (distance cursor))

/-- The worth of the walks under way, and of those that may yet be started. -/
def potential (cursor : Cursor) (origins : List Cursor) : ℕ :=
  (origins.map (worth m distance cursor)).sum + (m - origins.length) * weight m (distance cursor)

variable {m distance} {cursor next origin : Cursor} {origins : List Cursor} {i n : ℕ}

theorem weight_mono {d e : ℕ} (h : d ≤ e) : weight m d ≤ weight m e :=
  Nat.pow_le_pow_right (Nat.succ_pos m) h

theorem weight_lt {d e : ℕ} (h : d < e) : (m + 1) * weight m d ≤ weight m e := by
  unfold weight
  rw [← Nat.pow_succ']
  exact Nat.pow_le_pow_right (Nat.succ_pos m) h

theorem potential_start (h : origins.length < m) :
    potential m distance cursor (origins ++ [cursor]) = potential m distance cursor origins := by
  unfold potential worth
  rw [map_append, sum_append, map_singleton, sum_singleton, max_self,
    length_append, length_singleton]
  obtain ⟨k, hk⟩ : ∃ k, m - origins.length = k + 1 := ⟨m - origins.length - 1, by omega⟩
  have hk' : m - (origins.length + 1) = k := by omega
  rw [hk, hk']
  ring

/-- The walk `i` set apart. -/
theorem potential_split (hi : origins[i]? = some origin) :
    potential m distance cursor origins = worth m distance cursor origin +
        ((origins.eraseIdx i).map (worth m distance cursor)).sum +
        (m - origins.length) * weight m (distance cursor) := by
  obtain ⟨hlt, rfl⟩ := List.getElem?_eq_some_iff.mp hi
  unfold potential
  have hlt' : i < (origins.map (worth m distance cursor)).length := by
    rwa [length_map]
  rw [← add_sum_eraseIdx hlt' fun _ _ => AddCommute.all _ _, getElem_map, eraseIdx_map]

theorem length_eraseIdx (hi : origins[i]? = some origin) :
    (origins.eraseIdx i).length + 1 = origins.length := by
  obtain ⟨hlt, -⟩ := List.getElem?_eq_some_iff.mp hi
  rw [length_eraseIdx_of_lt hlt]
  omega

/-- A walk that fails may be started anew at the cursor. -/
theorem potential_fail (hi : origins[i]? = some origin) (h : origins.length ≤ m) :
    potential m distance cursor (origins.eraseIdx i) ≤ potential m distance cursor origins := by
  have hlength := length_eraseIdx hi
  have hworth : weight m (distance cursor) ≤ worth m distance cursor origin := Nat.le_max_right _ _
  rw [potential_split hi]
  unfold potential
  have hk : m - (origins.eraseIdx i).length = m - origins.length + 1 := by omega
  rw [hk, Nat.add_mul, Nat.one_mul]
  omega

theorem sum_worth_le (m : ℕ) (distance : Cursor → ℕ) (cursor next : Cursor) (origins : List Cursor) :
    (origins.map (worth m distance next)).sum ≤ (origins.map (worth m distance cursor)).sum +
        origins.length * (weight m (distance next) - weight m (distance cursor)) := by
  induction origins with
  | nil => simp
  | cons origin rest ih =>
    rw [map_cons, sum_cons, map_cons, sum_cons, length_cons, Nat.add_mul, Nat.one_mul]
    have hone : worth m distance next origin ≤ worth m distance cursor origin +
          (weight m (distance next) - weight m (distance cursor)) := by
      unfold worth
      omega
    omega

/-- A walk that ends nearer than it started lowers the potential, wherever the
others moved the cursor meanwhile. -/
theorem potential_finish (hi : origins[i]? = some origin) (h : origins.length ≤ m)
    (hnearer : distance next < distance origin) :
    potential m distance next (origins.eraseIdx i) < potential m distance cursor origins := by
  have hlength := length_eraseIdx hi
  have hweight := weight_lt (m := m) hnearer
  have hpos : 0 < weight m (distance next) := Nat.pow_pos (Nat.succ_pos m)
  have hworth : weight m (distance origin) ≤ worth m distance cursor origin := Nat.le_max_left _ _
  have hcursor : weight m (distance cursor) ≤ worth m distance cursor origin := Nat.le_max_right _ _
  have hothers := sum_worth_le m distance cursor next (origins.eraseIdx i)
  rw [potential_split hi]
  unfold potential
  set later := weight m (distance next)
  set now := weight m (distance cursor)
  obtain ⟨k, rfl⟩ : ∃ k, m = (origins.eraseIdx i).length + 1 + k :=
    ⟨m - ((origins.eraseIdx i).length + 1), by omega⟩
  rw [← hlength, Nat.add_sub_cancel_left,
    show (origins.eraseIdx i).length + 1 + k - (origins.eraseIdx i).length = k + 1 by omega]
  set others := (origins.eraseIdx i).length
  have hmany : (others + 1 + k + 1) * later = others * later + (k + 1) * later + later := by ring
  rcases Nat.le_total later now with hle | hle
  · -- the cursor is not farther away than before
    have hsub : others * (later - now) = 0 := by rw [Nat.sub_eq_zero_of_le hle, Nat.mul_zero]
    have hk : k * later ≤ k * now := Nat.mul_le_mul_left k hle
    have hk' : (k + 1) * later = k * later + later := by ring
    omega
  · -- the cursor moved back: the finished walk alone outweighs the others there
    have hsub : others * (later - now) ≤ others * later := Nat.mul_le_mul_left _ (Nat.sub_le _ _)
    omega

theorem potential_le (h : ∀ cursor, distance cursor ≤ n) (hlength : origins.length ≤ m) :
    potential m distance cursor origins ≤ m * (m + 1) ^ n := by
  have hweight (cursor : Cursor) : weight m (distance cursor) ≤ (m + 1) ^ n :=
    weight_mono (h cursor)
  have hsum : (origins.map (worth m distance cursor)).sum ≤ origins.length * (m + 1) ^ n := by
    refine le_trans (sum_le_card_nsmul _ ((m + 1) ^ n) ?_) ?_
    · intro x hx
      obtain ⟨origin, -, rfl⟩ := List.mem_map.mp hx
      exact max_le (hweight origin) (hweight cursor)
    · simp
  have hrest : (m - origins.length) * weight m (distance cursor) ≤
      (m - origins.length) * (m + 1) ^ n := Nat.mul_le_mul_left _ (hweight cursor)
  calc potential m distance cursor origins
      ≤ origins.length * (m + 1) ^ n + (m - origins.length) * (m + 1) ^ n :=
        Nat.add_le_add hsum hrest
    _ = m * (m + 1) ^ n := by
        rw [← Nat.add_mul]
        congr 1
        omega

end Rotation
