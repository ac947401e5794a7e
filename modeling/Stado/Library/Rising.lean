import Mathlib.Algebra.Order.Group.Int
import Mathlib.Data.List.Induction

/-!
# Rising readings

A history in which every counted step reads more of one of two quantities than
every earlier step read of it. Each such step raises the height of one of the
two, so bounded readings bound how many there are.
-/

namespace Rising

open List

variable {α : Type*}

/-- A step reads more than every earlier one read. -/
def Rises (reading : α → Option ℤ) (earlier : List α) (a : α) : Prop :=
  ∃ n, reading a = some n ∧ ∀ e ∈ earlier, ∀ m, reading e = some m → m < n

/-- How far above `low` the largest reading stands; nothing read is no height. -/
def height (reading : α → Option ℤ) (low : ℤ) (history : List α) : ℕ :=
  history.foldl (fun h a => max h (((reading a).map fun n => (n - low + 1).toNat).getD 0)) 0

theorem height_append (reading : α → Option ℤ) (low : ℤ) (history : List α) (a : α) :
    height reading low (history ++ [a]) = max (height reading low history)
      (((reading a).map fun n => (n - low + 1).toNat).getD 0) := by
  rw [height, foldl_append]
  rfl

variable {reading other : α → Option ℤ} {low high : ℤ} {history : List α} {a : α}
  {counted : α → Bool}

theorem height_lt {n : ℤ} (hlow : low ≤ n) (h : ∀ e ∈ history, ∀ m, reading e = some m → m < n) :
    height reading low history < (n - low + 1).toNat := by
  induction history using List.reverseRecOn with
  | nil =>
    show 0 < (n - low + 1).toNat
    omega
  | append_singleton history e ih =>
    have hearlier := ih fun d hd => h d (mem_append_left [e] hd)
    rw [height_append, max_lt_iff]
    refine ⟨hearlier, ?_⟩
    cases hread : reading e with
    | none =>
      show 0 < (n - low + 1).toNat
      omega
    | some m =>
      have hm := h e (by simp) m hread
      show (m - low + 1).toNat < (n - low + 1).toNat
      omega

/-- A step that reads more raises the height. -/
theorem height_rises (hlow : ∀ n, reading a = some n → low ≤ n) (h : Rises reading history a) :
    height reading low history + 1 ≤ height reading low (history ++ [a]) := by
  obtain ⟨n, hread, hmore⟩ := h
  have hlt := height_lt (hlow n hread) hmore
  rw [height_append, hread]
  exact hlt.trans_le (le_max_right _ _)

theorem height_mono : height reading low history ≤ height reading low (history ++ [a]) := by
  rw [height_append]
  exact le_max_left _ _

theorem height_le (h : ∀ e ∈ history, ∀ n, reading e = some n → n ≤ high) :
    height reading low history ≤ (high - low + 1).toNat := by
  induction history using List.reverseRecOn with
  | nil => exact Nat.zero_le _
  | append_singleton history e ih =>
    rw [height_append, max_le_iff]
    refine ⟨ih fun d hd => h d (mem_append_left [e] hd), ?_⟩
    cases hread : reading e with
    | none => exact Nat.zero_le _
    | some n =>
      have hn := h e (by simp) n hread
      show (n - low + 1).toNat ≤ (high - low + 1).toNat
      omega

theorem count_le_heights {early later : List α}
    (hlow : ∀ e ∈ later, ∀ n, reading e = some n ∨ other e = some n → low ≤ n)
    (hrises : ∀ before e after, later = before ++ e :: after → counted e = true →
      Rises reading (early ++ before) e ∨ Rises other (early ++ before) e) :
    later.countP counted ≤
      height reading low (early ++ later) + height other low (early ++ later) := by
  induction later using List.reverseRecOn with
  | nil => exact Nat.zero_le _
  | append_singleton later e ih =>
    have hearlier := ih (fun d hd => hlow d (mem_append_left [e] hd)) (by
      intro before d after hsplit hcounted
      refine hrises before d (after ++ [e]) ?_ hcounted
      rw [hsplit, append_assoc, cons_append])
    have hlast := hlow e (by simp)
    have hreading := @height_mono _ reading low (early ++ later) e
    have hother := @height_mono _ other low (early ++ later) e
    rw [countP_append, countP_singleton, ← append_assoc]
    by_cases hcounted : counted e = true
    · rw [if_pos hcounted]
      rcases hrises later e [] rfl hcounted with hrise | hrise
      · have := height_rises (fun n hn => hlast n (.inl hn)) hrise
        omega
      · have := height_rises (fun n hn => hlast n (.inr hn)) hrise
        omega
    · rw [if_neg hcounted]
      omega

/-- Bounded readings bound how many steps read more than every earlier one. -/
theorem count_le {early later : List α}
    (hbounds : ∀ e ∈ early ++ later, ∀ n, reading e = some n ∨ other e = some n →
      low ≤ n ∧ n ≤ high)
    (hrises : ∀ before e after, later = before ++ e :: after → counted e = true →
      Rises reading (early ++ before) e ∨ Rises other (early ++ before) e) :
    later.countP counted ≤ 2 * (high - low + 1).toNat := by
  have hcount := @count_le_heights _ reading other low counted early later
    (fun e he n hn => (hbounds e (mem_append_right early he) n hn).1) hrises
  have hreading := @height_le _ reading low high (early ++ later)
    fun e he n hn => (hbounds e he n (.inl hn)).2
  have hother := @height_le _ other low high (early ++ later)
    fun e he n hn => (hbounds e he n (.inr hn)).2
  omega

end Rising
