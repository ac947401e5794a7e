import Mathlib.Data.List.Basic
import Std.Data.TreeMap

/-!
# Checks made in order

A validator is a program in `Except`: its steps either pass or end it with
what is wrong. This file says when such a program passes: a step in front of
the rest, a requirement, an option that must be there, a loop over a list and
a loop that collects what it has seen and refuses a repetition.
-/

namespace Stado.Checks

open List

variable {Error α β κ : Type} {x : Except Error α} {f : α → Except Error β}

/-- Refuse with `refusal` unless `condition` holds. -/
def require (condition : Prop) [Decidable condition] (refusal : Error) : Except Error Unit :=
  if condition then .ok () else .error refusal

/-- The value, or the refusal of its absence. -/
def orRefuse (found : Option α) (refusal : Error) : Except Error α :=
  match found with
  | some a => .ok a
  | none => .error refusal

def each (xs : List α) (check : α → Except Error Unit) : Except Error Unit :=
  match xs with
  | [] => .ok ()
  | x :: later => do
      check x
      each later check

/-- A loop that keeps the keys it has seen: each element is checked, its key
must be new, and the element is checked once more. -/
def fresh [DecidableEq κ] (key : α → κ) (before after : α → Except Error Unit)
    (repeated : α → Error) (seen : List κ) (xs : List α) : Except Error Unit :=
  match xs with
  | [] => .ok ()
  | x :: later => do
      before x
      require (key x ∉ seen) (repeated x)
      after x
      fresh key before after repeated (key x :: seen) later

def rewriteEntries (rewrite : String → α → Except Error α) :
    List (String × α) → Std.TreeMap String α → Except Error (Std.TreeMap String α)
  | [], table => .ok table
  | (key, a) :: later, table => do
      let rewritten ← rewrite key a
      rewriteEntries rewrite later (table.insert key rewritten)

/-- Rewrite every entry of a table in place, in the order of its keys. -/
def rewriteTable (rewrite : String → α → Except Error α) (table : Std.TreeMap String α) :
    Except Error (Std.TreeMap String α) :=
  rewriteEntries rewrite table.toList table

theorem bind_eq_ok {b : β} : x >>= f = .ok b ↔ ∃ a, x = .ok a ∧ f a = .ok b := by
  cases x with
  | _ => simp [bind, Except.bind]

variable {u : Unit} {rewrite : String → α → Except Error α} {refusal : Error}
  {entries : List (String × α)} {a : α} {condition : Prop} {Error' : Type} {key : String}

@[simp] theorem require_eq_ok [Decidable condition]
    : require condition refusal = .ok u ↔ condition := by
  unfold require
  by_cases h : condition <;> simp [h]

@[simp] theorem orRefuse_eq_ok {found : Option α} :
    orRefuse found refusal = .ok a ↔ found = some a := by
  cases found <;> simp [orRefuse]

@[simp] theorem each_eq_ok {xs : List α} {check : α → Except Error Unit} :
    each xs check = .ok u ↔ ∀ x ∈ xs, check x = .ok () := by
  induction xs with
  | nil => simp [each]
  | cons x later ih =>
    simp only [each, bind_eq_ok, forall_mem_cons, ih]
    constructor
    · rintro ⟨_, hx, hlater⟩
      exact ⟨hx, hlater⟩
    · rintro ⟨hx, hlater⟩
      exact ⟨(), hx, hlater⟩

/-- Such a loop passes when every element passes both its checks and no key
comes twice or was seen before. -/
theorem fresh_eq_ok [DecidableEq κ] {key : α → κ} {before after : α → Except Error Unit}
    {repeated : α → Error} {seen : List κ} {xs : List α} :
    fresh key before after repeated seen xs = .ok u ↔
      (∀ x ∈ xs, before x = .ok () ∧ after x = .ok ()) ∧ (xs.map key).Nodup ∧
        ∀ x ∈ xs, key x ∉ seen := by
  induction xs generalizing seen with
  | nil => simp [fresh]
  | cons x later ih =>
    simp only [fresh, bind_eq_ok, require_eq_ok, forall_mem_cons, map_cons, nodup_cons, ih]
    constructor
    · rintro ⟨_, hbefore, _, hx, _, hafter, hchecks, hnodup, hnew⟩
      refine ⟨⟨⟨hbefore, hafter⟩, hchecks⟩, ⟨?_, hnodup⟩, hx, ?_⟩
      · intro hmem
        obtain ⟨y, hy, heq⟩ := List.mem_map.mp hmem
        exact hnew y hy (heq ▸ mem_cons_self)
      · exact fun y hy hseen => hnew y hy (mem_cons_of_mem _ hseen)
    · rintro ⟨⟨⟨hbefore, hafter⟩, hchecks⟩, ⟨hfirst, hnodup⟩, hx, hnew⟩
      refine ⟨(), hbefore, (), hx, (), hafter, hchecks, hnodup, ?_⟩
      rintro y hy hmem
      rcases mem_cons.mp hmem with heq | hseen
      · exact hfirst (List.mem_map.mpr ⟨y, hy, heq⟩)
      · exact hnew y hy hseen

theorem each_toList_eq_ok {table : Std.TreeMap String α} {check : String × α → Except Error Unit} :
    each table.toList check = .ok u ↔ ∀ key a, table[key]? = some a → check (key, a) = .ok () := by
  rw [each_eq_ok]
  constructor
  · intro h key a hget
    exact h (key, a) (Std.TreeMap.mem_toList_iff_getElem?_eq_some.mpr hget)
  · rintro h ⟨key, a⟩ hmem
    exact h key a (Std.TreeMap.mem_toList_iff_getElem?_eq_some.mp hmem)

/-! ## Rewriting a table -/

open Std

theorem rewriteEntries_of_not_mem {table table' : TreeMap String α}
    (h : rewriteEntries rewrite entries table = .ok table')
    (hkey : ∀ entry ∈ entries, entry.1 ≠ key) : table'[key]? = table[key]? := by
  induction entries generalizing table with
  | nil =>
    cases h
    rfl
  | cons entry later ih =>
    obtain ⟨rewritten, -, hlater⟩ := bind_eq_ok.mp h
    rw [ih hlater fun other hmem => hkey other (mem_cons_of_mem _ hmem)]
    have hne := hkey entry mem_cons_self
    simp [TreeMap.getElem?_insert, hne]

theorem rewriteEntries_of_mem {table table' : TreeMap String α}
    (h : rewriteEntries rewrite entries table = .ok table')
    (hkeys : entries.Pairwise fun entry other => entry.1 ≠ other.1) (hmem : (key, a) ∈ entries) :
    ∃ rewritten, rewrite key a = .ok rewritten ∧ table'[key]? = some rewritten := by
  induction entries generalizing table with
  | nil => cases hmem
  | cons entry later ih =>
    obtain ⟨rewritten, hrewrite, hlater⟩ := bind_eq_ok.mp h
    obtain ⟨hfirst, hkeys⟩ := pairwise_cons.mp hkeys
    rcases mem_cons.mp hmem with rfl | hmem
    · refine ⟨rewritten, hrewrite, ?_⟩
      rw [rewriteEntries_of_not_mem hlater fun other hother => (hfirst other hother).symm]
      exact TreeMap.getElem?_insert_self
    · exact ih hlater hkeys hmem

theorem pairwise_keys (table : TreeMap String α) :
    table.toList.Pairwise fun entry other => entry.1 ≠ other.1 :=
  TreeMap.distinct_keys_toList.imp fun hdistinct heq => hdistinct (by simp [heq])

theorem getElem?_rewriteTable
    {table table' : TreeMap String α} (h : rewriteTable rewrite table = .ok table') (key : String) :
    (table[key]? = none → table'[key]? = none) ∧ ∀ a, table[key]? = some a →
        ∃ rewritten, rewrite key a = .ok rewritten ∧ table'[key]? = some rewritten := by
  constructor
  · intro hnone
    rw [rewriteEntries_of_not_mem h ?_, hnone]
    rintro ⟨other, a⟩ hmem rfl
    rw [TreeMap.mem_toList_iff_getElem?_eq_some, hnone] at hmem
    cases hmem
  · intro a hsome
    exact rewriteEntries_of_mem h (pairwise_keys table)
      (TreeMap.mem_toList_iff_getElem?_eq_some.mpr hsome)

theorem exists_rewriteTable {table : TreeMap String α}
    (h : ∀ key a, table[key]? = some a → ∃ rewritten, rewrite key a = .ok rewritten) :
    ∃ table', rewriteTable rewrite table = .ok table' := by
  have hentries (entries : List (String × α)) (start : TreeMap String α)
      (hall : ∀ entry ∈ entries, ∃ rewritten, rewrite entry.1 entry.2 = .ok rewritten) :
      ∃ table', rewriteEntries rewrite entries start = .ok table' := by
    induction entries generalizing start with
    | nil => exact ⟨start, rfl⟩
    | cons entry later ih =>
      obtain ⟨rewritten, hrewrite⟩ := hall entry mem_cons_self
      obtain ⟨table', htable⟩ := ih (start.insert entry.1 rewritten)
        fun other hmem => hall other (mem_cons_of_mem _ hmem)
      exact ⟨table', bind_eq_ok.mpr ⟨rewritten, hrewrite, htable⟩⟩
  exact hentries table.toList table fun entry hmem =>
    h entry.1 entry.2 (TreeMap.mem_toList_iff_getElem?_eq_some.mp hmem)

theorem mapError_eq_ok {f : Error → Error'} : x.mapError f = .ok a ↔ x = .ok a := by
  cases x <;> simp [Except.mapError]

/-! ## What a program refuses with -/

/-- Every refusal of a program satisfies `P`. -/
def Refuses (P : Error → Prop) (x : Except Error α) : Prop := ∀ refusal, x = .error refusal → P refusal

section Refuses

variable {P : Error → Prop}

theorem refuses_ok : Refuses P (.ok a : Except Error α) := by
  intro refusal h
  cases h

theorem refuses_bind (hx : Refuses P x) (hf : ∀ a, Refuses P (f a)) : Refuses P (x >>= f) := by
  intro refusal h
  cases x with
  | ok a => exact hf a refusal h
  | error e =>
    obtain rfl := Except.error.inj h
    exact hx e rfl

theorem refuses_require [Decidable condition]
    (h : P refusal) : Refuses P (require condition refusal) := by
  intro other hother
  unfold require at hother
  split_ifs at hother
  obtain rfl := Except.error.inj hother
  exact h

theorem refuses_mapError {x : Except Error' α} {f : Error' → Error}
    (h : ∀ e, P (f e)) : Refuses P (x.mapError f) := by
  intro refusal hrefusal
  cases x with
  | ok a => cases hrefusal
  | error e =>
    obtain rfl := Except.error.inj hrefusal
    exact h e

end Refuses

end Stado.Checks
