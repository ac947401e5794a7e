import Mathlib.Data.List.Dedup

/-!
# A versioned object store

A store maps paths to contents, and every accepted write gives the content a
fresh version. The store is kept as the list of its accepted writes, newest
first: the content of a path is its newest write, and the version of a write
is its position counted from the oldest. A removal is a write without content.

Keeping every write makes what a client has read a fact about the past, and a
fact about the past stays true under the writes of everybody else
(`Store.Held.mono`, `Store.Superseded.mono`).
-/

namespace CasStore

open List Option

/-- An accepted write: `site` names the statement of the program that made it
and `author` the client. -/
structure Entry (Path Content Site : Type) where
  path : Path
  content : Option Content
  site : Site
  author : Nat
deriving DecidableEq

/-- Every accepted write, newest first. -/
abbrev Store (Path Content Site : Type) := List (Entry Path Content Site)

/-- What a call writes: the path, and the content unless it removes it. -/
abbrev Change (Path Content : Type) := Path × Option Content

variable {Path Content Site : Type}

namespace Store

def get [DecidableEq Path] : Store Path Content Site → Path → Option (Content × Nat)
  | [], _ => none
  | e :: older, p =>
    if e.path = p then e.content.map (fun c => (c, older.length)) else get older p

/-- `s` is what `s'` was at some point of the past. -/
abbrev PastOf (s s' : Store Path Content Site) : Prop := s <:+ s'

/-- `e` is the write that was given version `v`. -/
def Held (s : Store Path Content Site) (v : Nat) (e : Entry Path Content Site) : Prop :=
  ∃ older, older.length = v ∧ (e :: older) <:+ s

/-- A write to `p` newer than version `v` was accepted. -/
def Superseded (s : Store Path Content Site) (p : Path) (v : Nat) : Prop :=
  ∃ w e, s.Held w e ∧ e.path = p ∧ v < w

/-! ## Versions name writes -/

theorem held_cons_self (e : Entry Path Content Site) (s : Store Path Content Site) :
    Held (e :: s) s.length e :=
  ⟨s, rfl, suffix_refl _⟩

variable {s s' : Store Path Content Site} {e : Entry Path Content Site} {v : Nat}
  {e f : Entry Path Content Site} {p : Path}

theorem Held.mono (hs : s.PastOf s') (h : s.Held v e) : s'.Held v e := by
  obtain ⟨older, hlen, hsuf⟩ := h
  exact ⟨older, hlen, hsuf.trans hs⟩

theorem Held.lt (h : s.Held v e) : v < s.length := by
  obtain ⟨older, rfl, hsuf⟩ := h
  have hle := hsuf.length_le
  simp only [length_cons] at hle
  omega

theorem not_held_nil : ¬ Held ([] : Store Path Content Site) v e := by
  intro h
  exact absurd h.lt (Nat.not_lt_zero v)

theorem held_cons : Held (f :: s) v e ↔ (v = s.length ∧ e = f) ∨ s.Held v e := by
  constructor
  · rintro ⟨older, rfl, hsuf⟩
    rcases suffix_cons_iff.mp hsuf with heq | hsuf
    · obtain ⟨rfl, rfl⟩ := List.cons.inj heq
      exact Or.inl ⟨rfl, rfl⟩
    · exact Or.inr ⟨older, rfl, hsuf⟩
  · rintro (⟨rfl, rfl⟩ | h)
    · exact held_cons_self _ _
    · exact h.mono (suffix_cons _ _)

theorem Held.unique (he : s.Held v e) (hf : s.Held v f) : e = f := by
  obtain ⟨older, hlen, hsuf⟩ := he
  obtain ⟨older', hlen', hsuf'⟩ := hf
  have hle : (e :: older).length ≤ (f :: older').length := by simp [hlen, hlen']
  have heq := (suffix_of_suffix_length_le hsuf hsuf' hle).eq_of_length
    (by simp [hlen, hlen'])
  exact (List.cons.inj heq).1

theorem Held.mem (h : s.Held v e) : e ∈ s := by
  obtain ⟨older, -, hsuf⟩ := h
  exact hsuf.subset mem_cons_self

theorem held_of_mem (h : e ∈ s) : ∃ v, s.Held v e := by
  obtain ⟨newer, older, rfl⟩ := append_of_mem h
  exact ⟨older.length, older, rfl, suffix_append _ _⟩

/-- What holds of some accepted write is found by looking through them. -/
theorem exists_held_iff {P : Entry Path Content Site → Prop} :
    (∃ v e, s.Held v e ∧ P e) ↔ ∃ e ∈ s, P e := by
  constructor
  · rintro ⟨v, e, he, hP⟩
    exact ⟨e, he.mem, hP⟩
  · rintro ⟨e, he, hP⟩
    obtain ⟨v, hv⟩ := held_of_mem he
    exact ⟨v, e, hv, hP⟩

/-- The store as it was when `e` was accepted. -/
theorem Held.split (h : s.Held v e) : ∃ older, (e :: older) <:+ s ∧ older.length = v := by
  obtain ⟨older, hlen, hsuf⟩ := h
  exact ⟨older, hsuf, hlen⟩

/-- A write older than a point of the past was already there at that point. -/
theorem Held.of_lt (h : s'.Held v e) (hs : s.PastOf s') (hlt : v < s.length) : s.Held v e := by
  obtain ⟨older, hlen, hsuf⟩ := h
  refine ⟨older, hlen, suffix_of_suffix_length_le hsuf hs ?_⟩
  simp only [length_cons]
  omega

theorem Superseded.mono (hs : s.PastOf s') (h : s.Superseded p v) : s'.Superseded p v := by
  obtain ⟨w, e, hw, hp, hlt⟩ := h
  exact ⟨w, e, hw.mono hs, hp, hlt⟩

section Get

variable [DecidableEq Path]

@[simp] theorem get_nil (p : Path) : get ([] : Store Path Content Site) p = none := rfl

variable {p : Path} {s : Store Path Content Site} {v : Nat} {c : Content}

theorem get_cons_same (h : e.path = p) (s : Store Path Content Site) :
    get (e :: s) p = e.content.map (fun c => (c, s.length)) := by
  simp [get, h]

theorem get_cons_other (h : e.path ≠ p)
    (s : Store Path Content Site) : get (e :: s) p = s.get p := by
  simp [get, h]

theorem get_held
    (h : s.get p = some (c, v)) : ∃ e, s.Held v e ∧ e.path = p ∧ e.content = some c := by
  induction s with
  | nil => simp at h
  | cons f older ih =>
    by_cases hp : f.path = p
    · rw [get_cons_same hp, map_eq_some_iff] at h
      obtain ⟨c', hc', heq⟩ := h
      obtain ⟨rfl, rfl⟩ := Prod.mk.inj heq
      exact ⟨f, held_cons_self _ _, hp, hc'⟩
    · rw [get_cons_other hp] at h
      obtain ⟨e, he, hpath, hcontent⟩ := ih h
      exact ⟨e, he.mono (suffix_cons _ _), hpath, hcontent⟩

/-- What stands now has stood since its write was accepted. -/
theorem get_of_pastOf (hs : s.PastOf s') (h : s'.get p = some (c, v)) (hv : v < s.length) :
    s.get p = some (c, v) := by
  induction s' with
  | nil =>
    rw [suffix_nil.mp hs] at hv
    exact absurd hv (Nat.not_lt_zero v)
  | cons f older ih =>
    rcases suffix_cons_iff.mp hs with rfl | hs
    · exact h
    · by_cases hf : f.path = p
      · rw [get_cons_same hf, map_eq_some_iff] at h
        obtain ⟨c', -, heq⟩ := h
        have hle := hs.length_le
        simp only [Prod.mk.injEq] at heq
        omega
      · rw [get_cons_other hf] at h
        exact ih hs h

/-- The version a client read pins the content it read. -/
theorem get_eq_of_held {c c' : Content} (h : s.get p = some (c, v)) (he : s.Held v e)
    (hc : e.content = some c') : c = c' := by
  obtain ⟨f, hf, -, hcontent⟩ := get_held h
  rw [hf.unique he, hc] at hcontent
  exact (Option.some.inj hcontent).symm

theorem le_of_get {w : Nat} (h : s.get p = some (c, v)) (he : s.Held w e)
    (hp : e.path = p) : w ≤ v := by
  induction s with
  | nil => simp at h
  | cons f older ih =>
    by_cases hf : f.path = p
    · rw [get_cons_same hf, map_eq_some_iff] at h
      obtain ⟨c', -, heq⟩ := h
      have hlt := he.lt
      simp only [Prod.mk.injEq] at heq
      simp only [length_cons] at hlt
      omega
    · rw [get_cons_other hf] at h
      rcases held_cons.mp he with ⟨-, rfl⟩ | he
      · exact absurd hp hf
      · exact ih h he

theorem not_superseded_of_get (h : s.get p = some (c, v)) : ¬ s.Superseded p v := by
  rintro ⟨w, e, he, hp, hlt⟩
  exact absurd (le_of_get h he hp) (Nat.not_le.mpr hlt)

/-- A version that is no longer the one read was superseded. -/
theorem superseded_of_get_ne {w : Nat} (h : s.get p = some (c, w)) (he : s.Held v e)
    (hp : e.path = p) (hne : w ≠ v) : s.Superseded p v := by
  obtain ⟨f, hf, hfp, -⟩ := get_held h
  refine ⟨w, f, hf, hfp, ?_⟩
  have hle := le_of_get h he hp
  omega

theorem superseded_of_get_none (h : s.get p = none) (he : s.Held v e)
    (hp : e.path = p) (hc : e.content = some c) : s.Superseded p v := by
  induction s with
  | nil => exact absurd he not_held_nil
  | cons f older ih =>
    by_cases hf : f.path = p
    · rw [get_cons_same hf, map_eq_none_iff] at h
      rcases held_cons.mp he with ⟨-, rfl⟩ | he
      · rw [hc] at h
        cases h
      · exact ⟨older.length, f, held_cons_self _ _, hf, he.lt⟩
    · rw [get_cons_other hf] at h
      rcases held_cons.mp he with ⟨-, rfl⟩ | he
      · exact absurd hp hf
      · exact (ih h he).mono (suffix_cons _ _)

/-- A path once written and now absent was removed after that write. -/
theorem removed_of_get_none (h : s.get p = none) (he : s.Held v e) (hp : e.path = p)
    (hc : e.content = some c) : ∃ w f, s.Held w f ∧ f.path = p ∧ f.content = none ∧ v < w := by
  induction s with
  | nil => exact absurd he not_held_nil
  | cons f older ih =>
    by_cases hf : f.path = p
    · rw [get_cons_same hf, map_eq_none_iff] at h
      rcases held_cons.mp he with ⟨-, rfl⟩ | he
      · rw [hc] at h
        cases h
      · exact ⟨older.length, f, held_cons_self _ _, hf, h, he.lt⟩
    · rw [get_cons_other hf] at h
      rcases held_cons.mp he with ⟨-, rfl⟩ | he
      · exact absurd hp hf
      · obtain ⟨w, g, hg, hrest⟩ := ih h he
        exact ⟨w, g, hg.mono (suffix_cons _ _), hrest⟩

end Get

end Store

/-! ## Storage calls -/

/-- The answer of a compare-and-swap. -/
inductive Swap where
  | stored (version : Nat)
  | conflict
  | notFound
deriving DecidableEq

/-- One storage call, an atomic step of the client that makes it. `touch`
stands for calls that change no content, such as a metadata update. -/
inductive Call (Path Content : Type) : Type → Type where
  | read (p : Path) : Call Path Content (Option (Content × Nat))
  | exist (p : Path) : Call Path Content Bool
  | list (among : Path → Bool) : Call Path Content (List Path)
  | create (p : Path) (c : Content) : Call Path Content Bool
  | swap (p : Path) (expected : Nat) (c : Content) : Call Path Content Swap
  | put (p : Path) (c : Content) : Call Path Content Unit
  | delete (p : Path) : Call Path Content Unit
  | touch (p : Path) : Call Path Content Unit

namespace Call

variable [DecidableEq Path] {β : Type} {s : Store Path Content Site}

/-- What the call writes to `s`, if anything. -/
def change : Call Path Content β → Store Path Content Site → Option (Change Path Content)
  | .create p c, s => if (s.get p).isNone then some (p, some c) else none
  | .swap p v c, s => if (s.get p).map (·.2) = some v then some (p, some c) else none
  | .put p c, _ => some (p, some c)
  | .delete p, s => if (s.get p).isSome then some (p, none) else none
  | .read _, _ | .exist _, _ | .list _, _ | .touch _, _ => none

def answer : Call Path Content β → Store Path Content Site → β
  | .read p, s => s.get p
  | .exist p, s => (s.get p).isSome
  | .list among, s =>
    (s.map Entry.path).dedup.filter fun p => among p && (s.get p).isSome
  | .create p _, s => (s.get p).isNone
  | .swap p v _, s =>
    match s.get p with
    | none => .notFound
    | some (_, w) => if w = v then .stored s.length else .conflict
  | .put _ _, _ => ()
  | .delete _, _ => ()
  | .touch _, _ => ()

/-- A listing names the objects there are. -/
theorem mem_list {among : Path → Bool} :
    p ∈ (Call.list among : Call Path Content _).answer s ↔
      among p = true ∧ (s.get p).isSome = true := by
  simp only [answer, mem_filter, mem_dedup, Bool.and_eq_true]
  constructor
  · exact fun h => h.2
  · intro h
    refine ⟨?_, h⟩
    obtain ⟨⟨c, v⟩, hget⟩ := isSome_iff_exists.mp h.2
    obtain ⟨e, he, hp, -⟩ := Store.get_held hget
    exact List.mem_map.mpr ⟨e, he.mem, hp⟩

theorem change_create_of_false
    (h : (Call.create p c).answer s = false) : (Call.create p c).change s = none := by
  simp only [answer] at h
  simp [change, h]

theorem change_swap_of_not_stored
    (h : ∀ w, (Call.swap p v c).answer s ≠ .stored w) : (Call.swap p v c).change s = none := by
  simp only [answer] at h
  cases hget : s.get p with
  | none => simp [change, hget]
  | some found =>
    obtain ⟨old, w⟩ := found
    by_cases hw : w = v
    · simp only [hget, hw, if_true] at h
      exact absurd rfl (h s.length)
    · simp [change, hget, hw]

end Call

def Store.apply (s : Store Path Content Site) (site : Site) (author : Nat) :
    Option (Change Path Content) → Store Path Content Site
  | none => s
  | some (p, c) => ⟨p, c, site, author⟩ :: s

@[simp] theorem Store.apply_none (s : Store Path Content Site) (site : Site) (author : Nat) :
    s.apply site author none = s := rfl

@[simp] theorem Store.apply_some (s : Store Path Content Site) (site : Site) (author : Nat)
    (p : Path) (c : Option Content) :
    s.apply site author (some (p, c)) = ⟨p, c, site, author⟩ :: s := rfl

theorem Store.suffix_apply (s : Store Path Content Site) (site : Site) (author : Nat)
    (change : Option (Change Path Content)) : s.PastOf (s.apply site author change) := by
  cases change with
  | none => exact suffix_refl _
  | some c => exact suffix_cons _ _

namespace Store

/-! ## What a client wrote -/

/-- From `s` to `s'` client `i` wrote nothing. -/
structure Idle (i : Nat) (s s' : Store Path Content Site) : Prop where
  past : s.PastOf s'
  others : ∀ v e, s'.Held v e → s.length ≤ v → e.author ≠ i

namespace Idle

variable {i : Nat} {s s' s'' : Store Path Content Site}

theorem refl (i : Nat) (s : Store Path Content Site) : s.Idle i s :=
  ⟨suffix_refl _, fun _ _ he hge => absurd he.lt (Nat.not_lt.mpr hge)⟩

theorem trans (h : s.Idle i s') (h' : s'.Idle i s'') : s.Idle i s'' := by
  refine ⟨h.past.trans h'.past, fun v e he hge => ?_⟩
  by_cases hlt : v < s'.length
  · exact h.others v e (he.of_lt h'.past hlt) hge
  · exact h'.others v e he (Nat.not_lt.mp hlt)

/-- What another client writes leaves client `i` idle. -/
theorem apply (h : s.Idle i s') {j : Nat} (hij : j ≠ i) (site : Site)
    (change : Option (Change Path Content)) : s.Idle i (s'.apply site j change) := by
  cases change with
  | none => exact h
  | some change =>
    refine ⟨h.past.trans (suffix_cons _ _), fun v e he hge => ?_⟩
    rcases held_cons.mp he with ⟨-, rfl⟩ | he
    · exact hij
    · exact h.others v e he hge

end Idle

/-- From `s` to `s'` client `i` wrote at sites in `S` only. -/
def WroteAt (i : Nat) (S : Site → Prop) (s s' : Store Path Content Site) : Prop :=
  ∀ v e, s'.Held v e → s.length ≤ v → e.author = i → S e.site

variable {S : Site → Prop}

theorem WroteAt.of_idle {i : Nat} {s s' s'' : Store Path Content Site}
    (h : WroteAt i S s s') (hs : s'.Idle i s'') : WroteAt i S s s'' := by
  intro v e he hge ha
  by_cases hlt : v < s'.length
  · exact h v e (he.of_lt hs.past hlt) hge ha
  · exact absurd ha (hs.others v e he (Nat.not_lt.mp hlt))

theorem WroteAt.apply {i : Nat} {s s' : Store Path Content Site}
    (h : WroteAt i S s s') {site : Site} (hsite : S site) (change : Option (Change Path Content)) :
    WroteAt i S s (s'.apply site i change) := by
  cases change with
  | none => exact h
  | some change =>
    intro v e he hge ha
    rcases held_cons.mp he with ⟨-, rfl⟩ | he
    · exact hsite
    · exact h v e he hge ha

end Store

end CasStore
