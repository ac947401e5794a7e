import Mathlib.Data.List.Lex
import Mathlib.Data.List.Sort
import Mathlib.Data.Char

/-!
# JSON documents

Values as a parser keeps them: the fields of an object ascend by key, so two
objects that hold the same value under every key are equal.
-/

namespace Json

open List

abbrev Text := List Char

inductive Value where
  | null
  | bool (b : Bool)
  | number (text : Text)
  | string (text : Text)
  | array (items : List Value)
  | object (fields : List (Text × Value))

abbrev Fields := List (Text × Value)

namespace Value

/-! ## Equality -/

mutual

def beq : Value → Value → Bool
  | null, null => true
  | bool a, bool b => a = b
  | number a, number b => a = b
  | string a, string b => a = b
  | array a, array b => beqItems a b
  | object a, object b => beqFields a b
  | _, _ => false

def beqItems : List Value → List Value → Bool
  | [], [] => true
  | a :: as, b :: bs => beq a b && beqItems as bs
  | _, _ => false

def beqFields : Fields → Fields → Bool
  | [], [] => true
  | (k, a) :: as, (l, b) :: bs => k = l && (beq a b && beqFields as bs)
  | _, _ => false

end

mutual

theorem beq_iff : ∀ a b : Value, beq a b = true ↔ a = b
  | null, b => by cases b <;> simp [beq]
  | bool x, b => by cases b <;> simp [beq]
  | number x, b => by cases b <;> simp [beq]
  | string x, b => by cases b <;> simp [beq]
  | array items, b => by
      cases b with
      | array other => simp [beq, beqItems_iff items other]
      | _ => simp [beq]
  | object fields, b => by
      cases b with
      | object other => simp [beq, beqFields_iff fields other]
      | _ => simp [beq]

theorem beqItems_iff : ∀ as bs : List Value, beqItems as bs = true ↔ as = bs
  | [], bs => by cases bs <;> simp [beqItems]
  | a :: as, bs => by
      cases bs with
      | nil => simp [beqItems]
      | cons b bs => simp [beqItems, beq_iff a b, beqItems_iff as bs]

theorem beqFields_iff : ∀ as bs : Fields, beqFields as bs = true ↔ as = bs
  | [], bs => by cases bs <;> simp [beqFields]
  | (k, a) :: as, bs => by
      cases bs with
      | nil => simp [beqFields]
      | cons b bs =>
        obtain ⟨l, b⟩ := b
        simp [beqFields, beq_iff a b, beqFields_iff as bs, and_assoc]

end

instance instDecidableEq : DecidableEq Value := fun a b => decidable_of_iff _ (beq_iff a b)

/-! ## Fields -/

def get (fields : Fields) (key : Text) : Option Value := List.lookup key fields

def keys (fields : Fields) : List Text := fields.map Prod.fst

theorem get_cons (k : Text) (v : Value) (fields : Fields) (key : Text) :
    get ((k, v) :: fields) key = if key = k then some v else get fields key := by
  rw [get, lookup_cons]
  by_cases h : key = k
  · rw [if_pos h, beq_iff_eq.mpr h]
  · rw [if_neg h, beq_eq_false_iff_ne.mpr h]
    rfl

variable {fields : Fields} {key : Text} {v : Value}

theorem mem_of_get (h : get fields key = some v) : (key, v) ∈ fields := by
  induction fields with
  | nil => cases h
  | cons field fields ih =>
    obtain ⟨k, x⟩ := field
    rw [get_cons] at h
    split_ifs at h with hk
    · obtain rfl := Option.some.inj h
      rw [hk]
      exact mem_cons_self ..
    · exact mem_cons_of_mem _ (ih h)

theorem get_eq_none (h : key ∉ keys fields) : get fields key = none := by
  rcases hget : get fields key with _ | v
  · rfl
  · exact absurd (List.mem_map_of_mem (mem_of_get hget)) h

/-- An object's fields ascend by key. -/
def Ascending (fields : Fields) : Prop := (keys fields).Pairwise (· < ·)

theorem fields_ext {as bs : Fields} (ha : Ascending as) (hb : Ascending bs)
    (h : ∀ key, get as key = get bs key) : as = bs := by
  induction as generalizing bs with
  | nil =>
    rcases bs with _ | ⟨⟨l, b⟩, bs⟩
    · rfl
    · have hl := h l
      rw [get_cons, if_pos rfl] at hl
      cases hl
  | cons field as ih =>
    obtain ⟨k, a⟩ := field
    rcases bs with _ | ⟨⟨l, b⟩, bs⟩
    · have hk := h k
      rw [get_cons, if_pos rfl] at hk
      cases hk
    · obtain ⟨hkall, has⟩ := pairwise_cons.mp ha
      obtain ⟨hlall, hbs⟩ := pairwise_cons.mp hb
      have hmem : ∀ {key : Text} {fields : Fields} {v : Value}, get fields key = some v →
          key ∈ keys fields := fun hget => List.mem_map_of_mem (mem_of_get hget)
      have hkl : k = l := by
        rcases lt_trichotomy k l with hlt | heq | hgt
        · have hk := h k
          rw [get_cons, if_pos rfl, get_cons, if_neg (ne_of_lt hlt)] at hk
          exact absurd (hlt.trans (hlall k (hmem hk.symm))) (lt_irrefl k)
        · exact heq
        · have hl := h l
          rw [get_cons, if_neg (ne_of_lt hgt), get_cons, if_pos rfl] at hl
          exact absurd (hgt.trans (hkall l (hmem hl))) (lt_irrefl l)
      subst hkl
      have hvalue := h k
      rw [get_cons, if_pos rfl, get_cons, if_pos rfl] at hvalue
      obtain rfl := Option.some.inj hvalue
      have hrest : ∀ key, get as key = get bs key := by
        intro key
        have hkey := h key
        rw [get_cons, get_cons] at hkey
        by_cases heq : key = k
        · subst heq
          rw [get_eq_none fun hin => lt_irrefl key (hkall key hin),
            get_eq_none fun hin => lt_irrefl key (hlall key hin)]
        · rwa [if_neg heq, if_neg heq] at hkey
      rw [ih has hbs hrest]

/-! ## Documents -/

mutual

def Proper : Value → Prop
  | array items => items.length < 2 ^ 64 ∧ ProperItems items
  | object fields => Ascending fields ∧ ProperFields fields
  | _ => True

def ProperItems : List Value → Prop
  | [] => True
  | item :: items => item.Proper ∧ ProperItems items

def ProperFields : Fields → Prop
  | [] => True
  | (_, value) :: fields => value.Proper ∧ ProperFields fields

end

theorem ProperFields.of_get (h : ProperFields fields)
    (hget : get fields key = some v) : v.Proper := by
  induction fields with
  | nil => cases hget
  | cons field rest ih =>
    obtain ⟨k, x⟩ := field
    rw [get_cons] at hget
    split_ifs at hget with hk
    · obtain rfl := Option.some.inj hget
      exact h.1
    · exact ih h.2 hget

theorem sizeOf_get (h : get fields key = some v) : sizeOf v < sizeOf (object fields) := by
  have hmem := sizeOf_lt_of_mem (mem_of_get h)
  simp only [Prod.mk.sizeOf_spec] at hmem
  simp only [object.sizeOf_spec]
  omega

theorem sizeOf_item {items : List Value} {item : Value} (h : item ∈ items) :
    sizeOf item < sizeOf (array items) := by
  have hmem := sizeOf_lt_of_mem h
  simp only [array.sizeOf_spec]
  omega

end Value

/-- A document as it is read. -/
structure Document where
  value : Value
  proper : value.Proper

end Json
