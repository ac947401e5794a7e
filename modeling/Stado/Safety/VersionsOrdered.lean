import Stado.VersionGate.Rule

/-!
# Version order is SemVer's

On versions of the specification's grammar the rule's order is the
specification's precedence. The pattern reads more texts than the grammar has:
pre-release numbers with leading zeros, and core numbers whose later digits are
any decimal digits.
-/

namespace Stado.VersionGate

open Decimals List Option SemVer Sum.Lex
open SemVer hiding Valid
open SemVer (Text Version Spells)

/-! ## Numbers and fields -/

theorem utf8Size_of_isDigit {c : Char} (h : c.isDigit = true) : c.utf8Size = 1 := by
  have hrange := isDigit_iff.mp h
  have hle : c.val ≤ 127 := by
    rw [UInt32.le_iff_toNat_le]
    show c.toNat ≤ 127
    omega
  unfold Char.utf8Size
  exact if_pos hle

variable {numeral : Text}

theorem byteLength_eq (h : Digits numeral) : byteLength numeral = numeral.length := by
  induction numeral with
  | nil => rfl
  | cons c rest ih =>
    have hrest : byteLength rest = rest.length := ih h.tail
    show c.utf8Size + byteLength rest = rest.length + 1
    rw [utf8Size_of_isDigit h.head, hrest, Nat.add_comm]

variable {left right : Text} {v w : Version}

theorem numericOrder_compares (hl : Digits left) (hr : Digits right) :
    (numericOrder left right).Compares (value left) (value right) := by
  have hcompares := compares_value (digits_trimmed hl) (digits_trimmed hr) (head_trimmed left)
    (head_trimmed right)
  rw [value_trimmed, value_trimmed] at hcompares
  show ((order (byteLength _) (byteLength _)).then _).Compares _ _
  rw [byteLength_eq (digits_trimmed hl), byteLength_eq (digits_trimmed hr)]
  exact hcompares

theorem fieldOrder_compares {a b : Text} :
    (fieldOrder a b).Compares (identifierKey a) (identifierKey b) := by
  unfold fieldOrder identifierKey digits
  cases ha : a.all Char.isDigit <;> cases hb : b.all Char.isDigit
  · have horder := order_compares a b
    cases hord : order a b with
    | lt =>
      rw [hord] at horder
      exact inr_lt_inr_iff.mpr horder
    | eq =>
      rw [hord] at horder
      exact congrArg (fun text => toLex (Sum.inr text)) horder
    | gt =>
      rw [hord] at horder
      exact inr_lt_inr_iff.mpr horder
  · exact inl_lt_inr _ _
  · exact inl_lt_inr _ _
  · have hnumeric := numericOrder_compares (List.all_eq_true.mp ha) (List.all_eq_true.mp hb)
    show (numericOrder a b).Compares _ _
    cases hord : numericOrder a b with
    | lt =>
      rw [hord] at hnumeric
      exact inl_lt_inl_iff.mpr hnumeric
    | eq =>
      rw [hord] at hnumeric
      exact congrArg (fun n => toLex (Sum.inl n)) hnumeric
    | gt =>
      rw [hord] at hnumeric
      exact inl_lt_inl_iff.mpr hnumeric

theorem order_succ (n m : ℕ) : order (n + 1) (m + 1) = order n m := by
  rcases hord : order n m with _ | _ | _
  · exact order_eq_lt.mpr (Nat.succ_lt_succ (order_eq_lt.mp hord))
  · exact order_eq_eq.mpr (congrArg (· + 1) (order_eq_eq.mp hord))
  · exact order_eq_gt.mpr (Nat.succ_lt_succ (order_eq_gt.mp hord))

theorem fields_compares {left right : List Text} (hl : ∀ part ∈ left, PrereleaseIdentifier part)
    (hr : ∀ part ∈ right, PrereleaseIdentifier part) :
    ((firstOrder (left.zip right)).getD (order left.length right.length)).Compares
      (left.map identifierKey) (right.map identifierKey) := by
  induction left generalizing right with
  | nil =>
    rcases right with _ | ⟨b, right⟩
    · rfl
    · exact nil_lt_cons _ _
  | cons a left ih =>
    rcases right with _ | ⟨b, right⟩
    · exact nil_lt_cons _ _
    · have hrest := ih (fun part hpart => hl part (mem_cons_of_mem _ hpart))
        (fun part hpart => hr part (mem_cons_of_mem _ hpart))
      rw [zip_cons_cons, firstOrder, length_cons, length_cons, order_succ]
      by_cases hab : a = b
      · subst hab
        rw [if_pos rfl]
        have hsame : Ordering.eq.Compares (identifierKey a) (identifierKey a) := rfl
        exact compares_cons hsame hrest
      · rw [if_neg hab, getD_some]
        have hfield := @fieldOrder_compares a b
        have hne : fieldOrder a b ≠ .eq := by
          intro heq
          rw [heq] at hfield
          exact hab (identifierKey_injective (hl a (mem_cons_self ..))
            (hr b (mem_cons_self ..)) hfield)
        have hthen := compares_cons hfield hrest
        rcases hord : fieldOrder a b with _ | _ | _
        · rw [hord] at hthen
          exact hthen
        · exact absurd hord hne
        · rw [hord] at hthen
          exact hthen

theorem prereleaseOrder_compares (hv : v.Valid) (hw : w.Valid) :
    (prereleaseOrder v.prerelease w.prerelease).Compares (prereleaseKey v.prerelease)
      (prereleaseKey w.prerelease) := by
  rcases hvpre : v.prerelease with _ | left <;> rcases hwpre : w.prerelease with _ | right
  · rfl
  · exact WithTop.coe_lt_top _
  · exact WithTop.coe_lt_top _
  · have hfields := fields_compares (hv.prerelease left hvpre).2 (hw.prerelease right hwpre).2
    show ((firstOrder (left.zip right)).getD (order left.length right.length)).Compares _ _
    cases hord : (firstOrder (left.zip right)).getD (order left.length right.length) with
    | lt =>
      rw [hord] at hfields
      exact WithTop.coe_lt_coe.mpr hfields
    | eq =>
      rw [hord] at hfields
      exact congrArg (fun keys : List IdentifierKey => (keys : WithTop (List IdentifierKey))) hfields
    | gt =>
      rw [hord] at hfields
      exact WithTop.coe_lt_coe.mpr hfields

theorem find_then (a b c d : Ordering) :
    ([a, b, c].find? (· ≠ .eq)).getD d = (a.then (b.then c)).then d := by
  cases a <;> cases b <;> cases c <;> rfl

/-! ## Reading -/

section Reading

variable {digit : Char → Bool} {text : Text} {found : Ordering}

theorem patternNumber_of_canonical (hdigit : ∀ c, c.toNat < 128 → digit c = c.isDigit)
    (h : Canonical numeral) : patternNumber digit numeral = true := by
  rcases h with rfl | ⟨hne, hdigits, hzero⟩
  · rfl
  · rcases numeral with _ | ⟨c, rest⟩
    · exact absurd rfl hne
    · have hc := isDigit_iff.mp hdigits.head
      have hcne : c.toNat ≠ 48 := by
        intro heq
        exact hzero (congrArg some (Char.ext (UInt32.toNat_inj.mp heq)))
      have hrest : rest.all digit = true := by
        rw [List.all_eq_true]
        intro d hd
        have hrange := isDigit_iff.mp (hdigits.tail d hd)
        rw [hdigit d (by omega)]
        exact hdigits.tail d hd
      have hlow : '1' ≤ c := by
        rw [Char.le_def, UInt32.le_iff_toNat_le]
        show 49 ≤ c.toNat
        omega
      have hhigh : c ≤ '9' := by
        rw [Char.le_def, UInt32.le_iff_toNat_le]
        exact hc.2
      simp [patternNumber, hrest, hlow, hhigh]

theorem patternField_of_identifier {part : Text} (h : Identifier part) :
    patternField part = true := by
  rw [patternField, h.2, Bool.and_true]
  exact decide_eq_true h.1

theorem pattern_of_valid (hdigit : ∀ c, c.toNat < 128 → digit c = c.isDigit)
    (h : v.Valid) : pattern digit v = true := by
  have hpre : v.prerelease.all (fun fields => fields.all patternField) = true := by
    rcases hpre : v.prerelease with _ | parts
    · rfl
    · refine List.all_eq_true.mpr fun part hpart => ?_
      exact patternField_of_identifier ((h.prerelease parts hpre).2 part hpart).1
  have hbuild : v.build.all (fun fields => fields.all patternField) = true := by
    rcases hbuild : v.build with _ | parts
    · rfl
    · refine List.all_eq_true.mpr fun part hpart => ?_
      exact patternField_of_identifier ((h.build parts hbuild).2 part hpart)
  rw [pattern, patternNumber_of_canonical hdigit h.major, patternNumber_of_canonical hdigit h.minor,
    patternNumber_of_canonical hdigit h.patch, hpre, hbuild]
  rfl

/-- The pattern reads the text. -/
def Accepted (digit : Char → Bool) (value : Text) : Prop := (captures digit value).isSome = true

theorem captures_of_spells (hdigit : ∀ c, c.toNat < 128 → digit c = c.isDigit) (h : Spells text v) :
    captures digit text = some v := by
  obtain ⟨hread, hvalid⟩ := spells_iff.mp h
  rw [captures, hread]
  exact filter_some_pos (pattern_of_valid hdigit hvalid)

theorem spells_of_captures (h : captures digit text = some v)
    (hvalid : Valid text) : Spells text v := by
  obtain ⟨w, hw⟩ := hvalid
  have hread := (spells_iff.mp hw).1
  rw [captures, hread] at h
  obtain ⟨hw', -⟩ := filter_eq_some_iff.mp h
  obtain rfl := Option.some.inj hw'
  exact hw

theorem semverOrder_accepted
    (hv : captures digit left = some v) (hw : captures digit right = some w) :
    semverOrder digit left right = .ok
      (((numericOrder v.major w.major).then ((numericOrder v.minor w.minor).then
        (numericOrder v.patch w.patch))).then (prereleaseOrder v.prerelease w.prerelease)) := by
  unfold semverOrder semver
  rw [hv, hw]
  show Except.ok _ = _
  rw [find_then]

theorem accepted_of_semverOrder (h : semverOrder digit left right = .ok found) :
    ∃ v w, captures digit left = some v ∧ captures digit right = some w := by
  rcases hv : captures digit left with _ | v
  · rw [semverOrder, semver, hv] at h
    cases h
  · rcases hw : captures digit right with _ | w
    · rw [semverOrder, semver, hv, semver, hw] at h
      cases h
    · exact ⟨v, w, rfl, rfl⟩

theorem semverOrder_compares (hv : captures digit left = some v)
    (hw : captures digit right = some w) (hvalid : v.Valid) (hwvalid : w.Valid)
    (h : semverOrder digit left right = .ok found) : found.Compares v.precedence w.precedence := by
  rw [semverOrder_accepted hv hw] at h
  obtain rfl := Except.ok.inj h
  have hmajor := numericOrder_compares hvalid.major.digits hwvalid.major.digits
  have hminor := numericOrder_compares hvalid.minor.digits hwvalid.minor.digits
  have hpatch := numericOrder_compares hvalid.patch.digits hwvalid.patch.digits
  exact compares_prod (compares_prod hmajor (compares_prod hminor hpatch))
    (prereleaseOrder_compares hvalid hwvalid)

end Reading

/-! ## Precedence -/

section Precedence

variable (digit : Char → Bool)

/-- An order is answered exactly for two versions, and it is their precedence. -/
def Agrees (left right : Text) : Prop :=
  ∀ found, semverOrder digit left right = .ok found ↔
    ∃ v w, Spells left v ∧ Spells right w ∧ found.Compares v.precedence w.precedence

/-- Where the pattern reads both texts, both are versions. -/
def Strict (left right : Text) : Prop :=
  Accepted digit left → Accepted digit right → Valid left ∧ Valid right

def withoutBuild (text : Text) : Text := (cut '+' text).1

/-- What an order by precedence comes to: it is total and transitive, equal texts
differ in build metadata, and nothing older is at least as new. -/
structure Ranks (a b c : Text) : Prop where
  total : ∀ found, semverOrder digit a b = .ok found → semverOrder digit b a = .ok found.swap
  transitive : ∀ first second, semverOrder digit a b = .ok first → first ≠ .gt →
    semverOrder digit b c = .ok second → second ≠ .gt →
      ∃ third, semverOrder digit a c = .ok third ∧ third ≠ .gt
  equal : semverOrder digit a b = .ok .eq → withoutBuild a = withoutBuild b
  atLeast : semverAtLeast digit a b = .ok true →
    ∃ v w, Spells a v ∧ Spells b w ∧ w.precedence ≤ v.precedence

variable {digit}

theorem valid_of_agrees (h : Agrees digit left right) (hleft : Accepted digit left)
    (hright : Accepted digit right) : Valid left ∧ Valid right := by
  obtain ⟨v, hv⟩ := isSome_iff_exists.mp hleft
  obtain ⟨w, hw⟩ := isSome_iff_exists.mp hright
  obtain ⟨v', w', hv', hw', -⟩ := (h _).mp (semverOrder_accepted hv hw)
  exact ⟨⟨v', hv'⟩, ⟨w', hw'⟩⟩

variable (hdigit : ∀ c, c.toNat < 128 → digit c = c.isDigit)

include hdigit in
theorem agrees_of_strict (h : Strict digit left right) : Agrees digit left right := by
  intro found
  constructor
  · intro hfound
    obtain ⟨v, w, hv, hw⟩ := accepted_of_semverOrder hfound
    obtain ⟨hvalid, hwvalid⟩ := h (isSome_iff_exists.mpr ⟨v, hv⟩)
      (isSome_iff_exists.mpr ⟨w, hw⟩)
    have hspells := spells_of_captures hv hvalid
    have hwspells := spells_of_captures hw hwvalid
    exact ⟨v, w, hspells, hwspells, semverOrder_compares hv hw hspells.1 hwspells.1 hfound⟩
  · rintro ⟨v, w, hv, hw, hcompares⟩
    have hvcap := captures_of_spells hdigit hv
    have hwcap := captures_of_spells hdigit hw
    have hfound := semverOrder_accepted hvcap hwcap
    rw [hfound]
    exact congrArg Except.ok
      ((semverOrder_compares hvcap hwcap hv.1 hw.1 hfound).inj hcompares)

theorem spells_unique (hv : Spells text v) (hw : Spells text w) : v = w :=
  Option.some.inj ((spells_iff.mp hv).1.symm.trans (spells_iff.mp hw).1)

theorem withoutBuild_of_spells (h : Spells text v) : withoutBuild text = v.ranked := by
  obtain ⟨hvalid, rfl⟩ := h
  rw [withoutBuild, Version.text, cut_announced (plus_notMem_ranked hvalid.separable)]

include hdigit in
theorem ranks_of_strict {a b c : Text} (hab : Strict digit a b) (hbc : Strict digit b c)
    (hac : Strict digit a c) : Ranks digit a b c := by
  have hagreesAB := agrees_of_strict hdigit hab
  have hagreesBC := agrees_of_strict hdigit hbc
  have hagreesAC := agrees_of_strict hdigit hac
  have hagreesBA : Agrees digit b a := agrees_of_strict hdigit fun hb ha => (hab ha hb).symm
  refine ⟨?_, ?_, ?_, ?_⟩
  · intro found hfound
    obtain ⟨v, w, hv, hw, hcompares⟩ := (hagreesAB found).mp hfound
    exact (hagreesBA _).mpr ⟨w, v, hw, hv, Ordering.compares_swap.mpr hcompares⟩
  · intro first second hfirst hfirstne hsecond hsecondne
    obtain ⟨v, w, hv, hw, hvw⟩ := (hagreesAB first).mp hfirst
    obtain ⟨w', x, hw', hx, hwx⟩ := (hagreesBC second).mp hsecond
    obtain rfl := spells_unique hw hw'
    have hvle : v.precedence ≤ w.precedence := hvw.ne_gt.mp hfirstne
    have hwle : w.precedence ≤ x.precedence := hwx.ne_gt.mp hsecondne
    have hthird := order_compares v.precedence x.precedence
    refine ⟨_, (hagreesAC _).mpr ⟨v, x, hv, hx, hthird⟩, ?_⟩
    exact hthird.ne_gt.mpr (hvle.trans hwle)
  · intro hequal
    obtain ⟨v, w, hv, hw, hcompares⟩ := (hagreesAB _).mp hequal
    rw [withoutBuild_of_spells hv, withoutBuild_of_spells hw]
    exact ranked_eq_of_precedence_eq hv.1 hw.1 hcompares
  · intro hatLeast
    rcases hfound : semverOrder digit a b with _ | found
    · rw [semverAtLeast, hfound] at hatLeast
      cases hatLeast
    · rw [semverAtLeast, hfound] at hatLeast
      have hne : found ≠ .lt := of_decide_eq_true (Except.ok.inj hatLeast)
      obtain ⟨v, w, hv, hw, hcompares⟩ := (hagreesAB _).mp hfound
      exact ⟨v, w, hv, hw, hcompares.ne_lt.mp hne⟩

end Precedence

/-- For two texts the rule's order is the specification's precedence, unless the
pattern reads both and one of them is no version. `digit` is the class the pattern's
digits are of. -/
theorem versions_ordered (digit : Char → Bool)
    (hdigit : ∀ c, c.toNat < 128 → digit c = c.isDigit) (a b c : Text) :
    (Agrees digit a b ↔ Strict digit a b) ∧
      (Strict digit a b → Strict digit b c → Strict digit a c → Ranks digit a b c) := by
  constructor
  · constructor
    · intro hagrees hleft hright
      exact valid_of_agrees hagrees hleft hright
    · intro hstrict
      exact agrees_of_strict hdigit hstrict
  · intro hab hbc hac
    exact ranks_of_strict hdigit hab hbc hac

theorem rc_spelled : Valid "1.0.0-rc.2".toList ∧ Valid "1.0.0-rc.10".toList ∧
    Valid "1.0.0".toList := by
  have hone : Canonical ['1'] := .inr ⟨cons_ne_nil _ _, by decide, by simp⟩
  have hzero : Canonical ['0'] := .inl rfl
  have htwo : Canonical ['2'] := .inr ⟨cons_ne_nil _ _, by decide, by simp⟩
  have hten : Canonical ['1', '0'] := .inr ⟨cons_ne_nil _ _, by decide, by simp⟩
  have hname : ¬ Digits ['r', 'c'] := by decide
  have hvalid : ∀ number, Canonical number → Identifier number →
      (⟨['1'], ['0'], ['0'], some [['r', 'c'], number], none⟩ : Version).Valid := by
    intro number hnumber hidentifier
    refine ⟨hone, hzero, hzero, ?_, by simp⟩
    intro parts hparts
    obtain rfl := Option.some.inj hparts
    refine ⟨cons_ne_nil _ _, ?_⟩
    intro part hpart
    rcases mem_cons.mp hpart with rfl | hpart
    · exact ⟨⟨by decide, by decide⟩, fun h => absurd h hname⟩
    · obtain rfl := mem_singleton.mp hpart
      exact ⟨hidentifier, fun _ => hnumber⟩
  refine ⟨⟨_, spells_iff.mpr ⟨?_, hvalid ['2'] htwo ⟨by decide, by decide⟩⟩⟩,
    ⟨_, spells_iff.mpr ⟨?_, hvalid ['1', '0'] hten ⟨by decide, by decide⟩⟩⟩,
    ⟨⟨['1'], ['0'], ['0'], none, none⟩, spells_iff.mpr ⟨?_, ?_⟩⟩⟩
  · decide +kernel
  · decide +kernel
  · decide +kernel
  · exact ⟨hone, hzero, hzero, (by simp), (by simp)⟩

theorem rc_ordered :
    Ranks Char.isDigit "1.0.0-rc.2".toList "1.0.0-rc.10".toList "1.0.0".toList := by
  obtain ⟨ha, hb, hc⟩ := rc_spelled
  exact (versions_ordered Char.isDigit (fun _ _ => rfl) _ _ _).2 (fun _ _ => ⟨ha, hb⟩)
    (fun _ _ => ⟨hb, hc⟩) (fun _ _ => ⟨ha, hc⟩)

/-- A pre-release number with a leading zero is read, and ranked below the release. -/
theorem leadingZero_ranked :
    ¬ Agrees Char.isDigit "1.0.0-01".toList "1.0.0".toList := by
  intro hagrees
  have hread : read "1.0.0-01".toList =
      some ⟨['1'], ['0'], ['0'], some [['0', '1']], none⟩ := by decide +kernel
  have hboth := valid_of_agrees hagrees (show Accepted _ _ by unfold Accepted; decide +kernel)
    (show Accepted _ _ by unfold Accepted; decide +kernel)
  obtain ⟨v, hv⟩ := hboth.1
  obtain ⟨hv', hvalid⟩ := spells_iff.mp hv
  obtain rfl := Option.some.inj (hread.symm.trans hv')
  have hpart := (hvalid.prerelease _ rfl).2 ['0', '1'] (mem_singleton.mpr rfl)
  have hdigits : Digits ['0', '1'] := by
    intro c hc
    rcases mem_cons.mp hc with rfl | hc
    · rfl
    · obtain rfl := mem_singleton.mp hc
      rfl
  rcases hpart.2 hdigits with h | ⟨-, -, h⟩
  · exact absurd h (by decide)
  · exact h rfl

end Stado.VersionGate
