import Mathlib.Algebra.BigOperators.Group.Finset.Basic
import Stado.Queue.Reservations

/-!
# Reservations are counted while they are held

A renewal that lands after the release of its hold stores a released row
again, and a sweep's delete that lands after a renewal removes a live one. In
the runs where neither happens, and no renewal lands after a later one, the
row of a hold that keeps its promise is stored and live all the time
(`Sound.promised`), so every sweep that starts meanwhile counts it.
-/

namespace Stado.Reservations

open Machine List Option World Reservations Function Sweep Hold AList

/-- The hold is held and no promise of it has passed at any instant. -/
def Kept (w : World) (id : ℕ) : Prop :=
  (∃ row turn waiting, w.holds id = .held row turn waiting) ∧ w.lapsed id = false

/-- The consumer a hold was acquired for. -/
def OfConsumer (w : World) (id : ℕ) (consumer : String) : Prop :=
  ∃ row, (w.holds id).row? = some row ∧ row.consumerId = consumer

structure Counted (w : World) : Prop where
  /-- No sweep removed a row that was live when its delete took effect. -/
  spared : ∀ row now, (row, now) ∈ w.removed → row.isLive now = false
  /-- Once a release has returned, no row of the reservation is stored. -/
  gone : ∀ id row, w.holds id = .released row → ∀ key stored,
    w.rows.lookup key = some stored → stored.reservationId ≠ id
  /-- A sweep lists distinct reservations of its consumer, live at its start. -/
  distinct : ∀ sweep consumer now live retired,
    w.sweeps sweep = .swept consumer now live retired → (live.map Reservation.reservationId).Nodup ∧
        ∀ row ∈ live, row.consumerId = consumer ∧ row.isLive now = true

theorem of_eq_sums (reservations : List Reservation) : Reserved.of reservations =
    ⟨(reservations.map Reservation.cpuCores).sum, (reservations.map Reservation.ramGb).sum,
      (reservations.map Reservation.vramGb).sum⟩ := by
  have hfold : ∀ sum : Reserved, reservations.foldl
      (fun sum row => (⟨sum.cpuCores + row.cpuCores, sum.ramGb + row.ramGb,
        sum.vramGb + row.vramGb⟩ : Reserved)) sum =
      ⟨sum.cpuCores + (reservations.map Reservation.cpuCores).sum,
        sum.ramGb + (reservations.map Reservation.ramGb).sum,
        sum.vramGb + (reservations.map Reservation.vramGb).sum⟩ := by
    induction reservations with
    | nil => intro sum; simp
    | cons row rest ih =>
      intro sum
      rw [foldl_cons, ih]
      simp only [map_cons, sum_cons, add_assoc]
  rw [Reserved.of, hfold]
  simp

/-- The condition on a step: a renewal lands before the release of its hold
has returned and after no later renewal, and a sweep's delete does not land on
a row that has been renewed since the sweep read it and is live. -/
def timely (w : World) : Event → Bool
  | .land (.renew row turn) =>
    (match w.holds row.reservationId with
      | .released _ => false
      | _ => true) &&
    (w.newest row.reservationId).all fun newest => newest.2 < turn
  | .land (.retire _ read) =>
    (w.rows.lookup read.key).all fun row => row = read || !row.isLive w.clock
  | _ => true

/-! ## The invariant -/

/-- Each hold's rows stand under the one key of the hold. -/
def SameKey (w : World) (row : Reservation) : Prop :=
  ∃ sent, (w.holds row.reservationId).row? = some sent ∧ sent.key = row.key

/-- A sweep under way has no row twice, and its rows are live at its start. -/
structure Sweep.Lists (consumer : String) (now : ℕ) (names : List Key) (live : List Reservation) :
    Prop where
  named : ∀ key ∈ names, key.1 = consumer
  distinct : (live.map Reservation.key ++ names).Nodup
  counted : ∀ row ∈ live, row.consumerId = consumer ∧ row.isLive now = true

def Sweep.Sound (clock : ℕ) : Sweep → Prop
  | .started _ now => now ≤ clock
  | .reading consumer now names live _ | .retiring consumer now names live _ =>
    now ≤ clock ∧ Lists consumer now names live
  | .swept consumer now live _ => Lists consumer now [] live
  | .idle | .failed => True

def Promised (w : World) (id : ℕ) : Prop :=
  ∃ row turn, row.reservationId = id ∧ w.rows.lookup row.key = some row ∧
    w.newest id = some (row, turn) ∧ row.isLive w.clock = true

/-- The hold has been released or dropped, and its release may be under way. -/
def Hold.ending : Hold → Bool
  | .releasing _ | .released _ | .gone _ => true
  | _ => false

structure Sound (w : World) : Prop where
  stored : ∀ key row, w.rows.lookup key = some row → row.key = key ∧ SameKey w row
  ids : ∀ id row, (w.holds id).row? = some row → row.reservationId = id
  renewals : ∀ row turn, .renew row turn ∈ w.calls → SameKey w row
  releases : ∀ key, .release key ∈ w.calls → (w.holds key.2).ending = true ∧
    ∃ sent, (w.holds key.2).row? = some sent ∧ sent.key = key
  retires : ∀ sweep read, .retire sweep read ∈ w.calls → read.isLive w.clock = false
  promised : ∀ id, Kept w id → Promised w id
  gone : ∀ id row, w.holds id = .released row → ∀ key stored,
    w.rows.lookup key = some stored → stored.reservationId ≠ id
  spared : ∀ row now, (row, now) ∈ w.removed → row.isLive now = false
  sweeps : ∀ sweep, (w.sweeps sweep).Sound w.clock

variable {row : Reservation}

theorem isLive_anti {now later : ℕ} (hle : now ≤ later)
    (h : row.isLive now = false) : row.isLive later = false := by
  unfold Reservation.isLive at h ⊢
  simp only [decide_eq_false_iff_not] at h ⊢
  omega

theorem isLive_mono {now later : ℕ} (hle : now ≤ later)
    (h : row.isLive later = true) : row.isLive now = true := by
  unfold Reservation.isLive at h ⊢
  simp only [decide_eq_true_eq] at h ⊢
  omega

theorem Sound.counted {w : World} (h : Sound w) : Counted w := by
  refine ⟨h.spared, h.gone, fun sweep consumer now live retired hswept => ?_⟩
  have hlists := h.sweeps sweep
  rw [hswept] at hlists
  have hnodup := hlists.distinct
  rw [append_nil] at hnodup
  refine ⟨?_, hlists.counted⟩
  -- the keys differ and the consumer is the same, so the ids differ
  refine List.Nodup.map_on (fun left hleft right hright hsame => ?_) (List.Nodup.of_map _ hnodup)
  refine inj_on_of_nodup_map hnodup hleft hright ?_
  rw [Reservation.key, Reservation.key, (hlists.counted left hleft).1, (hlists.counted right hright).1,
    hsame]

/-! ## What each kind of move keeps -/

section Moves

variable {w : World} {id : ℕ} {row : Reservation} {turn : ℕ} {hold : Hold} {key : Key}
  {sweep : Sweep}

theorem Sound.moveSweep (h : Sound w) (hsweep : sweep.Sound w.clock) :
    Sound (w.moveSweep id sweep) := by
  refine ⟨h.stored, h.ids, h.renewals, h.releases, h.retires, h.promised, h.gone, h.spared,
    fun other => ?_⟩
  by_cases hother : other = id
  · subst hother
    simpa [World.moveSweep] using hsweep
  · simpa [World.moveSweep, hother] using h.sweeps other

theorem Sound.renewed (h : Sound w) (hrow : SameKey w row) : Sound (w.send (.renew row turn)) := by
  refine ⟨h.stored, h.ids, fun other k hcall => ?_, fun key hcall => ?_, fun sweep read hcall => ?_,
    h.promised, h.gone, h.spared, h.sweeps⟩
  · rcases mem_cons.mp hcall with heq | hcall
    · cases heq
      exact hrow
    · exact h.renewals other k hcall
  · rcases mem_cons.mp hcall with heq | hcall
    · cases heq
    · exact h.releases key hcall
  · rcases mem_cons.mp hcall with heq | hcall
    · cases heq
    · exact h.retires sweep read hcall

theorem Sound.releasing (h : Sound w) (hending : (w.holds key.2).ending = true)
    (hkey : ∃ sent, (w.holds key.2).row? = some sent ∧ sent.key = key) :
    Sound (w.send (.release key)) := by
  refine ⟨h.stored, h.ids, fun other k hcall => ?_, fun other hcall => ?_,
    fun sweep read hcall => ?_, h.promised, h.gone, h.spared, h.sweeps⟩
  · rcases mem_cons.mp hcall with heq | hcall
    · cases heq
    · exact h.renewals other k hcall
  · rcases mem_cons.mp hcall with heq | hcall
    · cases heq
      exact ⟨hending, hkey⟩
    · exact h.releases other hcall
  · rcases mem_cons.mp hcall with heq | hcall
    · cases heq
    · exact h.retires sweep read hcall

theorem Sound.retiring (h : Sound w) {sweep : ℕ} (hread : row.isLive w.clock = false) :
    Sound (w.send (.retire sweep row)) := by
  refine ⟨h.stored, h.ids, fun other k hcall => ?_, fun other hcall => ?_,
    fun other read hcall => ?_, h.promised, h.gone, h.spared, h.sweeps⟩
  · rcases mem_cons.mp hcall with heq | hcall
    · cases heq
    · exact h.renewals other k hcall
  · rcases mem_cons.mp hcall with heq | hcall
    · cases heq
    · exact h.releases other hcall
  · rcases mem_cons.mp hcall with heq | hcall
    · cases heq
      exact hread
    · exact h.retires other read hcall

/-- A call is no longer under way. -/
theorem Sound.arrived (h : Sound w) (call : Call) : Sound { w with calls := w.calls.erase call } :=
  ⟨h.stored, h.ids, fun other k hcall => h.renewals other k (mem_of_mem_erase hcall),
    fun key hcall => h.releases key (mem_of_mem_erase hcall),
    fun sweep read hcall => h.retires sweep read (mem_of_mem_erase hcall),
    h.promised, h.gone, h.spared, h.sweeps⟩

theorem Sound.moveHold (h : Sound w)
    (hkey : ∀ sent, (w.holds id).row? = some sent → ∃ sent', hold.row? = some sent' ∧
      sent'.key = sent.key) (hid : ∀ sent, hold.row? = some sent → sent.reservationId = id)
    (hending : (w.holds id).ending = true → hold.ending = true)
    (hheld : (∃ row turn waiting, hold = .held row turn waiting) → w.lapsed id = false →
      Promised w id)
    (hgone : ∀ row, hold = .released row → ∀ key stored, w.rows.lookup key = some stored →
      stored.reservationId ≠ id) : Sound (w.moveHold id hold) := by
  have hsame : ∀ row, SameKey w row → SameKey (w.moveHold id hold) row := by
    rintro row ⟨sent, hsent, hrow⟩
    by_cases hother : row.reservationId = id
    · rw [hother] at hsent
      obtain ⟨sent', hsent', hkey'⟩ := hkey sent hsent
      exact ⟨sent', by simpa [World.moveHold, hother] using hsent', hkey'.trans hrow⟩
    · exact ⟨sent, by simpa [World.moveHold, hother] using hsent, hrow⟩
  refine ⟨fun key row hlookup => ⟨(h.stored key row hlookup).1, hsame row (h.stored key row hlookup).2⟩,
    fun other row hrow => ?_, fun row k hcall => hsame row (h.renewals row k hcall),
    fun key hcall => ?_, h.retires, fun other hkept => ?_, fun other row hreleased => ?_, h.spared,
    h.sweeps⟩
  · by_cases hother : other = id
    · subst hother
      simp only [World.moveHold, update_self] at hrow
      exact hid row hrow
    · simp only [World.moveHold, update_of_ne hother] at hrow
      exact h.ids other row hrow
  · obtain ⟨hends, sent, hsent, hsentKey⟩ := h.releases key hcall
    by_cases hother : key.2 = id
    · rw [hother] at hends hsent
      obtain ⟨sent', hsent', hkey'⟩ := hkey sent hsent
      exact ⟨by simpa [World.moveHold, hother] using hending hends, sent',
        by simpa [World.moveHold, hother] using hsent', hkey'.trans hsentKey⟩
    · exact ⟨by simpa [World.moveHold, hother] using hends, sent,
        by simpa [World.moveHold, hother] using hsent, hsentKey⟩
  · obtain ⟨⟨row, turn, waiting, hheld'⟩, hlapsed⟩ := hkept
    by_cases hother : other = id
    · subst hother
      simp only [World.moveHold, update_self] at hheld'
      exact hheld ⟨row, turn, waiting, hheld'⟩ hlapsed
    · simp only [World.moveHold, update_of_ne hother] at hheld'
      exact h.promised other ⟨⟨row, turn, waiting, hheld'⟩, hlapsed⟩
  · by_cases hother : other = id
    · subst hother
      simp only [World.moveHold, update_self] at hreleased
      exact hgone row hreleased
    · simp only [World.moveHold, update_of_ne hother] at hreleased
      exact h.gone other row hreleased

theorem Sweep.Sound.later {clock later : ℕ} (h : sweep.Sound clock)
    (hle : clock ≤ later) : sweep.Sound later := by
  cases sweep with
  | idle => trivial
  | failed => trivial
  | started consumer now => exact Nat.le_trans h hle
  | reading consumer now names live retired => exact ⟨h.1.trans hle, h.2⟩
  | retiring consumer now names live retired => exact ⟨h.1.trans hle, h.2⟩
  | swept consumer now live retired => exact h

theorem Sound.wait (h : Sound w) (ticks : ℕ) : Sound (w.wait ticks) := by
  have hle : w.clock ≤ w.clock + ticks := Nat.le_add_right _ _
  refine ⟨h.stored, h.ids, h.renewals, h.releases,
    fun sweep read hcall => isLive_anti hle (h.retires sweep read hcall), fun id hkept => ?_,
    h.gone, h.spared, fun sweep => (h.sweeps sweep).later hle⟩
  obtain ⟨hheld, hlapsed⟩ := hkept
  simp only [World.wait, Bool.or_eq_false_iff] at hlapsed
  obtain ⟨row, turn, hid, hlookup, hnewest, -⟩ := h.promised id ⟨hheld, hlapsed.1⟩
  have hlive := hlapsed.2
  rw [hnewest, any_some, Bool.not_eq_false'] at hlive
  exact ⟨row, turn, hid, hlookup, hnewest, hlive⟩

theorem promised_store (w : World) (row : Reservation) (turn : ℕ)
    (hlapsed : (w.store row turn).lapsed row.reservationId = false) :
    Promised (w.store row turn) row.reservationId := by
  simp only [store, update_self, Bool.or_eq_false_iff, Bool.not_eq_false'] at hlapsed
  exact ⟨row, turn, rfl, lookup_insert _, update_self .., hlapsed.2⟩

theorem key_ne_of_id {left right : Reservation} (h : left.reservationId ≠ right.reservationId) :
    left.key ≠ right.key := fun heq => h (congrArg Prod.snd heq)

theorem Sound.store (h : Sound w) (hrow : SameKey w row)
    (hhold : ∀ sent, w.holds row.reservationId ≠ .released sent) : Sound (w.store row turn) := by
  refine ⟨fun key stored hlookup => ?_, h.ids, h.renewals, h.releases, h.retires,
    fun id hkept => ?_, fun id sent hreleased key stored hlookup => ?_, h.spared, h.sweeps⟩
  · by_cases hkey : key = row.key
    · subst hkey
      rw [World.store, lookup_insert] at hlookup
      cases hlookup
      exact ⟨rfl, hrow⟩
    · simp only [World.store, lookup_insert_ne hkey] at hlookup
      exact h.stored key stored hlookup
  · by_cases hother : id = row.reservationId
    · subst hother
      exact promised_store w row turn hkept.2
    · obtain ⟨hheld, hlapsed⟩ := hkept
      simp only [World.store, update_of_ne hother] at hlapsed
      obtain ⟨kept, k, hid, hlookup, hnewest, hlive⟩ := h.promised id ⟨hheld, hlapsed⟩
      refine ⟨kept, k, hid, ?_, ?_, hlive⟩
      · rw [World.store, lookup_insert_ne (key_ne_of_id (hid.symm ▸ hother))]
        exact hlookup
      · simpa only [World.store, update_of_ne hother] using hnewest
  · by_cases hkey : key = row.key
    · subst hkey
      rw [World.store, lookup_insert] at hlookup
      cases hlookup
      rintro rfl
      exact hhold sent hreleased
    · simp only [World.store, lookup_insert_ne hkey] at hlookup
      exact h.gone id sent hreleased key stored hlookup

theorem lookup_erase_some {key other : Key} (h : (w.rows.erase key).lookup other = some row) :
    other ≠ key ∧ w.rows.lookup other = some row := by
  by_cases hkey : other = key
  · subst hkey
    rw [lookup_erase] at h
    cases h
  · rw [lookup_erase_ne hkey] at h
    exact ⟨hkey, h⟩

theorem Sound.erase (h : Sound w)
    (hkey : ∀ row, w.rows.lookup key = some row → ¬ Kept w row.reservationId) :
    Sound { w with rows := w.rows.erase key } := by
  refine ⟨fun other row hlookup => h.stored other row (lookup_erase_some hlookup).2, h.ids,
    h.renewals, h.releases, h.retires, fun id hkept => ?_,
    fun id sent hreleased other stored hlookup =>
      h.gone id sent hreleased other stored (lookup_erase_some hlookup).2, h.spared, h.sweeps⟩
  obtain ⟨row, turn, rfl, hlookup, hnewest, hlive⟩ := h.promised id hkept
  refine ⟨row, turn, rfl, ?_, hnewest, hlive⟩
  have hne : row.key ≠ key := by
    rintro rfl
    exact hkey row hlookup hkept
  rw [lookup_erase_ne hne]
  exact hlookup

end Moves

/-! ## Steps -/

section Answers

variable (hold : Hold) (call : Call)

/-- An answer moves a hold on within its kind, or ends its release. -/
theorem answered_cases : hold.answered call = hold ∨
    (∃ row turn waiting, hold = .held row turn true ∧ hold.answered call = .held row turn waiting) ∨
    ∃ row, hold = .releasing row ∧ hold.answered call = .released row := by
  cases call with
  | renew row turn =>
    cases hold with
    | held sent k waiting =>
      cases waiting with
      | true => exact .inr (.inl ⟨sent, k, _, rfl, rfl⟩)
      | false => exact .inl rfl
    | _ => exact .inl rfl
  | release key =>
    cases hold with
    | releasing row => exact .inr (.inr ⟨row, rfl, rfl⟩)
    | _ => exact .inl rfl
  | retire sweep read => exact .inl rfl

@[simp] theorem row?_answered : (hold.answered call).row? = hold.row? := by
  rcases answered_cases hold call with heq | ⟨row, turn, waiting, rfl, heq⟩ | ⟨row, rfl, heq⟩ <;>
    rw [heq] <;> rfl

@[simp] theorem ending_answered : (hold.answered call).ending = hold.ending := by
  rcases answered_cases hold call with heq | ⟨row, turn, waiting, rfl, heq⟩ | ⟨row, rfl, heq⟩ <;>
    rw [heq] <;> rfl

variable {hold call}

theorem held_of_answered {turn : ℕ} {waiting : Bool}
    (h : hold.answered call = .held row turn waiting) :
    ∃ row turn waiting, hold = .held row turn waiting := by
  rcases answered_cases hold call with heq | ⟨sent, k, _, rfl, -⟩ | ⟨sent, rfl, heq⟩
  · exact ⟨row, turn, waiting, heq.symm.trans h⟩
  · exact ⟨sent, k, true, rfl⟩
  · rw [heq] at h
    cases h

end Answers

section Steps

variable {w : World} {event : Event} {live : List Reservation} {consumer : String} {w w' : World}
  {now : ℕ} {names : List Key} {id : ℕ}

theorem Sound.answered (h : Sound w) (call : Call)
    (hgone : ∀ row, (w.holds id).answered call = .released row → ∀ key stored,
      w.rows.lookup key = some stored → stored.reservationId ≠ id) :
    Sound (w.moveHold id ((w.holds id).answered call)) := by
  refine h.moveHold (fun sent hsent => ?_) (fun sent hsent => ?_) (fun hending => ?_) ?_ hgone
  · exact ⟨sent, by rw [row?_answered, hsent], rfl⟩
  · rw [row?_answered] at hsent
    exact h.ids id sent hsent
  · rw [ending_answered]
    exact hending
  · rintro ⟨row, turn, waiting, hheld⟩ hlapsed
    exact h.promised id ⟨held_of_answered hheld, hlapsed⟩

theorem Sound.recorded (h : Sound w) {removed : List (Reservation × ℕ)}
    (hremoved : ∀ row now, (row, now) ∈ removed → row.isLive now = false) :
    Sound { w with removed } :=
  ⟨h.stored, h.ids, h.renewals, h.releases, h.retires, h.promised, h.gone, hremoved, h.sweeps⟩

theorem Sound.row_eq (h : Sound w) {row other : Reservation}
    (hrow : w.rows.lookup row.key = some row) (hother : w.rows.lookup other.key = some other)
    (hid : row.reservationId = other.reservationId) : row = other := by
  obtain ⟨sent, hsent, hkey⟩ := (h.stored row.key row hrow).2
  obtain ⟨sent', hsent', hkey'⟩ := (h.stored other.key other hother).2
  rw [hid, hsent'] at hsent
  obtain rfl := Option.some.inj hsent
  rw [hkey.symm.trans hkey', hother] at hrow
  exact (Option.some.inj hrow).symm

theorem Sound.landed (h : Sound w) {call : Call} (hcall : call ∈ w.calls)
    (htimely : timely w (.land call) = true) :
    Sound (effect { w with calls := w.calls.erase call } call) := by
  have harrived := h.arrived call
  cases call with
  | renew row turn =>
    have hhold : ∀ sent, w.holds row.reservationId ≠ .released sent := by
      intro sent hsent
      simp [timely, hsent] at htimely
    have hstored : Sound (World.store { w with calls := w.calls.erase (.renew row turn) } row
        turn) := harrived.store (h.renewals row turn hcall) hhold
    refine hstored.answered (.renew row turn) fun sent hsent => ?_
    rcases answered_cases (w.holds row.reservationId) (.renew row turn) with
      heq | ⟨_, _, _, -, heq⟩ | ⟨last, hlast, -⟩
    · exact absurd (heq.symm.trans hsent) (hhold sent)
    · cases heq.symm.trans hsent
    · have hsame : (w.holds row.reservationId).answered (.renew row turn) = .released sent := hsent
      rw [hlast] at hsame
      cases hsame
  | release key =>
    obtain ⟨hending, sent, hsent, hkey⟩ := h.releases key hcall
    have herased : Sound { w with
        calls := w.calls.erase (.release key), rows := w.rows.erase key } := by
      refine harrived.erase fun row hrow hkept => ?_
      obtain ⟨⟨held, turn, waiting, hheld⟩, -⟩ := hkept
      have hid : row.reservationId = key.2 := congrArg Prod.snd (h.stored key row hrow).1
      rw [hid] at hheld
      rw [hheld] at hending
      cases hending
    refine herased.answered (.release key) fun row _ other stored hlookup hid => ?_
    obtain ⟨hne, hlookup⟩ := lookup_erase_some hlookup
    obtain ⟨hstoredKey, sent', hsent', hkey'⟩ := h.stored other stored hlookup
    rw [hid, hsent] at hsent'
    obtain rfl := Option.some.inj hsent'
    exact hne (hstoredKey.symm.trans (hkey'.symm.trans hkey))
  | retire sweep read =>
    have hdead := h.retires sweep read hcall
    have hremoved : ∀ row, w.rows.lookup read.key = some row → row.isLive w.clock = false := by
      intro row hrow
      simp only [timely, hrow, all_some, Bool.or_eq_true, decide_eq_true_eq,
        Bool.not_eq_true'] at htimely
      rcases htimely with rfl | hlive
      · exact hdead
      · exact hlive
    have herased : Sound { w with
        calls := w.calls.erase (.retire sweep read), rows := w.rows.erase read.key } := by
      refine harrived.erase fun row hrow hkept => ?_
      obtain ⟨kept, turn, hid, hlookup, -, hlive⟩ := h.promised row.reservationId hkept
      have hrow' : w.rows.lookup row.key = some row := by
        rw [(h.stored read.key row hrow).1]
        exact hrow
      obtain rfl := h.row_eq hlookup hrow' hid
      exact absurd (hremoved kept hrow) (by rw [hlive]; simp)
    refine (herased.recorded fun row now hmem => ?_).moveSweep ?_
    · rcases mem_append.mp hmem with hmem | hmem
      · rw [mem_toList] at hmem
        obtain ⟨found, hfound, heq⟩ := map_eq_some_iff.mp hmem
        obtain ⟨rfl, rfl⟩ := Prod.mk.inj heq
        exact hremoved _ hfound
      · exact h.spared row now hmem
    · have hsweep := h.sweeps sweep
      revert hsweep
      cases w.sweeps sweep <;> exact fun hsweep => hsweep

theorem Sound.created (h : Sound w)
    (hid : row.reservationId = id) (hrow : (w.holds id).row? = some row)
    (hending : (w.holds id).ending = false) (hhold : hold.row? = some row)
    (hnew : ∀ sent, hold ≠ .released sent) : Sound (created w id row hold) := by
  subst hid
  have hkey : ∀ later : Hold, later.row? = some row → ∀ sent,
      (w.holds row.reservationId).row? = some sent → ∃ sent', later.row? = some sent' ∧
        sent'.key = sent.key := by
    intro later hlater sent hsent
    rw [hrow] at hsent
    cases hsent
    exact ⟨row, hlater, rfl⟩
  have hids : ∀ later : Hold, later.row? = some row → ∀ sent, later.row? = some sent →
      sent.reservationId = row.reservationId := by
    intro later hlater sent hsent
    rw [hlater] at hsent
    cases hsent
    rfl
  unfold created
  split
  · refine h.moveHold (hkey (.gone row) rfl) (hids (.gone row) rfl) (fun _ => rfl) ?_ ?_
    · rintro ⟨sent, turn, waiting, heq⟩
      cases heq
    · intro sent heq
      cases heq
  · have hstored : Sound (w.store row 0) := h.store ⟨row, hrow, rfl⟩ fun sent hsent => by
      rw [hsent] at hending
      cases hending
    refine hstored.moveHold (hkey hold hhold) (hids hold hhold) (fun hends => ?_)
      (fun _ hlapsed => promised_store w row 0 hlapsed) (fun sent heq => absurd heq (hnew sent))
    have hends' : (w.holds row.reservationId).ending = true := hends
    rw [hending] at hends'
    cases hends'

theorem Sweep.Lists.tail
    (h : Lists consumer now (key :: names) live) : Lists consumer now names live := by
  refine ⟨fun other hother => h.named other (mem_cons_of_mem _ hother), ?_, h.counted⟩
  exact h.distinct.sublist ((List.Sublist.refl _).append (sublist_cons_self _ _))

theorem Sweep.Lists.counting (h : Lists consumer now (row.key :: names) live)
    (hlive : row.isLive now = true) : Lists consumer now names (live ++ [row]) := by
  refine ⟨h.tail.named, ?_, fun other hother => ?_⟩
  · rw [map_append, append_assoc]
    exact h.distinct
  · rcases mem_append.mp hother with hother | hother
    · exact h.counted other hother
    · obtain rfl := mem_singleton.mp hother
      exact ⟨h.named other.key (mem_cons_self ..), hlive⟩

theorem Sweep.Lists.sorted {live sorted : List Reservation} (h : Lists consumer now [] live)
    (hperm : sorted.Perm live) : Lists consumer now [] sorted := by
  refine ⟨h.named, ?_, fun row hrow => h.counted row (hperm.mem_iff.mp hrow)⟩
  rw [append_nil]
  have hdistinct := h.distinct
  rw [append_nil] at hdistinct
  exact (hperm.map Reservation.key).nodup_iff.mpr hdistinct

theorem lists_directory (w : World) (consumer : String) (now : ℕ) :
    Lists consumer now (directory w consumer) [] := by
  refine ⟨fun key hkey => ?_, ?_, fun row hrow => by cases hrow⟩
  · have hmem := (mem_filter.mp hkey).2
    exact of_decide_eq_true hmem
  · exact (w.rows.keys_nodup).filter _

/-- A hold that has not begun or is under way takes a new row of its id. -/
theorem Sound.renewing (h : Sound w) {row renewed : Reservation}
    (hrow : (w.holds id).row? = some row) (hhold : hold.row? = some renewed)
    (hkey : renewed.key = row.key) (hending : (w.holds id).ending = true → hold.ending = true)
    (hheld : (∃ row turn waiting, hold = .held row turn waiting) →
      ∃ row turn waiting, w.holds id = .held row turn waiting)
    (hnew : ∀ sent, hold ≠ .released sent) : Sound (w.moveHold id hold) := by
  have hid : renewed.reservationId = id := by
    rw [← h.ids id row hrow]
    exact congrArg Prod.snd hkey
  refine h.moveHold (fun sent hsent => ?_) (fun sent hsent => ?_) hending
    (fun hheld' hlapsed => h.promised id ⟨hheld hheld', hlapsed⟩)
    (fun sent heq => absurd heq (hnew sent))
  · rw [hrow] at hsent
    cases hsent
    exact ⟨renewed, hhold, hkey⟩
  · rw [hhold] at hsent
    cases hsent
    exact hid

theorem Sound.step (h : Sound w) (htimely : timely w event = true)
    (hstep : step w event = some w') : Sound w' := by
  cases event with
  | wait ticks =>
    cases hstep
    exact h.wait ticks
  | land call =>
    simp only [step] at hstep
    split at hstep
    · next hcall =>
      cases hstep
      exact h.landed hcall htimely
    · cases hstep
  | lose call =>
    simp only [step] at hstep
    split at hstep
    · cases hstep
      exact h.arrived call
    · cases hstep
  | acquire id request =>
    simp only [step] at hstep
    split at hstep
    · next hidle =>
      cases hstep
      refine h.moveHold (fun sent hsent => ?_) (fun sent hsent => ?_) (fun hending => ?_) ?_
        (fun sent heq => by cases heq)
      · rw [hidle] at hsent
        cases hsent
      · cases hsent
        rfl
      · rw [hidle] at hending
        cases hending
      · rintro ⟨row, turn, waiting, heq⟩
        cases heq
    · cases hstep
  | create id =>
    simp only [step] at hstep
    split at hstep
    · next row hhold =>
      cases hstep
      have hrow : (w.holds id).row? = some row := by rw [hhold]; rfl
      exact h.created (h.ids id row hrow) hrow (by rw [hhold]; rfl) rfl
        (fun sent heq => by cases heq)
    · next row hhold =>
      cases hstep
      have hrow : (w.holds id).row? = some row := by rw [hhold]; rfl
      exact h.created (h.ids id row hrow) hrow (by rw [hhold]; rfl) rfl
        (fun sent heq => by cases heq)
    · cases hstep
  | miss id =>
    have hgone : ∀ row, (w.holds id).row? = some row → Sound (w.moveHold id (.gone row)) := by
      intro row hrow
      refine h.renewing hrow rfl rfl (fun _ => rfl) ?_ (fun sent heq => by cases heq)
      rintro ⟨sent, turn, waiting, heq⟩
      cases heq
    simp only [step] at hstep
    split at hstep
    · next row hhold =>
      cases hstep
      exact hgone row (by rw [hhold]; rfl)
    · next row hhold =>
      cases hstep
      exact hgone row (by rw [hhold]; rfl)
    · cases hstep
  | renew id promise =>
    simp only [step] at hstep
    split at hstep
    · next row turn hhold =>
      cases hstep
      have hrow : (w.holds id).row? = some row := by rw [hhold]; rfl
      have hkey : (row.heartbeat w.clock promise).key = row.key := rfl
      have hmoved : Sound (w.moveHold id
          (.held (row.heartbeat w.clock promise) (turn + 1) true)) :=
        h.renewing hrow rfl hkey (fun hending => by rw [hhold] at hending; cases hending)
          (fun _ => ⟨row, turn, false, hhold⟩) (fun sent heq => by cases heq)
      refine hmoved.renewed ⟨row.heartbeat w.clock promise, ?_, rfl⟩
      have hid : (row.heartbeat w.clock promise).reservationId = id := h.ids id row hrow
      simp [World.moveHold, hid, row?]
    · cases hstep
  | release id =>
    simp only [step] at hstep
    split at hstep
    · next row turn waiting hhold =>
      cases hstep
      have hrow : (w.holds id).row? = some row := by rw [hhold]; rfl
      have hmoved : Sound (w.moveHold id (.releasing row)) := by
        refine h.renewing hrow rfl rfl (fun _ => rfl) ?_ (fun sent heq => by cases heq)
        rintro ⟨sent, turn, waiting, heq⟩
        cases heq
      have hid : row.key.2 = id := h.ids id row hrow
      refine hmoved.releasing ?_ ⟨row, ?_, rfl⟩
      · simp [World.moveHold, hid, ending]
      · simp [World.moveHold, hid, row?]
    · cases hstep
  | giveUp id =>
    have hgone : ∀ row, (w.holds id).row? = some row → Sound (w.moveHold id (.gone row)) := by
      intro row hrow
      refine h.renewing hrow rfl rfl (fun _ => rfl) ?_ (fun sent heq => by cases heq)
      rintro ⟨sent, turn, waiting, heq⟩
      cases heq
    simp only [step] at hstep
    split at hstep
    · next row turn hhold =>
      cases hstep
      have hrow : (w.holds id).row? = some row := by rw [hhold]; rfl
      exact h.renewing hrow rfl rfl (fun hending => by rw [hhold] at hending; cases hending)
        (fun _ => ⟨row, turn, true, hhold⟩) (fun sent heq => by cases heq)
    · next row hhold =>
      cases hstep
      have hrow : (w.holds id).row? = some row := by rw [hhold]; rfl
      refine h.renewing hrow rfl rfl (fun hending => by rw [hhold] at hending; cases hending) ?_
        (fun sent heq => by cases heq)
      rintro ⟨sent, turn, waiting, heq⟩
      cases heq
    · next row turn hhold =>
      cases hstep
      exact hgone row (by rw [hhold]; rfl)
    · next row hhold =>
      cases hstep
      exact hgone row (by rw [hhold]; rfl)
    · cases hstep
  | sweep id consumer =>
    simp only [step] at hstep
    split at hstep
    · cases hstep
      exact h.moveSweep (Nat.le_refl _)
    · cases hstep
  | list id =>
    simp only [step] at hstep
    split at hstep
    · next consumer now hsweep =>
      cases hstep
      have hsound := h.sweeps id
      rw [hsweep] at hsound
      exact h.moveSweep ⟨hsound, lists_directory w consumer now⟩
    · cases hstep
  | read id =>
    have hsound := h.sweeps id
    simp only [step] at hstep
    split at hstep
    · next consumer now live retired hsweep =>
      cases hstep
      rw [hsweep] at hsound
      exact h.moveSweep (hsound.2.sorted (perm_insertionSort _ _))
    · next consumer now key names live retired hsweep =>
      rw [hsweep] at hsound
      obtain ⟨hnow, hlists⟩ := hsound
      split at hstep
      · cases hstep
        exact h.moveSweep ⟨hnow, hlists.tail⟩
      · next row hrow =>
        obtain ⟨rfl, -⟩ := h.stored key row hrow
        split at hstep
        · next hlive =>
          cases hstep
          exact h.moveSweep ⟨hnow, hlists.counting hlive⟩
        · next hdead =>
          cases hstep
          have hmoved : Sound (w.moveSweep id (.retiring consumer now names live retired)) :=
            h.moveSweep ⟨hnow, hlists.tail⟩
          exact hmoved.retiring (isLive_anti hnow (Bool.eq_false_iff.mpr hdead))
    · cases hstep
  | abandon id =>
    simp only [step] at hstep
    split at hstep
    · cases hstep
      exact h.moveSweep trivial
    · cases hstep
      exact h.moveSweep trivial
    · cases hstep
      exact h.moveSweep trivial
    · cases hstep

end Steps

theorem sound_start : Sound start := by
  refine ⟨fun key row hrow => ?_, fun id row hrow => ?_, fun row turn hcall => ?_,
    fun key hcall => ?_, fun sweep read hcall => ?_, fun id hkept => ?_, fun id row hhold => ?_,
    fun row now hrow => ?_, fun sweep => trivial⟩
  · cases hrow
  · cases hrow
  · cases hcall
  · cases hcall
  · cases hcall
  · obtain ⟨⟨row, turn, waiting, hheld⟩, -⟩ := hkept
    cases hheld
  · cases hhold
  · cases hrow

/-- The steps a run takes meet the condition. -/
def Timely (w : World) (event : Event) : Prop := timely w event = true

instance decidableTimely : ∀ w event, Decidable (Timely w event) :=
  fun w event => inferInstanceAs (Decidable (timely w event = true))

theorem sound_of_reaches (h : Reaches step Timely w w') (hw : Sound w) : Sound w' :=
  h.invariant hw fun _ _ _ hsound hmet hnext => hsound.step hmet hnext

/-! ## Sweeps of a hold that keeps its promise -/

/-- The create of the hold has been answered. -/
def Hold.begun : Hold → Bool
  | .idle | .acquiring _ | .abandoned _ => false
  | .held _ _ _ | .releasing _ | .released _ | .gone _ => true

/-- How a hold whose create has been answered moves on. -/
structure Hold.Goes (hold later : Hold) : Prop where
  begun : later.begun = true
  key : ∀ row, hold.row? = some row → ∃ row', later.row? = some row' ∧ row'.key = row.key
  held : (∃ row turn waiting, later = .held row turn waiting) →
    ∃ row turn waiting, hold = .held row turn waiting

theorem Hold.Goes.refl (h : hold.begun = true) : Goes hold hold :=
  ⟨h, fun row hrow => ⟨row, hrow, rfl⟩, fun hheld => hheld⟩

theorem goes_of_ending {hold later : Hold} (hrow : hold.row? = some row)
    (hlater : later.row? = some row) (hending : later.ending = true) : Goes hold later := by
  refine ⟨?_, fun sent hsent => ?_, ?_⟩
  · cases later <;> first | rfl | cases hending
  · rw [hrow] at hsent
    cases hsent
    exact ⟨row, hlater, rfl⟩
  · rintro ⟨sent, turn, waiting, rfl⟩
    cases hending

theorem goes_answered (call : Call) (h : hold.begun = true) :
    Goes hold (hold.answered call) := by
  refine ⟨?_, fun row hrow => ⟨row, by rw [row?_answered, hrow], rfl⟩,
    fun ⟨_, _, _, hheld⟩ => held_of_answered hheld⟩
  rcases answered_cases hold call with heq | ⟨row, turn, waiting, -, heq⟩ | ⟨row, -, heq⟩
  · rw [heq]
    exact h
  · rw [heq]
    rfl
  · rw [heq]
    rfl

section Holds

variable {w w' : World} {id : ℕ}

theorem goes_moveHold {other : ℕ} (hbegun : (w.holds id).begun = true)
    (h : (w.holds other).begun = true → Goes (w.holds other) hold) :
    Goes (w.holds id) ((w.moveHold other hold).holds id) := by
  by_cases hother : id = other
  · subst hother
    simp only [moveHold, update_self]
    exact h hbegun
  · simp only [moveHold, update_of_ne hother]
    exact Goes.refl hbegun

theorem goes_step (hstep : step w event = some w')
    (hbegun : (w.holds id).begun = true) : Goes (w.holds id) (w'.holds id) := by
  have hsame : Goes (w.holds id) (w.holds id) := Goes.refl hbegun
  cases event with
  | wait ticks =>
    cases hstep
    exact hsame
  | land call =>
    simp only [step] at hstep
    split at hstep
    · cases hstep
      cases call with
      | renew row turn => exact goes_moveHold hbegun (goes_answered _)
      | release key => exact goes_moveHold hbegun (goes_answered _)
      | retire sweep read => exact hsame
    · cases hstep
  | lose call =>
    simp only [step] at hstep
    split at hstep
    · cases hstep
      exact hsame
    · cases hstep
  | acquire other request =>
    simp only [step] at hstep
    split at hstep
    · next hidle =>
      cases hstep
      refine goes_moveHold hbegun fun h => ?_
      rw [hidle] at h
      cases h
    · cases hstep
  | create other =>
    have hcreated : ∀ row hold, (w.holds other).begun = false →
        Goes (w.holds id) ((created w other row hold).holds id) := by
      intro row hold hother
      unfold created
      split
      · exact goes_moveHold hbegun fun h => by rw [hother] at h; cases h
      · exact goes_moveHold (w := w.store row 0) hbegun fun h => by
          rw [show (w.store row 0).holds other = w.holds other from rfl, hother] at h
          cases h
    simp only [step] at hstep
    split at hstep
    · next row hhold =>
      cases hstep
      exact hcreated row _ (by rw [hhold]; rfl)
    · next row hhold =>
      cases hstep
      exact hcreated row _ (by rw [hhold]; rfl)
    · cases hstep
  | miss other =>
    simp only [step] at hstep
    split at hstep
    · next row hhold =>
      cases hstep
      exact goes_moveHold hbegun fun h => by rw [hhold] at h; cases h
    · next row hhold =>
      cases hstep
      exact goes_moveHold hbegun fun h => by rw [hhold] at h; cases h
    · cases hstep
  | renew other promise =>
    simp only [step] at hstep
    split at hstep
    · next row turn hhold =>
      cases hstep
      refine goes_moveHold hbegun fun _ => ⟨rfl, fun sent hsent => ?_, fun _ => ?_⟩
      · rw [hhold] at hsent
        cases hsent
        exact ⟨row.heartbeat w.clock promise, rfl, rfl⟩
      · exact ⟨row, turn, false, hhold⟩
    · cases hstep
  | release other =>
    simp only [step] at hstep
    split at hstep
    · next row turn waiting hhold =>
      cases hstep
      exact goes_moveHold hbegun fun _ => goes_of_ending (by rw [hhold]; rfl) rfl rfl
    · cases hstep
  | giveUp other =>
    simp only [step] at hstep
    split at hstep
    · next row turn hhold =>
      cases hstep
      refine goes_moveHold hbegun fun _ => ⟨rfl, fun sent hsent => ?_, fun _ => ?_⟩
      · rw [hhold] at hsent
        cases hsent
        exact ⟨row, rfl, rfl⟩
      · exact ⟨row, turn, true, hhold⟩
    · next row hhold =>
      cases hstep
      exact goes_moveHold hbegun fun h => by rw [hhold] at h; cases h
    · next row turn hhold =>
      cases hstep
      exact goes_moveHold hbegun fun _ => goes_of_ending (by rw [hhold]; rfl) rfl rfl
    · next row hhold =>
      cases hstep
      exact goes_moveHold hbegun fun _ => goes_of_ending (by rw [hhold]; rfl) rfl rfl
    · cases hstep
  | sweep other consumer =>
    simp only [step] at hstep
    split at hstep
    · cases hstep
      exact hsame
    · cases hstep
  | list other =>
    simp only [step] at hstep
    split at hstep
    · cases hstep
      exact hsame
    · cases hstep
  | read other =>
    simp only [step] at hstep
    split at hstep
    · cases hstep
      exact hsame
    · split at hstep
      · cases hstep
        exact hsame
      · split at hstep <;> cases hstep <;> exact hsame
    · cases hstep
  | abandon other =>
    simp only [step] at hstep
    split at hstep <;> cases hstep <;> exact hsame

theorem lapsed_store {turn : ℕ} (h : (w.store row turn).lapsed id = false) :
    w.lapsed id = false := by
  by_cases hother : id = row.reservationId
  · subst hother
    simp only [store, update_self, Bool.or_eq_false_iff] at h
    exact h.1
  · simpa only [store, update_of_ne hother] using h

theorem lapsed_step (hstep : step w event = some w')
    (h : w'.lapsed id = false) : w.lapsed id = false := by
  cases event with
  | wait ticks =>
    cases hstep
    simp only [wait, Bool.or_eq_false_iff] at h
    exact h.1
  | land call =>
    simp only [step] at hstep
    split at hstep
    · cases hstep
      cases call with
      | renew row turn =>
        have hstored : (w.store row turn).lapsed id = false := h
        exact lapsed_store hstored
      | _ => exact h
    · cases hstep
  | create other =>
    have hcreated : ∀ row hold, (created w other row hold).lapsed id = false →
        w.lapsed id = false := by
      intro row hold hlapsed
      unfold created at hlapsed
      split at hlapsed
      · exact hlapsed
      · have hstored : (w.store row 0).lapsed id = false := hlapsed
        exact lapsed_store hstored
    simp only [step] at hstep
    split at hstep
    · cases hstep
      exact hcreated _ _ h
    · cases hstep
      exact hcreated _ _ h
    · cases hstep
  | lose _ | acquire _ _ | miss _ | renew _ _ | release _ | giveUp _ | sweep _ _ | list _
  | abandon _ =>
    simp only [step] at hstep
    split at hstep <;> cases hstep <;> exact h
  | read other =>
    simp only [step] at hstep
    split at hstep
    · cases hstep
      exact h
    · split at hstep
      · cases hstep
        exact h
      · split at hstep <;> cases hstep <;> exact h
    · cases hstep

/-- A hold that keeps its promise after a step kept it before. -/
theorem kept_step (hstep : step w event = some w')
    (hbegun : (w.holds id).begun = true) (h : Kept w' id) : Kept w id :=
  ⟨(goes_step hstep hbegun).held h.1, lapsed_step hstep h.2⟩

end Holds

def Sweep.found : Sweep → List Reservation
  | .reading _ _ _ live _ | .retiring _ _ _ live _ | .swept _ _ live _ => live
  | .idle | .started _ _ | .failed => []

def Sweep.Covers (consumer : String) (id : ℕ) (sweep : Sweep) : Prop :=
  match sweep with
  | .started of _ => of = consumer
  | .reading of _ names live _ | .retiring of _ names live _ =>
    of = consumer ∧ ((consumer, id) ∈ names ∨ id ∈ live.map Reservation.reservationId)
  | .swept of _ live _ => of = consumer ∧ id ∈ live.map Reservation.reservationId
  | .failed => True
  | .idle => False

section Sweeps

variable {w w' : World} {id sweep : ℕ} {consumer : String} {before after : Sweep}

/-- A step of a sweep, as the sweep sees it: it stays, it starts, it fails, a
delete of it is answered, or it lists the directory or reads a row. -/
inductive Sweep.Moves (w : World) : Sweep → Sweep → Prop
  | same (sweep : Sweep) : Moves w sweep sweep
  | starts (consumer : String) : Moves w .idle (.started consumer w.clock)
  | fails (sweep : Sweep) : Moves w sweep .failed
  | answered (sweep : Sweep) : Moves w sweep sweep.answered
  | lists (consumer : String) (now : ℕ) :
      Moves w (.started consumer now) (.reading consumer now (directory w consumer) [] 0)
  | ends (consumer : String) (now : ℕ) (live : List Reservation) (retired : ℕ) :
      Moves w (.reading consumer now [] live retired) (.swept consumer now
        (live.insertionSort fun left right => left.acquiredAt ≤ right.acquiredAt) retired)
  | misses (consumer : String) (now : ℕ) (key : Key) (names : List Key)
      (live : List Reservation) (retired : ℕ) (missing : w.rows.lookup key = none) :
      Moves w (.reading consumer now (key :: names) live retired)
        (.reading consumer now names live retired)
  | counts (consumer : String) (now : ℕ) (key : Key) (names : List Key)
      (live : List Reservation) (retired : ℕ) (row : Reservation)
      (stored : w.rows.lookup key = some row) :
      Moves w (.reading consumer now (key :: names) live retired)
        (.reading consumer now names (live ++ [row]) retired)
  | retires (consumer : String) (now : ℕ) (key : Key) (names : List Key)
      (live : List Reservation) (retired : ℕ) (row : Reservation)
      (stored : w.rows.lookup key = some row) (dead : row.isLive now = false) :
      Moves w (.reading consumer now (key :: names) live retired)
        (.retiring consumer now names live retired)

theorem moves_moveSweep {other : ℕ} {later : Sweep} (h : Moves w (w.sweeps other) later) :
    Moves w (w.sweeps sweep) ((w.moveSweep other later).sweeps sweep) := by
  by_cases hother : sweep = other
  · subst hother
    simpa only [moveSweep, update_self] using h
  · simpa only [moveSweep, update_of_ne hother] using Moves.same _

theorem moves_step (hstep : step w event = some w') :
    Moves w (w.sweeps sweep) (w'.sweeps sweep) := by
  have hsame : Moves w (w.sweeps sweep) (w.sweeps sweep) := .same _
  cases event with
  | wait ticks =>
    cases hstep
    exact hsame
  | land call =>
    simp only [step] at hstep
    split at hstep
    · cases hstep
      cases call with
      | renew row turn => exact hsame
      | release key => exact hsame
      | retire other read => exact moves_moveSweep (.answered _)
    · cases hstep
  | create other =>
    have hcreated : ∀ row hold, (created w other row hold).sweeps sweep = w.sweeps sweep := by
      intro row hold
      unfold created
      split <;> rfl
    simp only [step] at hstep
    split at hstep
    · cases hstep
      rw [hcreated]
      exact hsame
    · cases hstep
      rw [hcreated]
      exact hsame
    · cases hstep
  | lose _ | acquire _ _ | miss _ | renew _ _ | release _ | giveUp _ =>
    simp only [step] at hstep
    split at hstep <;> cases hstep <;> exact hsame
  | sweep other consumer =>
    simp only [step] at hstep
    split at hstep
    · next hidle =>
      cases hstep
      refine moves_moveSweep ?_
      rw [hidle]
      exact .starts consumer
    · cases hstep
  | list other =>
    simp only [step] at hstep
    split at hstep
    · next consumer now hstarted =>
      cases hstep
      refine moves_moveSweep ?_
      rw [hstarted]
      exact .lists consumer now
    · cases hstep
  | read other =>
    simp only [step] at hstep
    split at hstep
    · next consumer now live retired hreading =>
      cases hstep
      refine moves_moveSweep ?_
      rw [hreading]
      exact .ends consumer now live retired
    · next consumer now key names live retired hreading =>
      split at hstep
      · next hmissing =>
        cases hstep
        refine moves_moveSweep ?_
        rw [hreading]
        exact .misses consumer now key names live retired hmissing
      · next row hstored =>
        split at hstep
        · cases hstep
          refine moves_moveSweep ?_
          rw [hreading]
          exact .counts consumer now key names live retired row hstored
        · next hdead =>
          cases hstep
          refine moves_moveSweep ?_
          rw [hreading]
          exact .retires consumer now key names live retired row hstored
            (Bool.eq_false_iff.mpr hdead)
    · cases hstep
  | abandon other =>
    simp only [step] at hstep
    split at hstep <;> cases hstep <;> exact moves_moveSweep (.fails _)

theorem found_moves (h : Sound w) (hmoves : Moves w before after)
    (hrow : row ∈ after.found) : row ∈ before.found ∨ w.rows.lookup row.key = some row := by
  cases hmoves with
  | same => exact .inl hrow
  | starts consumer => cases hrow
  | fails => cases hrow
  | answered =>
    refine .inl ?_
    revert hrow
    cases before <;> exact fun hrow => hrow
  | lists consumer now => cases hrow
  | ends consumer now live retired => exact .inl ((perm_insertionSort _ _).mem_iff.mp hrow)
  | misses consumer now key names live retired missing => exact .inl hrow
  | counts consumer now key names live retired read stored =>
    rcases mem_append.mp hrow with hrow | hrow
    · exact .inl hrow
    · obtain rfl := mem_singleton.mp hrow
      rw [(h.stored key row stored).1]
      exact .inr stored
  | retires consumer now key names live retired read stored dead => exact .inl hrow

/-- While a hold keeps its promise, each step of a sweep of its consumer leaves
it found or still to be read. -/
theorem covers_moves (h : Sound w)
    (hmoves : Moves w before after) (hsound : before.Sound w.clock)
    (hrow : w.rows.lookup (consumer, id) = some row) (hlive : row.isLive w.clock = true)
    (hcovers : before.Covers consumer id) : after.Covers consumer id := by
  have hid : row.reservationId = id := congrArg Prod.snd (h.stored (consumer, id) row hrow).1
  cases hmoves with
  | same => exact hcovers
  | starts other => exact hcovers.elim
  | fails => trivial
  | answered =>
    revert hcovers
    cases before <;> exact fun hcovers => hcovers
  | lists other now =>
    obtain rfl : other = consumer := hcovers
    refine ⟨rfl, .inl (mem_filter.mpr ⟨?_, decide_eq_true rfl⟩)⟩
    exact lookup_isSome.mp (by rw [hrow]; rfl)
  | ends other now live retired =>
    obtain ⟨rfl, hnames | hfound⟩ := hcovers
    · cases hnames
    · exact ⟨rfl, ((perm_insertionSort _ _).map _).mem_iff.mpr hfound⟩
  | misses other now key names live retired missing =>
    obtain ⟨rfl, hnames | hfound⟩ := hcovers
    · rcases mem_cons.mp hnames with rfl | hnames
      · rw [missing] at hrow
        cases hrow
      · exact ⟨rfl, .inl hnames⟩
    · exact ⟨rfl, .inr hfound⟩
  | counts other now key names live retired read stored =>
    obtain ⟨rfl, hnames | hfound⟩ := hcovers
    · rcases mem_cons.mp hnames with rfl | hnames
      · rw [stored] at hrow
        cases hrow
        refine ⟨rfl, .inr ?_⟩
        rw [map_append]
        exact mem_append_right _ (mem_singleton.mpr hid.symm)
      · exact ⟨rfl, .inl hnames⟩
    · refine ⟨rfl, .inr ?_⟩
      rw [map_append]
      exact mem_append_left _ hfound
  | retires other now key names live retired read stored dead =>
    obtain ⟨rfl, hnames | hfound⟩ := hcovers
    · rcases mem_cons.mp hnames with rfl | hnames
      · rw [stored] at hrow
        cases hrow
        rw [isLive_mono hsound.1 hlive] at dead
        cases dead
      · exact ⟨rfl, .inl hnames⟩
    · exact ⟨rfl, .inr hfound⟩

end Sweeps

section Runs

variable {w started w' : World} {id sweep : ℕ} {consumer : String}

/-- The hold of the key has begun, and while it keeps its promise the sweep
covers it. -/
structure Watched (consumer : String) (id sweep : ℕ) (w : World) : Prop where
  begun : (w.holds id).begun = true
  key : ∃ row, (w.holds id).row? = some row ∧ row.key = (consumer, id)
  covers : Kept w id → (w.sweeps sweep).Covers consumer id

theorem watched_step (h : Sound w) (hwatched : Watched consumer id sweep w)
    (hstep : step w event = some w') : Watched consumer id sweep w' := by
  have hgoes := goes_step hstep hwatched.begun
  obtain ⟨row, hrow, hkey⟩ := hwatched.key
  obtain ⟨row', hrow', hkey'⟩ := hgoes.key row hrow
  refine ⟨hgoes.begun, ⟨row', hrow', hkey'.trans hkey⟩, fun hkept => ?_⟩
  have hbefore := kept_step hstep hwatched.begun hkept
  obtain ⟨stored, turn, hid, hlookup, -, hlive⟩ := h.promised id hbefore
  have hstoredKey : stored.key = (consumer, id) := by
    obtain ⟨sent, hsent, hsame⟩ := (h.stored stored.key stored hlookup).2
    rw [hid, hrow] at hsent
    obtain rfl := Option.some.inj hsent
    exact hsame.symm.trans hkey
  rw [hstoredKey] at hlookup
  exact covers_moves h (moves_step hstep) (h.sweeps sweep) hlookup hlive (hwatched.covers hbefore)

theorem watched_of_reaches (hrun : Reaches step Timely started w) (h : Sound started)
    (hwatched : Watched consumer id sweep started) : Watched consumer id sweep w := by
  have hboth : Sound w ∧ Watched consumer id sweep w :=
    hrun.invariant (I := fun w => Sound w ∧ Watched consumer id sweep w) ⟨h, hwatched⟩
      fun _ _ _ hboth hmet hnext => ⟨hboth.1.step hmet hnext, watched_step hboth.1 hboth.2 hnext⟩
  exact hboth.2

def StoredBetween (started w : World) (row : Reservation) : Prop :=
  ∃ between, Reaches step Timely started between ∧ Reaches step Timely between w ∧
    between.rows.lookup row.key = some row

theorem found_of_reaches (hrun : Reaches step Timely started w) (h : Sound started)
    (hfound : (started.sweeps sweep).found = []) :
    ∀ row ∈ (w.sweeps sweep).found, StoredBetween started w row := by
  induction hrun with
  | refl =>
    intro row hrow
    rw [hfound] at hrow
    cases hrow
  | @tail between after event hrun hmet hnext ih =>
    intro row hrow
    have hsound := sound_of_reaches hrun h
    rcases found_moves hsound (moves_step hnext) hrow with hbefore | hstored
    · obtain ⟨seen, hseen, hrest, hlookup⟩ := ih row hbefore
      exact ⟨seen, hseen, .tail hrest hmet hnext, hlookup⟩
    · exact ⟨between, hrun, .tail .refl hmet hnext, hstored⟩

/-- A sweep of a consumer lists the reservations that stood and kept their
promise from its start to its end, and only rows that were stored meanwhile. -/
structure Complete (started w : World) (consumer : String) (live : List Reservation) : Prop where
  listed : ∀ id, Kept started id → OfConsumer started id consumer → Kept w id →
    id ∈ live.map Reservation.reservationId
  stored : ∀ row ∈ live, StoredBetween started w row

theorem complete_of_reaches (h : Sound w) (hstart : step w (.sweep sweep consumer) = some started)
    (hrun : Reaches step Timely started w') {now retired : ℕ}
    (hswept : w'.sweeps sweep = .swept consumer now live retired) :
    Complete started w' consumer live := by
  have hsound : Sound started := h.step rfl hstart
  have hstarted : started.sweeps sweep = .started consumer w.clock := by
    simp only [step] at hstart
    split at hstart
    · cases hstart
      simp [moveSweep]
    · cases hstart
  have hfound : ∀ row ∈ (w'.sweeps sweep).found, StoredBetween started w' row :=
    found_of_reaches hrun hsound (by rw [hstarted]; rfl)
  rw [hswept] at hfound
  refine ⟨fun id hkept hof hkept' => ?_, hfound⟩
  obtain ⟨row, hrow, hconsumer⟩ := hof
  have hwatched : Watched consumer id sweep started := by
    refine ⟨?_, ⟨row, hrow, Prod.ext hconsumer (hsound.ids id row hrow)⟩, fun _ => ?_⟩
    · obtain ⟨⟨held, turn, waiting, hheld⟩, -⟩ := hkept
      rw [hheld]
      rfl
    · rw [hstarted]
      exact rfl
  have hcovers := (watched_of_reaches hrun hsound hwatched).covers hkept'
  rw [hswept] at hcovers
  exact hcovers.2

end Runs

theorem of_eq_sum_toFinset {reservations : List Reservation} (h : reservations.Nodup) :
    Reserved.of reservations = ⟨∑ row ∈ reservations.toFinset, row.cpuCores,
      ∑ row ∈ reservations.toFinset, row.ramGb, ∑ row ∈ reservations.toFinset, row.vramGb⟩ := by
  rw [of_eq_sums, sum_toFinset _ h, sum_toFinset _ h, sum_toFinset _ h]

/-- In every run whose renewals land before the release of their hold returns
and before later renewals, and whose sweeps do not delete a live row that was
renewed since they read it: no sweep deletes a live row, no row of a released
reservation is stored, what a sweep reserves is the sum over distinct live
reservations of its consumer, and these are all that keep their promise. -/
theorem counted_while_held {w : World} (hrun : Reaches step Timely start w) :
    Counted w ∧
    (∀ sweep consumer now live retired, w.sweeps sweep = .swept consumer now live retired →
      Reserved.of live = ⟨∑ row ∈ live.toFinset, row.cpuCores, ∑ row ∈ live.toFinset, row.ramGb,
        ∑ row ∈ live.toFinset, row.vramGb⟩) ∧
    ∀ sweep consumer started w' now live retired, step w (.sweep sweep consumer) = some started →
      Reaches step Timely started w' → w'.sweeps sweep = .swept consumer now live retired →
        Complete started w' consumer live := by
  have hsound := sound_of_reaches hrun sound_start
  refine ⟨hsound.counted, fun sweep consumer now live retired hswept => ?_,
    fun sweep consumer started w' now live retired hstart hrest hswept =>
      complete_of_reaches hsound hstart hrest hswept⟩
  have hdistinct := (hsound.counted.distinct sweep consumer now live retired hswept).1
  exact of_eq_sum_toFinset (List.Nodup.of_map _ hdistinct)

/-! ## A late renewal and a late delete -/

/-- A workload of one core, to be renewed within two seconds. -/
def oneCore : ReservationRequest :=
  ⟨"agent", "box", "queue", "jobs", "job-1", 1, 2, 0, 2 * second⟩

/-- The row of hold 0 as of this instant. -/
def renewedAt (now : ℕ) : Reservation :=
  { oneCore.row 0 0 with heartbeatAt := now }

def acquired (now : ℕ) : List Event :=
  [.acquire 0 oneCore, .create 0, .wait now, .renew 0 (2 * second)]

/-- A sweep of the agent's that finds one row. -/
def sweepOne (sweep : ℕ) : List Event :=
  [.sweep sweep "agent", .list sweep, .read sweep, .read sweep]

theorem counted_in_time : ∃ w, Counted w ∧
    w.sweeps 0 = .swept "agent" second [renewedAt second] 0 ∧
    w.sweeps 1 = .swept "agent" second [] 0 := by
  have hrun : ∃ w, Reaches step Timely start w ∧
      decide (w.sweeps 0 = .swept "agent" second [renewedAt second] 0 ∧
        w.sweeps 1 = .swept "agent" second [] 0) = true :=
    exists_reaches (acquired second ++ [.land (.renew (renewedAt second) 1)] ++ sweepOne 0 ++
      [.release 0, .land (.release ("agent", 0)), .sweep 1 "agent", .list 1, .read 1]) _
      (by decide +kernel)
  obtain ⟨w, hreaches, hend⟩ := hrun
  exact ⟨w, (counted_while_held hreaches).1, of_decide_eq_true hend⟩

/-- The renewal is under way when the hold is released, and takes effect after
the release has returned. -/
def revived : List Event :=
  acquired second ++ [.release 0, .land (.release ("agent", 0)),
    .land (.renew (renewedAt second) 1)]

/-- A sweep reads the row after its promise has passed, and deletes it after
the holder has renewed it. -/
def retiredLive : List Event :=
  [.acquire 0 oneCore, .create 0, .wait (2 * second), .sweep 0 "agent", .list 0, .read 0,
    .renew 0 (2 * second), .land (.renew (renewedAt (2 * second)) 1),
    .land (.retire 0 (renewedAt 0))]

theorem revived_and_retired :
    (∃ w, Reaches step always start w ∧ w.holds 0 = .released (renewedAt second) ∧
      w.rows.lookup ("agent", 0) = some (renewedAt second) ∧ ¬ Counted w) ∧
    ∃ w, Reaches step always start w ∧ ¬ Counted w ∧
      w.removed = [(renewedAt (2 * second), 2 * second)] ∧
      (renewedAt (2 * second)).isLive (2 * second) = true := by
  constructor
  · have hrun : ∃ w, Reaches step always start w ∧
        decide (w.holds 0 = .released (renewedAt second) ∧
          w.rows.lookup ("agent", 0) = some (renewedAt second)) = true :=
      exists_reaches revived _ (by decide +kernel)
    obtain ⟨w, hreaches, hend⟩ := hrun
    obtain ⟨hhold, hrow⟩ := of_decide_eq_true hend
    exact ⟨w, hreaches, hhold, hrow, fun h => h.gone 0 _ hhold _ _ hrow rfl⟩
  · have hrun : ∃ w, Reaches step always start w ∧
        decide (w.removed = [(renewedAt (2 * second), 2 * second)]) = true :=
      exists_reaches retiredLive _ (by decide +kernel)
    obtain ⟨w, hreaches, hend⟩ := hrun
    have hremoved := of_decide_eq_true hend
    have hlive : (renewedAt (2 * second)).isLive (2 * second) = true := by decide +kernel
    refine ⟨w, hreaches, fun h => ?_, hremoved, hlive⟩
    have hdead := h.spared (renewedAt (2 * second)) (2 * second) (by rw [hremoved]; simp)
    rw [hlive] at hdead
    cases hdead

end Stado.Reservations
