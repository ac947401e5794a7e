import Stado.S3.Objects

/-!
# An ETag names the bytes it is shown with

An answer takes its bytes and its ETag from two storage calls. It is taken from
one stored version, and a write under `If-Match` replaces the bytes its client
was shown, in the runs in which no other bytes stand under the path when the
ETag is read.
-/

namespace Stado.S3

open CasStore Machine List World Phase

variable {backing : Backing} {w w' : World} {objects later : Objects} {path etag : String}
  {phase : Phase} {bytes : Bytes}

/-! ## What an answer shows -/

def Answer.shows : Answer → Option (String × Bytes × String)
  | .object path bytes _ etag => some (path, bytes, etag)
  | .stored path data etag => some (path, data, etag)
  | .described _ _ _ | .copied _ _ _ | .deleted _ => none

/-- What the client of a request has been shown. -/
def World.shows (w : World) (id : ℕ) : Option (String × Bytes × String) :=
  match w.phases id with
  | .ended (.ok answer) => answer.shows
  | _ => none

def Shown (backing : Backing) (w : World) (path : String) (bytes : Bytes) (etag : String) : Prop :=
  backing.utf8 bytes = true ∧ ∃ id, w.shows id = some (path, bytes, etag)

def Stored (backing : Backing) (objects : Objects) (path : String) (bytes : Bytes)
    (etag : String) : Prop :=
  ∃ (past : Objects) (blob : Blob) (v : ℕ), past <:+ objects ∧ past.get path = some (blob, v) ∧ blob.bytes = bytes ∧
    backing.token v blob.bytes = etag

/-- What every client is shown was stored at one version, and a write under
`If-Match` replaced the very bytes shown with the ETag it names. -/
structure EtagsHold (backing : Backing) (w : World) : Prop where
  shown : ∀ path bytes etag, Shown backing w path bytes etag →
    Stored backing w.objects path bytes etag
  replaced : ∀ path bytes etag, Shown backing w path bytes etag →
    ∀ (entry : Entry String Blob Site) (older : Objects), (entry :: older) <:+ w.objects →
      entry.path = path → entry.site = .swapped etag →
        ∃ (blob : Blob) (v : ℕ), older.get path = some (blob, v) ∧ blob.bytes = bytes

theorem Stored.mono (h : Stored backing objects path bytes etag) (hlater : objects <:+ later) :
    Stored backing later path bytes etag := by
  obtain ⟨past, blob, v, hpast, hrest⟩ := h
  exact ⟨past, blob, v, hpast.trans hlater, hrest⟩

theorem bytes_of_token {past other : Objects} {path path' : String}
    {blob blob' : Blob} {v w : ℕ} (hpast : past <:+ objects) (hother : other <:+ objects)
    (hget : past.get path = some (blob, v)) (hget' : other.get path' = some (blob', w))
    (htoken : backing.token v blob.bytes = backing.token w blob'.bytes) :
    blob.bytes = blob'.bytes := by
  rcases backing.names v blob.bytes w blob'.bytes htoken with rfl | hbytes
  · obtain ⟨e, he, -, hcontent⟩ := Store.get_held hget
    obtain ⟨e', he', -, hcontent'⟩ := Store.get_held hget'
    obtain rfl := (he.mono hpast).unique (he'.mono hother)
    rw [hcontent] at hcontent'
    rw [Option.some.inj hcontent']
  · exact hbytes

/-- No other bytes stand under the path than those in hand, if these are text. -/
def undisturbed (backing : Backing) (objects : Objects) (path : String) (bytes : Bytes) : Bool :=
  !backing.utf8 bytes || (objects.get path).all fun held => held.1.bytes = bytes

/-- The condition on a step: the ETag that will be shown with bytes is read
while they stand. -/
def steady (backing : Backing) (w : World) : Event → Bool
  | .advance id _ =>
    match w.phases id with
    | .statted request bytes _ =>
      request.head || undisturbed backing w.objects request.path bytes
    | .labelled path data none => undisturbed backing w.objects path data
    | _ => true
  | _ => true

theorem stored_of_s3Etag (hundisturbed : undisturbed backing objects path bytes = true)
    (h : s3Etag backing objects path bytes = .ok etag) (hutf8 : backing.utf8 bytes = true) :
    Stored backing objects path bytes etag := by
  unfold s3Etag at h
  simp only [hutf8, Bool.not_true, Bool.false_eq_true, if_false] at h
  cases hget : objects.get path with
  | none => simp [hget] at h
  | some held =>
    obtain ⟨blob, v⟩ := held
    simp only [undisturbed, hutf8, Bool.not_true, Bool.false_or, hget, Option.all_some,
      decide_eq_true_eq] at hundisturbed
    simp only [hget, hundisturbed, hutf8, if_true, Except.ok.injEq] at h
    exact ⟨objects, blob, v, suffix_refl _, hget, hundisturbed, by rw [hundisturbed, h]⟩

/-! ## The invariant -/

/-- What a request's phase says of the store. -/
def Phase.Knows (backing : Backing) (objects : Objects) : Phase → Prop
  | .written path data (some version) | .labelled path data (some version) =>
    Stored backing objects path data version
  | .ended (.ok answer) => ∀ path bytes etag, answer.shows = some (path, bytes, etag) →
      backing.utf8 bytes = true → Stored backing objects path bytes etag
  | _ => True

structure Sound (backing : Backing) (w : World) : Prop where
  knows : ∀ id, (w.phases id).Knows backing w.objects
  swaps : ∀ (entry : Entry String Blob Site) (older : Objects) (etag : String),
    (entry :: older) <:+ w.objects → entry.site = .swapped etag →
      ∃ blob v, older.get entry.path = some (blob, v) ∧ backing.token v blob.bytes = etag

theorem Sound.etagsHold (h : Sound backing w) : EtagsHold backing w := by
  have hshown : ∀ path bytes etag, Shown backing w path bytes etag →
      Stored backing w.objects path bytes etag := by
    rintro path bytes etag ⟨hutf8, id, hshows⟩
    have hknows := h.knows id
    unfold shows at hshows
    split at hshows
    · next answer hphase =>
      rw [hphase] at hknows
      exact hknows path bytes etag hshows hutf8
    · cases hshows
  refine ⟨hshown, fun path bytes etag hshow entry older hsuffix hpath hsite => ?_⟩
  obtain ⟨past, blob, v, hpast, hget, rfl, htoken⟩ := hshown path bytes etag hshow
  obtain ⟨blob', v', hget', htoken'⟩ := h.swaps entry older etag hsuffix hsite
  have holder : older <:+ w.objects := (suffix_cons entry older).trans hsuffix
  rw [hpath] at hget'
  exact ⟨blob', v', hget', bytes_of_token holder hpast hget' hget (htoken'.trans htoken.symm)⟩

theorem Phase.Knows.mono (h : phase.Knows backing objects)
    (hlater : objects <:+ later) : phase.Knows backing later := by
  cases phase with
  | written path data version =>
    cases version with
    | none => trivial
    | some version => exact Stored.mono h hlater
  | labelled path data version =>
    cases version with
    | none => trivial
    | some version => exact Stored.mono h hlater
  | ended outcome =>
    cases outcome with
    | error error => trivial
    | ok answer =>
      intro path bytes etag hshows hutf8
      exact (h path bytes etag hshows hutf8).mono hlater
  | _ => trivial

theorem Sound.move (h : Sound backing w) {id : ℕ}
    (hphase : phase.Knows backing w.objects) : Sound backing (w.move id phase) := by
  refine ⟨fun other => ?_, h.swaps⟩
  by_cases hother : other = id
  · subst hother
    simpa [World.move] using hphase
  · simpa [World.move, hother] using h.knows other

theorem Sound.fail (h : Sound backing w) (id : ℕ) (error : S3Error) :
    Sound backing (w.fail id error) :=
  h.move (show Knows _ _ (.ended (.error error)) from trivial)

/-- A write keeps what is known; a swap has found the version it expected. -/
theorem Sound.write (h : Sound backing w) {id : ℕ} {path : String}
    {content : Option Blob} {site : Site} (hsite : ∀ etag, site = .swapped etag →
      ∃ blob v, w.objects.get path = some (blob, v) ∧ backing.token v blob.bytes = etag)
    (hphase : phase.Knows backing (⟨path, content, site, id⟩ :: w.objects)) :
    Sound backing (w.write id path content site phase) := by
  have hsound : Sound backing { w with objects := ⟨path, content, site, id⟩ :: w.objects } := by
    refine ⟨fun other => (h.knows other).mono (suffix_cons _ _), ?_⟩
    intro entry older etag hsuffix hswapped
    rcases suffix_cons_iff.mp hsuffix with heq | hsuffix
    · cases heq
      exact hsite etag hswapped
    · exact h.swaps entry older etag hsuffix hswapped
  exact hsound.move hphase

/-! ## Steps and runs -/

theorem knows_begin (objects : Objects) (request : Request) :
    (request.begin backing).Knows backing objects := by
  cases request with
  | get request => trivial
  | copy request => trivial
  | delete path => trivial
  | put path data ifNoneMatch ifMatch =>
    unfold Request.begin
    dsimp only
    split
    · trivial
    · split
      · split <;> trivial
      · trivial
      · trivial

theorem knows_checked (objects : Objects) (request : CopyRequest) (read : Option Bytes) :
    (request.checked read).Knows backing objects := by
  unfold CopyRequest.checked
  split
  · trivial
  · cases read <;> trivial

theorem shows_of_answer {request : GetRequest} {updated : ℕ} {etag : String}
    {answer : Answer} (h : request.answer bytes updated etag = .ok answer) {path etag' : String}
    {shown : Bytes} (hshows : answer.shows = some (path, shown, etag')) :
    request.head = false ∧ path = request.path ∧ shown = bytes ∧ etag' = etag := by
  have hanswer : ∃ range, answer = if request.head then
      .described request.path bytes.length etag else .object request.path bytes range etag := by
    unfold GetRequest.answer at h
    cases hcheck : request.conditions.check etag updated true with
    | error error => simp [hcheck, bind, Except.bind] at h
    | ok _ =>
      simp only [hcheck, bind, Except.bind] at h
      cases hrange : request.range with
      | none =>
        simp only [hrange] at h
        refine ⟨none, ?_⟩
        split at h <;> cases h <;> simp [*]
      | some parse =>
        simp only [hrange] at h
        cases hparse : parse bytes.length with
        | none => simp [hparse] at h
        | some range =>
          simp only [hparse] at h
          refine ⟨some range, ?_⟩
          split at h <;> cases h <;> simp [*]
  obtain ⟨range, rfl⟩ := hanswer
  cases hhead : request.head with
  | true =>
    simp only [hhead, if_true] at hshows
    cases hshows
  | false =>
    simp only [hhead, Bool.false_eq_true, if_false] at hshows
    cases hshows
    exact ⟨rfl, rfl, rfl, rfl⟩

/-- A call moves its request on, and writes at most one object; a swap has
found the version it expected. -/
theorem advance_cases {id now : ℕ} (h : advance backing w id now = some w') :
    (∃ phase, w' = w.move id phase) ∨
    ∃ path content site phase, w' = w.write id path content site phase ∧
      ∀ etag, site = .swapped etag →
        ∃ blob v, w.objects.get path = some (blob, v) ∧ backing.token v blob.bytes = etag := by
  cases hphase : w.phases id with
  | idle => simp [advance, hphase] at h
  | ended outcome => simp [advance, hphase] at h
  | get request =>
    simp only [advance, hphase] at h
    split at h <;> cases h <;> exact .inl ⟨_, rfl⟩
  | read request bytes =>
    simp only [advance, hphase] at h
    split at h <;> cases h <;> exact .inl ⟨_, rfl⟩
  | statted request bytes updated =>
    simp only [advance, hphase] at h
    cases h
    exact .inl ⟨_, rfl⟩
  | put path data mode =>
    cases mode with
    | unconditional =>
      simp only [advance, hphase] at h
      cases h
      exact .inr ⟨_, _, _, _, rfl, fun etag hsite => by cases hsite⟩
    | createOnly =>
      simp only [advance, hphase] at h
      split at h
      · cases h
        exact .inl ⟨_, rfl⟩
      · cases h
        exact .inr ⟨_, _, _, _, rfl, fun etag hsite => by cases hsite⟩
    | ifMatch expected =>
      simp only [advance, hphase] at h
      split at h
      · cases h
        exact .inl ⟨_, rfl⟩
      · split at h
        · cases h
          exact .inl ⟨_, rfl⟩
        · next blob v hget =>
          split at h
          · next htoken =>
            cases h
            refine .inr ⟨_, _, _, _, rfl, fun etag hsite => ?_⟩
            cases hsite
            exact ⟨blob, v, hget, htoken⟩
          · cases h
            exact .inl ⟨_, rfl⟩
  | written path data version =>
    simp only [advance, hphase] at h
    cases h
    exact .inl ⟨_, rfl⟩
  | labelled path data version =>
    cases version <;> simp only [advance, hphase] at h <;> cases h <;> exact .inl ⟨_, rfl⟩
  | copy request =>
    simp only [advance, hphase] at h
    split at h
    · cases h
      exact .inl ⟨_, rfl⟩
    · split at h
      · cases h
        exact .inl ⟨_, rfl⟩
      · split at h <;> cases h <;> exact .inl ⟨_, rfl⟩
  | sourceStatted request updated =>
    simp only [advance, hphase] at h
    split at h <;> cases h <;> exact .inl ⟨_, rfl⟩
  | sourceRead request updated bytes =>
    simp only [advance, hphase] at h
    split at h <;> cases h <;> exact .inl ⟨_, rfl⟩
  | sourceUnread request =>
    simp only [advance, hphase] at h
    split at h <;> cases h <;> exact .inl ⟨_, rfl⟩
  | sourceHeld request bytes =>
    simp only [advance, hphase] at h
    cases h
    exact .inr ⟨_, _, _, _, rfl, fun etag hsite => by cases hsite⟩
  | copied target bytes =>
    simp only [advance, hphase] at h
    cases h
    exact .inl ⟨_, rfl⟩
  | copyLabelled target bytes =>
    simp only [advance, hphase] at h
    split at h <;> cases h <;> exact .inl ⟨_, rfl⟩
  | copyTagged target etag =>
    simp only [advance, hphase] at h
    cases h
    exact .inl ⟨_, rfl⟩
  | delete path =>
    simp only [advance, hphase] at h
    split at h
    · cases h
      exact .inl ⟨_, rfl⟩
    · cases h
      exact .inr ⟨_, _, _, _, rfl, fun etag hsite => by cases hsite⟩

/-- A version just given by a swap is that of the bytes just put. -/
theorem stored_of_write (objects : Objects) (path : String) (data : Bytes) (now id : ℕ)
    (site : Site) : Stored backing (⟨path, some ⟨data, now⟩, site, id⟩ :: objects) path data
      (backing.token objects.length data) :=
  ⟨_, ⟨data, now⟩, objects.length, suffix_refl _, Store.get_cons_same rfl _, rfl, rfl⟩

@[simp] theorem phases_move (w : World) (id : ℕ) (phase : Phase) :
    (w.move id phase).phases id = phase := by
  simp [move]

@[simp] theorem objects_move (w : World) (id : ℕ) (phase : Phase) :
    (w.move id phase).objects = w.objects := rfl

theorem knows_advance {id now : ℕ} (h : Sound backing w)
    (hsteady : steady backing w (.advance id now) = true)
    (hstep : advance backing w id now = some w') : (w'.phases id).Knows backing w'.objects := by
  have hknows := h.knows id
  cases hphase : w.phases id with
  | idle => simp [advance, hphase] at hstep
  | ended outcome => simp [advance, hphase] at hstep
  | get request =>
    simp only [advance, hphase] at hstep
    split at hstep <;> cases hstep <;> simp [fail, Knows]
  | read request bytes =>
    simp only [advance, hphase] at hstep
    split at hstep <;> cases hstep <;> simp [fail, Knows]
  | statted request bytes updated =>
    simp only [advance, hphase] at hstep
    cases hstep
    rw [phases_move, objects_move]
    cases hetag : s3Etag backing w.objects request.path bytes with
    | error error => trivial
    | ok etag =>
      rw [Except.bind]
      cases hanswer : request.answer bytes updated etag with
      | error error => trivial
      | ok answer =>
        intro path shown etag' hshows hutf8
        obtain ⟨hhead, rfl, rfl, rfl⟩ := shows_of_answer hanswer hshows
        simp only [steady, hphase, hhead, Bool.false_or] at hsteady
        exact stored_of_s3Etag hsteady hetag hutf8
  | put path data mode =>
    cases mode with
    | unconditional =>
      simp only [advance, hphase] at hstep
      cases hstep
      simp [write, Knows]
    | createOnly =>
      simp only [advance, hphase] at hstep
      split at hstep <;> cases hstep <;> simp [fail, write, Knows]
    | ifMatch expected =>
      simp only [advance, hphase] at hstep
      split at hstep
      · cases hstep
        simp [fail, Knows]
      · split at hstep
        · cases hstep
          simp [fail, Knows]
        · split at hstep
          · cases hstep
            rw [write, phases_move, objects_move]
            exact stored_of_write _ _ _ _ _ _
          · cases hstep
            simp [fail, Knows]
  | written path data version =>
    rw [hphase] at hknows
    simp only [advance, hphase] at hstep
    cases hstep
    rw [phases_move, objects_move]
    cases version with
    | none => trivial
    | some version => exact hknows
  | labelled path data version =>
    rw [hphase] at hknows
    cases version with
    | some version =>
      simp only [advance, hphase] at hstep
      cases hstep
      rw [phases_move, objects_move]
      intro path' shown etag hshows hutf8
      cases hshows
      exact hknows
    | none =>
      simp only [advance, hphase] at hstep
      cases hstep
      rw [phases_move, objects_move]
      simp only [steady, hphase] at hsteady
      cases hetag : s3Etag backing w.objects path data with
      | error error => trivial
      | ok etag =>
        intro path' shown etag' hshows hutf8
        cases hshows
        exact stored_of_s3Etag hsteady hetag hutf8
  | copy request =>
    simp only [advance, hphase] at hstep
    split at hstep
    · cases hstep
      simp [fail, Knows]
    · split at hstep
      · cases hstep
        simp [Knows]
      · split at hstep
        · cases hstep
          simp [fail, Knows]
        · cases hstep
          rw [phases_move]
          exact knows_checked _ _ _
  | sourceStatted request updated =>
    simp only [advance, hphase] at hstep
    split at hstep <;> cases hstep <;> simp [fail, Knows]
  | sourceRead request updated bytes =>
    simp only [advance, hphase] at hstep
    split at hstep
    · cases hstep
      simp [fail, Knows]
    · cases hstep
      rw [phases_move]
      exact knows_checked _ _ _
  | sourceUnread request =>
    simp only [advance, hphase] at hstep
    split at hstep <;> cases hstep <;> simp [fail, Knows]
  | sourceHeld request bytes =>
    simp only [advance, hphase] at hstep
    cases hstep
    simp [write, Knows]
  | copied target bytes =>
    simp only [advance, hphase] at hstep
    cases hstep
    simp [Knows]
  | copyLabelled target bytes =>
    simp only [advance, hphase] at hstep
    split at hstep <;> cases hstep <;> simp [fail, Knows]
  | copyTagged target etag =>
    simp only [advance, hphase] at hstep
    cases hstep
    simp [Knows, Answer.shows]
  | delete path =>
    simp only [advance, hphase] at hstep
    split at hstep <;> cases hstep <;> simp [write, Knows, Answer.shows]

theorem move_move (w : World) (id : ℕ) (phase later : Phase) :
    (w.move id phase).move id later = w.move id later := by
  simp [move]

theorem Sound.step {event : Event} (h : Sound backing w) (hsteady : steady backing w event = true)
    (hstep : step backing w event = some w') : Sound backing w' := by
  cases event with
  | arrive id request =>
    simp only [S3.step] at hstep
    split at hstep <;> cases hstep
    exact h.move (knows_begin _ request)
  | refuse id =>
    simp only [S3.step] at hstep
    split at hstep <;> cases hstep
    exact h.fail id .storage
  | advance id now =>
    have hknows := knows_advance h hsteady hstep
    rcases advance_cases hstep with ⟨phase, rfl⟩ | ⟨path, content, site, phase, rfl, hsite⟩
    · rw [phases_move] at hknows
      exact h.move hknows
    · rw [World.write, phases_move] at hknows
      exact h.write hsite hknows
  | lose id now =>
    obtain ⟨done, hdone, rfl⟩ := Option.map_eq_some_iff.mp hstep
    rcases advance_cases hdone with ⟨phase, rfl⟩ | ⟨path, content, site, phase, rfl, hsite⟩
    · rw [World.fail, move_move]
      exact h.fail id .storage
    · rw [World.fail, World.write, move_move]
      exact h.write hsite (show Knows _ _ (.ended (.error .storage)) from trivial)

theorem sound_start (objects : List (String × Blob)) : Sound backing (.start objects) := by
  refine ⟨fun id => trivial, fun entry older etag hsuffix hsite => ?_⟩
  have hmem := hsuffix.subset mem_cons_self
  obtain ⟨object, -, rfl⟩ := List.mem_map.mp hmem
  cases hsite

/-- In every run in which an ETag is read while the bytes it is shown with
stand, whatever backend gives the versions: what a client is shown was stored
at one version, and a write under `If-Match` that succeeds replaces exactly the
bytes shown with the ETag it names. -/
theorem etags_hold {objects : List (String × Blob)} {w : World}
    (h : Reaches (step backing) (fun w event => steady backing w event = true) (.start objects) w) :
    EtagsHold backing w := by
  have hsound : Sound backing w := h.invariant (sound_start objects)
    fun _ _ _ hsound hsteady hstep => hsound.step hsteady hstep
  exact hsound.etagsHold

/-! ## A write between the two reads -/

/-- A backend that numbers its writes, in unary. -/
def numbered : Backing where
  token v _ := String.ofList (List.replicate v '0')
  names := by
    intro v bytes w other h
    refine .inl ?_
    have hlist := String.ofList_injective h
    have hlength := congrArg List.length hlist
    simpa using hlength
  utf8 _ := true
  sha256 _ := ""

def unconditionalGet : Request := .get ⟨"k", false, ⟨none, none, none, none⟩, none⟩

/-- The calls of one request, one after another. -/
def calls (id n : ℕ) : List Event := List.replicate n (.advance id 1)

/-- A client reads the object, a second one replaces it, and the first reads
its ETag and replaces the object under it. -/
def writtenBetween : List Event :=
  [.arrive 1 unconditionalGet] ++ calls 1 2 ++ [.arrive 2 (.put "k" [2] none none)] ++ calls 2 3 ++
    calls 1 1 ++ [.arrive 3 (.put "k" [3] none (some "0"))] ++ calls 3 3

theorem read_alone : ∃ w : World, EtagsHold numbered w ∧ w.shows 2 = some ("k", [1], "") := by
  have hrun : ∃ w, Reaches (step numbered) (fun w event => steady numbered w event = true)
      (.start [("k", ⟨[1], 0⟩)]) w ∧ decide (w.shows 2 = some ("k", [1], "")) = true :=
    exists_reaches ([.arrive 2 unconditionalGet] ++ calls 2 3) _ (by decide +kernel)
  obtain ⟨w, hreaches, hshows⟩ := hrun
  exact ⟨w, etags_hold hreaches, of_decide_eq_true hshows⟩

theorem overwritten_unseen : ∃ w, Reaches (step numbered) always (.start [("k", ⟨[1], 0⟩)]) w ∧
    ¬ EtagsHold numbered w := by
  have hrun : ∃ w, Reaches (step numbered) always (.start [("k", ⟨[1], 0⟩)]) w ∧
      decide (w.shows 1 = some ("k", [1], "0") ∧ w.objects =
        [⟨"k", some ⟨[3], 1⟩, .swapped "0", 3⟩, ⟨"k", some ⟨[2], 1⟩, .uploaded, 2⟩,
          ⟨"k", some ⟨[1], 0⟩, .uploaded, 0⟩]) = true :=
    exists_reaches writtenBetween _ (by decide +kernel)
  obtain ⟨w, hreaches, hend⟩ := hrun
  obtain ⟨hshows, hobjects⟩ := of_decide_eq_true hend
  refine ⟨w, hreaches, fun hhold => ?_⟩
  have hreplaced := hhold.replaced "k" [1] "0" ⟨rfl, 1, hshows⟩
  rw [hobjects] at hreplaced
  obtain ⟨blob, v, hget, hbytes⟩ := hreplaced _ _ (suffix_refl _) rfl rfl
  cases hget
  cases hbytes

end Stado.S3
