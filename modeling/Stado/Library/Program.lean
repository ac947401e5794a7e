import Stado.Library.VersionedStore

/-!
# Programs over a versioned store

A client program is a tree of storage calls and of questions to its
environment (a clock, a random number, the outcome of a local action). It ends
with a result or with an error, or stops for good in the middle: a loop is
given fuel, and running out of it stops the client, which every client may do
at any step anyway.

A storage call may be lost: the program then continues with the error the
backend raised, whether or not the write took effect.
-/

namespace CasStore

inductive Program (Path Content Site Error : Type) (Query : Type → Type) (α : Type) :
    Type 1 where
  | pure (a : α)
  | fail (e : Error)
  | stop
  | ask {β : Type} (q : Query β) (k : β → Program Path Content Site Error Query α)
  | call {β : Type} (site : Site) (c : Call Path Content β)
      (k : β → Program Path Content Site Error Query α)
      (lost : Error → Program Path Content Site Error Query α)

namespace Program

variable {Path Content Site Error : Type} {Query : Type → Type} {α β γ : Type}

/-- Run `p`, then `f` on its result; an error or a stop ends both. -/
def bind (p : Program Path Content Site Error Query α)
    (f : α → Program Path Content Site Error Query β) :
    Program Path Content Site Error Query β :=
  match p with
  | .pure a => f a
  | .fail e => .fail e
  | .stop => .stop
  | .ask q k => .ask q fun b => (k b).bind f
  | .call site c k lost => .call site c (fun b => (k b).bind f) fun e => (lost e).bind f

instance : Monad (Program Path Content Site Error Query) where
  pure := .pure
  bind := .bind

/-- The result of `p` or the error it ended with. -/
def attempt (p : Program Path Content Site Error Query α) :
    Program Path Content Site Error Query (Except Error α) :=
  match p with
  | .pure a => .pure (.ok a)
  | .fail e => .pure (.error e)
  | .stop => .stop
  | .ask q k => .ask q fun b => (k b).attempt
  | .call site c k lost => .call site c (fun b => (k b).attempt) fun e => (lost e).attempt

/-- One storage call made at `site`; a lost call ends the program. -/
def perform (site : Site) (c : Call Path Content β) :
    Program Path Content Site Error Query β :=
  .call site c .pure .fail

/-- One question to the environment. -/
def query (q : Query β) : Program Path Content Site Error Query β :=
  .ask q .pure

/-- Run `f` over a list in order, passing a value along. -/
def foldList (f : β → γ → Program Path Content Site Error Query β) :
    β → List γ → Program Path Content Site Error Query β
  | b, [] => .pure b
  | b, x :: xs => (f b x).bind fun b' => foldList f b' xs

/-- Run `f` on the elements of a list, in order. -/
def each (f : γ → Program Path Content Site Error Query Unit) (xs : List γ) :
    Program Path Content Site Error Query Unit :=
  foldList (fun _ x => f x) () xs

@[simp] theorem bind_eq (p : Program Path Content Site Error Query α)
    (f : α → Program Path Content Site Error Query β) : (p >>= f) = p.bind f := rfl

@[simp] theorem pure_bind (a : α) (f : α → Program Path Content Site Error Query β) :
    (Program.pure a).bind f = f a := rfl

theorem bind_assoc (p : Program Path Content Site Error Query α)
    (f : α → Program Path Content Site Error Query β)
    (g : β → Program Path Content Site Error Query γ) :
    (p.bind f).bind g = p.bind fun a => (f a).bind g := by
  induction p with
  | pure a => rfl
  | fail e => rfl
  | stop => rfl
  | ask q k ih => simp only [bind, ih]
  | call site c k lost ih ihl => simp only [bind, ih, ihl]

/-- Some answers lead `p` to the result `a`. -/
def Returns (p : Program Path Content Site Error Query α) (a : α) : Prop :=
  match p with
  | .pure b => b = a
  | .fail _ => False
  | .stop => False
  | .ask _ k => ∃ b, (k b).Returns a
  | .call _ _ k lost => (∃ b, (k b).Returns a) ∨ ∃ err, (lost err).Returns a

/-- Every call of `p` is made at a site in `S`. -/
def Sites (S : Site → Prop) (p : Program Path Content Site Error Query α) : Prop :=
  match p with
  | .pure _ => True
  | .fail _ => True
  | .stop => True
  | .ask _ k => ∀ b, (k b).Sites S
  | .call site _ k lost => S site ∧ (∀ b, (k b).Sites S) ∧ ∀ err, (lost err).Sites S

variable {S : Site → Prop} {p : Program Path Content Site Error Query α}

theorem Sites.bind {f : α → Program Path Content Site Error Query β} (hp : p.Sites S)
    (hf : ∀ a, (f a).Sites S) : (p.bind f).Sites S := by
  induction p with
  | pure a => exact hf a
  | fail e => trivial
  | stop => trivial
  | ask q k ih => exact fun b => ih b (hp b)
  | call site c k lost ih ihl =>
    exact ⟨hp.1, fun b => ih b (hp.2.1 b), fun err => ihl err (hp.2.2 err)⟩

theorem sites_perform {site : Site} {c : Call Path Content β} (h : S site) :
    (perform site c : Program Path Content Site Error Query β).Sites S :=
  ⟨h, fun _ => trivial, fun _ => trivial⟩

theorem sites_query {q : Query β} : (query q : Program Path Content Site Error Query β).Sites S :=
  fun _ => trivial

theorem Sites.mono {S' : Site → Prop}
    (hp : p.Sites S) (hS : ∀ site, S site → S' site) : p.Sites S' := by
  induction p with
  | pure a => trivial
  | fail e => trivial
  | stop => trivial
  | ask q k ih => exact fun b => ih b (hp b)
  | call site c k lost ih ihl =>
    exact ⟨hS _ hp.1, fun b => ih b (hp.2.1 b), fun err => ihl err (hp.2.2 err)⟩

theorem Sites.attempt (hp : p.Sites S) : p.attempt.Sites S := by
  induction p with
  | pure a => trivial
  | fail e => trivial
  | stop => trivial
  | ask q k ih => exact fun b => ih b (hp b)
  | call site c k lost ih ihl =>
    exact ⟨hp.1, fun b => ih b (hp.2.1 b), fun err => ihl err (hp.2.2 err)⟩

section Pending

variable [DecidableEq Path]

/-- The storage call the program is about to make: where, and what it writes. -/
def pending (s : Store Path Content Site) :
    Program Path Content Site Error Query α → Option (Site × Option (Change Path Content))
  | .call site c _ _ => some (site, c.change s)
  | _ => none

end Pending

end Program

end CasStore
