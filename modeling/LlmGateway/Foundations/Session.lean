import Mathlib.Logic.Function.Defs

/-!
# Sessions with a transactional store

A connection sees the store as it was committed and the store as its own statements have changed it. A
`Session` is a program over a connection: reads and writes go to the changed store, `commit` makes it the
committed one and `rollback` gives it up. An exception does neither: it leaves the connection as it is, and
what was not committed is lost when the connection is closed (`perform`).

`Keeps` says that a session commits nothing, whatever it returns or raises; `perform_of_error` is the rule
for a session that commits at its end: when it raises, the store is as it was.
-/

namespace LlmGateway

/-- A connection: the committed store, and the one the open transaction works on. -/
structure Conn (σ : Type) where
  committed : σ
  working : σ

/-- A program over a connection. -/
def Session (σ ε α : Type) : Type := Conn σ → Except ε α × Conn σ

namespace Session

variable {σ ε α β : Type}

instance : Monad (Session σ ε) where
  pure a := fun c => (.ok a, c)
  bind x f := fun c =>
    match x c with
    | (.ok a, c) => f a c
    | (.error e, c) => (.error e, c)

/-- `raise e`. -/
def raise (e : ε) : Session σ ε α := fun c => (.error e, c)

/-- The store as the transaction sees it. -/
def read : Session σ ε σ := fun c => (.ok c.working, c)

/-- A statement that changes the store. -/
def write (f : σ → σ) : Session σ ε Unit := fun c => (.ok (), { c with working := f c.working })

def rollback : Session σ ε Unit := fun c => (.ok (), { c with working := c.committed })

def commit : Session σ ε Unit := fun c => (.ok (), { c with committed := c.working })

/-- The session on a new connection, which is closed behind it: its result, and the store it leaves. -/
def perform (x : Session σ ε α) (s : σ) : Except ε α × σ :=
  ((x ⟨s, s⟩).1, (x ⟨s, s⟩).2.committed)

@[simp] theorem pure_apply (a : α) (c : Conn σ) : (pure a : Session σ ε α) c = (.ok a, c) := rfl

@[simp] theorem raise_apply (e : ε) (c : Conn σ) : (raise e : Session σ ε α) c = (.error e, c) := rfl

@[simp] theorem read_apply (c : Conn σ) : (read : Session σ ε σ) c = (.ok c.working, c) := rfl

@[simp] theorem write_apply (f : σ → σ) (c : Conn σ) :
    (write f : Session σ ε Unit) c = (.ok (), { c with working := f c.working }) := rfl

@[simp] theorem rollback_apply (c : Conn σ) :
    (rollback : Session σ ε Unit) c = (.ok (), { c with working := c.committed }) := rfl

@[simp] theorem commit_apply (c : Conn σ) :
    (commit : Session σ ε Unit) c = (.ok (), { c with committed := c.working }) := rfl

variable {c : Conn σ} {x : Session σ ε α}

theorem bind_of_ok {f : α → Session σ ε β} {c' : Conn σ} {a : α} (h : x c = (.ok a, c')) : (x >>= f) c = f a c' := by
  change (match x c with
    | (.ok a, c) => f a c
    | (.error e, c) => (.error e, c)) = f a c'
  rw [h]

theorem bind_of_error {f : α → Session σ ε β} {c' : Conn σ} {e : ε}
    (h : x c = (.error e, c')) : (x >>= f) c = (.error e, c') := by
  change (match x c with
    | (.ok a, c) => f a c
    | (.error e, c) => (.error e, c)) = (.error e, c')
  rw [h]

@[simp] theorem read_bind (f : σ → Session σ ε β) (c : Conn σ) : (read >>= f) c = f c.working c := rfl

@[simp] theorem write_bind (g : σ → σ) (f : Unit → Session σ ε β) (c : Conn σ) :
    (write g >>= f) c = f () { c with working := g c.working } := rfl

@[simp] theorem rollback_bind (f : Unit → Session σ ε β) (c : Conn σ) :
    (rollback >>= f) c = f () { c with working := c.committed } := rfl

@[simp] theorem commit_bind (f : Unit → Session σ ε β) (c : Conn σ) :
    (commit >>= f) c = f () { c with committed := c.working } := rfl

@[simp] theorem raise_bind (e : ε) (f : α → Session σ ε β) (c : Conn σ) :
    (raise e >>= f) c = (.error e, c) := rfl

/-! ## Sessions that commit at their end -/

/-- The session commits nothing, whether it returns or raises. -/
def Keeps (x : Session σ ε α) : Prop := ∀ c, (x c).2.committed = c.committed

namespace Keeps

theorem pure (a : α) : Keeps (Pure.pure a : Session σ ε α) := fun _ => rfl

theorem raise (e : ε) : Keeps (Session.raise e : Session σ ε α) := fun _ => rfl

theorem read : Keeps (Session.read : Session σ ε σ) := fun _ => rfl

theorem write (f : σ → σ) : Keeps (Session.write f : Session σ ε Unit) := fun _ => rfl

theorem rollback : Keeps (Session.rollback : Session σ ε Unit) := fun _ => rfl

theorem bind {x : Session σ ε α} {f : α → Session σ ε β} (hx : Keeps x) (hf : ∀ a, Keeps (f a)) :
    Keeps (x >>= f) := by
  intro c
  rcases h : x c with ⟨r, c'⟩
  have hc : c'.committed = c.committed := by
    have := hx c
    rwa [h] at this
  cases r with
  | error e => rw [bind_of_error h, hc]
  | ok a => rw [bind_of_ok h, hf a c', hc]

theorem ite {p : Prop} [Decidable p] {x y : Session σ ε α} (hx : Keeps x) (hy : Keeps y) :
    Keeps (if p then x else y) := by
  split
  · exact hx
  · exact hy

end Keeps

/-- The session, and then a commit. -/
def commitAfter (x : Session σ ε α) : Session σ ε α := x >>= fun a => commit >>= fun _ => pure a

theorem perform_of_ok {s : σ} {a : α} (h : x ⟨s, s⟩ = (.ok a, c)) :
    perform (commitAfter x) s = (.ok a, c.working) := by
  rw [perform, commitAfter, bind_of_ok h]
  rfl

/-- **Atomicity.** A session that commits only at its end and raises leaves the store as it was. -/
theorem perform_of_error (hx : Keeps x) {s : σ} {e : ε}
    (h : x ⟨s, s⟩ = (.error e, c)) : perform (commitAfter x) s = (.error e, s) := by
  have hc : c.committed = s := by
    have := hx ⟨s, s⟩
    rwa [h] at this
  rw [perform, commitAfter, bind_of_error h, hc]

end Session

end LlmGateway
