import Mathlib.Data.List.Basic

set_option autoImplicit false

/-! # Programs over a shared database

A service method is a tree of statements: it reads a snapshot of the committed data, waits for row
locks, buffers writes, touches systems outside the transaction, and commits or rolls back. Every
statement also names where the program goes when the statement raises, so `try`/`except` needs no
machinery of its own: `Code.tryCatch` rewrites those branches.

Two readings are given. `Code.alone` runs a program with nobody else at work; `System.step` runs one
statement of one of many sessions, at READ COMMITTED: a statement sees what is committed at that
moment, overlaid with the session's own writes, and the row locks of a session last until its
transaction ends. -/

namespace Transactions

/-! ## Row locks -/

/-- Strength of a row lock: a foreign-key check shares the row, `FOR UPDATE` excludes. -/
inductive LockMode where
  | shared
  | exclusive
  deriving DecidableEq, Repr

/-- Two sessions may hold one row together only when both share it. -/
def LockMode.conflicts : LockMode → LockMode → Bool
  | .shared, .shared => false
  | _, _ => true

/-- The rows a session holds. -/
abbrev Rights (κ : Type) := List (κ × LockMode)

variable {σ κ τ τ' ε α β ρ : Type}

/-- Would a holder of these rights let another session take `row` in `mode`? -/
def Rights.admits [DecidableEq κ] (held : Rights κ) (row : κ) (mode : LockMode) : Bool :=
  held.all fun h => h.1 ≠ row || !h.2.conflicts mode

/-! ## Statements and programs -/

/-- One statement of a program over the shared state `σ`, with rows named by `κ`. -/
inductive Act (σ κ : Type) where
  /-- A query. -/
  | read
  /-- A locking query: the row it finds, if any, is locked. -/
  | lock (mode : LockMode) (row : σ → Option κ)
  /-- A write of the open transaction, invisible to others until it commits. -/
  | write (u : σ → σ)
  /-- A write to a system outside the transaction, visible at once. -/
  | effect (u : σ → σ)
  | commit
  | rollback

/-- Others can see what the statement does. -/
def Act.isPublic : Act σ κ → Bool
  | .commit => true
  | .effect _ => true
  | _ => false

/-- A program: `τ` labels its statements, `ε` are its exceptions. `next` receives the state the
    statement sees (for an `effect`, the state it found). -/
inductive Code (σ κ τ ε α : Type) where
  | pure (a : α)
  | raise (e : ε)
  | step (point : τ) (act : Act σ κ) (next : σ → Code σ κ τ ε α) (fail : Code σ κ τ ε α)

/-- The exception of a statement that fails for a reason outside the program. -/
class Faulty (ε : Type) where
  fault : ε

namespace Code

def bind : Code σ κ τ ε α → (α → Code σ κ τ ε β) → Code σ κ τ ε β
  | .pure a, f => f a
  | .raise e, _ => .raise e
  | .step pt act next fail, f => .step pt act (fun v => (next v).bind f) (fail.bind f)

/-- `try x except h`. -/
def tryCatch : Code σ κ τ ε α → (ε → Code σ κ τ ε α) → Code σ κ τ ε α
  | .pure a, _ => .pure a
  | .raise e, h => h e
  | .step pt act next fail, h =>
      .step pt act (fun v => (next v).tryCatch h) (fail.tryCatch h)

instance : Monad (Code σ κ τ ε) where
  pure := .pure
  bind := .bind

instance : MonadExcept ε (Code σ κ τ ε) where
  throw := .raise
  tryCatch := .tryCatch

/-- Go on only when `c` holds. -/
def require (c : Prop) [Decidable c] (e : ε) : Code σ κ τ ε Unit :=
  if c then .pure () else .raise e

/-- `if c: x`. -/
def onlyIf (c : Prop) [Decidable c] (x : Code σ κ τ ε Unit) : Code σ κ τ ε Unit :=
  if c then x else .pure ()

/-- The value, or the exception when there is none. -/
def orRaise (a : Option α) (e : ε) : Code σ κ τ ε α :=
  match a with
  | some a => .pure a
  | none => .raise e

variable [Faulty ε]

/-- One statement at program point `point`; what it sees is its value. -/
def perform (point : τ) (act : Act σ κ) : Code σ κ τ ε σ :=
  .step point act .pure (.raise Faulty.fault)

/-- A query. -/
def select (point : τ) (query : σ → α) : Code σ κ τ ε α :=
  .step point .read (fun s => .pure (query s)) (.raise Faulty.fault)

/-- A query that locks the row it finds, until the end of the transaction. -/
def selectLocking (point : τ) (mode : LockMode) (row : σ → Option κ) (query : σ → α) :
    Code σ κ τ ε α :=
  .step point (.lock mode row) (fun s => .pure (query s)) (.raise Faulty.fault)

/-- A write of the open transaction. -/
def write (point : τ) (u : σ → σ) : Code σ κ τ ε Unit :=
  .step point (.write u) (fun _ => .pure ()) (.raise Faulty.fault)

/-- A write outside the transaction; `query` reads the state it found. -/
def effect (point : τ) (u : σ → σ) (query : σ → α) : Code σ κ τ ε α :=
  .step point (.effect u) (fun s => .pure (query s)) (.raise Faulty.fault)

omit [Faulty ε] in
/-- Statements of a transaction that is rolled back where they raise (at the point `quiet`). -/
def rollingBack (quiet : τ) (x : Code σ κ τ ε α) : Code σ κ τ ε α :=
  x.tryCatch fun e => .step quiet .rollback (fun _ => .raise e) (.raise e)

/-- A transaction: the body's writes commit together, and an exception rolls them back. The body
    also names the point its commit stands at. -/
def transaction (quiet : τ) (body : Code σ κ τ ε (α × τ)) : Code σ κ τ ε α :=
  rollingBack quiet
    (body.bind fun r => .step r.2 .commit (fun _ => .pure r.1) (.raise Faulty.fault))

end Code

/-! ## Programs of several kinds

Sessions of one system name their points in one type; programs written with names of their own take
part once their points are translated. -/

/-- The program with its points translated. -/
def Code.mapPoint (f : τ → τ') : Code σ κ τ ε α → Code σ κ τ' ε α
  | .pure a => .pure a
  | .raise e => .raise e
  | .step pt act next fail => .step (f pt) act (fun v => (next v).mapPoint f) (fail.mapPoint f)

namespace Code

variable {f : τ → τ'}

theorem mapPoint_bind (x : Code σ κ τ ε α) (g : α → Code σ κ τ ε β) :
    (x >>= g).mapPoint f = x.mapPoint f >>= fun a => (g a).mapPoint f := by
  show (x.bind g).mapPoint f = (x.mapPoint f).bind _
  induction x with
  | pure a => rfl
  | raise e => rfl
  | step pt act next fail ihn ihf => simp only [bind, mapPoint, ihn, ihf]

theorem mapPoint_tryCatch (x : Code σ κ τ ε α) (h : ε → Code σ κ τ ε α) :
    (x.tryCatch h).mapPoint f = (x.mapPoint f).tryCatch fun e => (h e).mapPoint f := by
  induction x with
  | pure a => rfl
  | raise e => rfl
  | step pt act next fail ihn ihf => simp only [tryCatch, mapPoint, ihn, ihf]

theorem mapPoint_rollingBack (quiet : τ) (x : Code σ κ τ ε α) :
    (rollingBack quiet x).mapPoint f = rollingBack (f quiet) (x.mapPoint f) :=
  mapPoint_tryCatch x _

theorem mapPoint_id (x : Code σ κ τ ε α) : x.mapPoint id = x := by
  induction x with
  | pure a => rfl
  | raise e => rfl
  | step pt act next fail ihn ihf => simp only [mapPoint, ihn, ihf, id_eq]

end Code

/-! ## A program alone -/

/-- Where a program run alone ended: its value or exception, the writes it left uncommitted, and
    the shared state. -/
structure Ended (σ ε α : Type) where
  result : Except ε α
  pending : σ → σ
  shared : σ

/-- Run a program with no other session at work and no failing statement. -/
def Code.alone : Code σ κ τ ε α → (σ → σ) → σ → Ended σ ε α
  | .pure a, w, s => ⟨.ok a, w, s⟩
  | .raise e, w, s => ⟨.error e, w, s⟩
  | .step _ act next _, w, s =>
      match act with
      | .read => (next (w s)).alone w s
      | .lock _ _ => (next (w s)).alone w s
      | .write u => (next (u (w s))).alone (u ∘ w) s
      | .effect u => (next (w s)).alone w (u s)
      | .commit => (next (w s)).alone id (w s)
      | .rollback => (next s).alone id s

/-- Running `x` and then `f` is running `x`, and `f` on its value from where `x` ended. -/
theorem Code.alone_bind (x : Code σ κ τ ε α) (f : α → Code σ κ τ ε β) (w : σ → σ) (s : σ) :
    (x.bind f).alone w s =
      match (x.alone w s).result with
      | .ok a => (f a).alone (x.alone w s).pending (x.alone w s).shared
      | .error e => ⟨.error e, (x.alone w s).pending, (x.alone w s).shared⟩ := by
  induction x generalizing w s with
  | pure a => rfl
  | raise e => rfl
  | step pt act next fail ihn _ => cases act <;> exact ihn _ _ _

theorem Code.alone_bind_of {x : Code σ κ τ ε α} {f : α → Code σ κ τ ε β} {w w' : σ → σ} {s s' : σ} {a : α}
    (h : x.alone w s = ⟨.ok a, w', s'⟩) : (x >>= f).alone w s = (f a).alone w' s' := by
  show (x.bind f).alone w s = _
  rw [alone_bind, h]

theorem Code.alone_bind_ok {x : Code σ κ τ ε α} {f : α → Code σ κ τ ε β} {w : σ → σ} {s : σ} {a : α}
    (h : x.alone w s = ⟨.ok a, w, s⟩) : (x >>= f).alone w s = (f a).alone w s :=
  alone_bind_of h

theorem Code.alone_select_bind [Faulty ε] (point : τ) (query : σ → α) (f : α → Code σ κ τ ε β) (w : σ → σ)
    (s : σ) : (select point query >>= f).alone w s = (f (query (w s))).alone w s := rfl

theorem Code.alone_require_bind {p : Prop} [Decidable p] {e : ε} {f : Unit → Code σ κ τ ε β} (h : p)
    (w : σ → σ) (s : σ) : (require p e >>= f).alone w s = (f ()).alone w s := by
  rw [require, if_pos h]
  rfl

theorem Code.alone_require_bind_not {p : Prop} [Decidable p] {e : ε} {f : Unit → Code σ κ τ ε β} (h : ¬p)
    (w : σ → σ) (s : σ) : (require p e >>= f).alone w s = ⟨.error e, w, s⟩ := by
  rw [require, if_neg h]
  rfl

/-- A handler runs exactly when the body raised, from where the body stopped. -/
theorem Code.alone_tryCatch (x : Code σ κ τ ε α) (h : ε → Code σ κ τ ε α) (w : σ → σ) (s : σ) :
    (x.tryCatch h).alone w s =
      match (x.alone w s).result with
      | .ok a => ⟨.ok a, (x.alone w s).pending, (x.alone w s).shared⟩
      | .error e => (h e).alone (x.alone w s).pending (x.alone w s).shared := by
  induction x generalizing w s with
  | pure a => rfl
  | raise e => rfl
  | step pt act next fail ihn _ => cases act <;> exact ihn _ _ _

/-- A transaction with no effects, run alone: its writes take place together, or none does. -/
theorem Code.alone_transaction [Faulty ε] (quiet : τ) {body : Code σ κ τ ε (α × τ)} {s : σ}
    (h : (body.alone id s).shared = s) :
    (Code.transaction quiet body).alone id s =
      match (body.alone id s).result with
      | .ok r => ⟨.ok r.1, id, (body.alone id s).pending s⟩
      | .error e => ⟨.error e, id, s⟩ := by
  unfold transaction rollingBack
  rw [alone_tryCatch, alone_bind]
  cases hr : (body.alone id s).result with
  | ok r =>
      simp only [alone, h]
  | error e =>
      simp only [alone, h]

/-! ## Many sessions -/

/-- What a session has besides its program. `base` are rights it keeps for life (the fresh names it
    drew), `held` those and the row locks of its open transaction. -/
structure Ctx (σ κ : Type) where
  base : Rights κ
  held : Rights κ
  pending : σ → σ

/-- The context once the transaction is over, however it ended. -/
def Ctx.reset (c : Ctx σ κ) : Ctx σ κ :=
  ⟨c.base, c.base, id⟩

def Ctx.start (base : Rights κ) : Ctx σ κ :=
  ⟨base, base, id⟩

def Ctx.take (c : Ctx σ κ) (row : κ) (mode : LockMode) : Ctx σ κ :=
  { c with held := (row, mode) :: c.held }

def Ctx.buffer (c : Ctx σ κ) (u : σ → σ) : Ctx σ κ :=
  { c with pending := u ∘ c.pending }

@[simp] theorem Ctx.reset_base (c : Ctx σ κ) : c.reset.base = c.base := rfl
@[simp] theorem Ctx.reset_held (c : Ctx σ κ) : c.reset.held = c.base := rfl
@[simp] theorem Ctx.reset_pending (c : Ctx σ κ) : c.reset.pending = id := rfl
@[simp] theorem Ctx.start_base (b : Rights κ) : (Ctx.start b : Ctx σ κ).base = b := rfl
@[simp] theorem Ctx.start_held (b : Rights κ) : (Ctx.start b : Ctx σ κ).held = b := rfl
@[simp] theorem Ctx.start_pending (b : Rights κ) : (Ctx.start b : Ctx σ κ).pending = id := rfl
@[simp] theorem Ctx.take_base (c : Ctx σ κ) (r : κ) (m : LockMode) : (c.take r m).base = c.base := rfl
@[simp] theorem Ctx.take_held (c : Ctx σ κ) (r : κ) (m : LockMode) :
    (c.take r m).held = (r, m) :: c.held := rfl
@[simp] theorem Ctx.take_pending (c : Ctx σ κ) (r : κ) (m : LockMode) :
    (c.take r m).pending = c.pending := rfl
@[simp] theorem Ctx.buffer_base (c : Ctx σ κ) (u : σ → σ) : (c.buffer u).base = c.base := rfl
@[simp] theorem Ctx.buffer_held (c : Ctx σ κ) (u : σ → σ) : (c.buffer u).held = c.held := rfl
@[simp] theorem Ctx.buffer_pending (c : Ctx σ κ) (u : σ → σ) :
    (c.buffer u).pending = u ∘ c.pending := rfl

structure Session (σ κ τ ε ρ : Type) where
  ctx : Ctx σ κ
  code : Code σ κ τ ε ρ

/-- The shared state and every session there has been, the finished ones included. -/
structure System (σ κ τ ε ρ : Type) where
  shared : σ
  sessions : List (Session σ κ τ ε ρ)

/-- What can happen next. -/
inductive Label (σ κ τ ε ρ : Type) where
  /-- A new session begins, with its fresh names. -/
  | start (base : Rights κ) (code : Code σ κ τ ε ρ)
  /-- A session executes its next statement. -/
  | run (i : Nat)
  /-- A session's next statement raises; its transaction is rolled back. -/
  | fail (i : Nat)
  /-- A session's commit takes effect, but the session is told that it failed. -/
  | lose (i : Nat)
  /-- A session dies: no handler runs, its transaction is rolled back. -/
  | crash (i : Nat)
  /-- The state changes by someone who is not modelled. -/
  | env (s : σ)

/-- The session a label belongs to. -/
def Label.session : Label σ κ τ ε ρ → Option Nat
  | .run i => some i
  | .fail i => some i
  | .lose i => some i
  | .crash i => some i
  | _ => none

namespace System

def replace (Y : System σ κ τ ε ρ) (i : Nat) (t : Session σ κ τ ε ρ) (s : σ) :
    System σ κ τ ε ρ :=
  ⟨s, Y.sessions.set i t⟩

variable [DecidableEq κ]

/-- Do all the sessions but `i` let it take the row? -/
def grants (Y : System σ κ τ ε ρ) (i : Nat) (row : κ) (mode : LockMode) : Bool :=
  (Y.sessions.eraseIdx i).all fun t => t.ctx.held.admits row mode

/-- Session `i` executes its next statement; `none` when it has none or waits for a lock. -/
def advance (Y : System σ κ τ ε ρ) (i : Nat) : Option (System σ κ τ ε ρ) :=
  match Y.sessions[i]? with
  | some ⟨c, .step _ act next _⟩ =>
      match act with
      | .read => some (Y.replace i ⟨c, next (c.pending Y.shared)⟩ Y.shared)
      | .lock mode row =>
          match row (c.pending Y.shared) with
          | none => some (Y.replace i ⟨c, next (c.pending Y.shared)⟩ Y.shared)
          | some r =>
              if Y.grants i r mode then
                some (Y.replace i ⟨c.take r mode, next (c.pending Y.shared)⟩ Y.shared)
              else none
      | .write u =>
          some (Y.replace i ⟨c.buffer u, next (u (c.pending Y.shared))⟩ Y.shared)
      | .effect u => some (Y.replace i ⟨c, next (c.pending Y.shared)⟩ (u Y.shared))
      | .commit =>
          some (Y.replace i ⟨c.reset, next (c.pending Y.shared)⟩ (c.pending Y.shared))
      | .rollback => some (Y.replace i ⟨c.reset, next Y.shared⟩ Y.shared)
  | _ => none

/-- Session `i` is told that its statement failed. -/
def interrupt (Y : System σ κ τ ε ρ) (i : Nat) : Option (System σ κ τ ε ρ) :=
  match Y.sessions[i]? with
  | some ⟨c, .step _ _ _ fail⟩ => some (Y.replace i ⟨c.reset, fail⟩ Y.shared)
  | _ => none

def step [Faulty ε] (Y : System σ κ τ ε ρ) : Label σ κ τ ε ρ → Option (System σ κ τ ε ρ)
  | .start base code =>
      if Y.sessions.all fun t => base.all fun h => t.ctx.held.admits h.1 h.2 then
        some ⟨Y.shared, Y.sessions ++ [⟨.start base, code⟩]⟩
      else none
  | .run i => Y.advance i
  | .fail i => Y.interrupt i
  | .lose i =>
      match Y.sessions[i]? with
      | some ⟨c, .step _ .commit _ fail⟩ =>
          some (Y.replace i ⟨c.reset, fail⟩ (c.pending Y.shared))
      | _ => none
  | .crash i =>
      match Y.sessions[i]? with
      | some ⟨c, _⟩ => some (Y.replace i ⟨c.reset, .raise Faulty.fault⟩ Y.shared)
      | none => none
  | .env s => some ⟨s, Y.sessions⟩

/-- What one step of session `i` makes of the session and of the shared state. -/
inductive Turn [Faulty ε] (Y : System σ κ τ ε ρ) (i : Nat) :
    Label σ κ τ ε ρ → Session σ κ τ ε ρ → Session σ κ τ ε ρ → σ → Prop where
  | crash (t : Session σ κ τ ε ρ) : Turn Y i (.crash i) t ⟨t.ctx.reset, .raise Faulty.fault⟩ Y.shared
  | fail (c : Ctx σ κ) (pt : τ) (act : Act σ κ) (next : σ → Code σ κ τ ε ρ) (fail : Code σ κ τ ε ρ) :
      Turn Y i (.fail i) ⟨c, .step pt act next fail⟩ ⟨c.reset, fail⟩ Y.shared
  | lose (c : Ctx σ κ) (pt : τ) (next : σ → Code σ κ τ ε ρ) (fail : Code σ κ τ ε ρ) :
      Turn Y i (.lose i) ⟨c, .step pt .commit next fail⟩ ⟨c.reset, fail⟩ (c.pending Y.shared)
  | read (c : Ctx σ κ) (pt : τ) (next : σ → Code σ κ τ ε ρ) (fail : Code σ κ τ ε ρ) :
      Turn Y i (.run i) ⟨c, .step pt .read next fail⟩ ⟨c, next (c.pending Y.shared)⟩ Y.shared
  | pass (c : Ctx σ κ) (pt : τ) (mode : LockMode) (row : σ → Option κ) (next : σ → Code σ κ τ ε ρ)
      (fail : Code σ κ τ ε ρ) (absent : row (c.pending Y.shared) = none) :
      Turn Y i (.run i) ⟨c, .step pt (.lock mode row) next fail⟩ ⟨c, next (c.pending Y.shared)⟩ Y.shared
  | lock (c : Ctx σ κ) (pt : τ) (mode : LockMode) (row : σ → Option κ) (next : σ → Code σ κ τ ε ρ)
      (fail : Code σ κ τ ε ρ) (r : κ) (found : row (c.pending Y.shared) = some r)
      (granted : Y.grants i r mode = true) :
      Turn Y i (.run i) ⟨c, .step pt (.lock mode row) next fail⟩
        ⟨c.take r mode, next (c.pending Y.shared)⟩ Y.shared
  | write (c : Ctx σ κ) (pt : τ) (u : σ → σ) (next : σ → Code σ κ τ ε ρ) (fail : Code σ κ τ ε ρ) :
      Turn Y i (.run i) ⟨c, .step pt (.write u) next fail⟩
        ⟨c.buffer u, next (u (c.pending Y.shared))⟩ Y.shared
  | effect (c : Ctx σ κ) (pt : τ) (u : σ → σ) (next : σ → Code σ κ τ ε ρ) (fail : Code σ κ τ ε ρ) :
      Turn Y i (.run i) ⟨c, .step pt (.effect u) next fail⟩ ⟨c, next (c.pending Y.shared)⟩ (u Y.shared)
  | commit (c : Ctx σ κ) (pt : τ) (next : σ → Code σ κ τ ε ρ) (fail : Code σ κ τ ε ρ) :
      Turn Y i (.run i) ⟨c, .step pt .commit next fail⟩ ⟨c.reset, next (c.pending Y.shared)⟩
        (c.pending Y.shared)
  | rollback (c : Ctx σ κ) (pt : τ) (next : σ → Code σ κ τ ε ρ) (fail : Code σ κ τ ε ρ) :
      Turn Y i (.run i) ⟨c, .step pt .rollback next fail⟩ ⟨c.reset, next Y.shared⟩ Y.shared

/-- A step of session `i` is one of its turns, and leaves the other sessions as they are. -/
theorem step_turn [Faulty ε] {Y Y' : System σ κ τ ε ρ} {l : Label σ κ τ ε ρ} {i : Nat}
    (hl : l.session = some i) (h : Y.step l = some Y') :
    ∃ t t', Y.sessions[i]? = some t ∧ Y' = Y.replace i t' Y'.shared ∧ Y.Turn i l t t' Y'.shared := by
  cases l with
  | start base code => exact absurd hl (by simp [Label.session])
  | env s => exact absurd hl (by simp [Label.session])
  | crash k =>
      obtain rfl := Option.some.inj hl
      simp only [step] at h
      split at h
      · next c x hi =>
          cases h
          exact ⟨_, _, hi, rfl, .crash _⟩
      · exact absurd h (by simp)
  | fail k =>
      obtain rfl := Option.some.inj hl
      simp only [step, interrupt] at h
      split at h
      · next c pt act next fail hi =>
          cases h
          exact ⟨_, _, hi, rfl, .fail c pt act next fail⟩
      · exact absurd h (by simp)
  | lose k =>
      obtain rfl := Option.some.inj hl
      simp only [step] at h
      split at h
      · next c pt next fail hi =>
          cases h
          exact ⟨_, _, hi, rfl, .lose c pt next fail⟩
      · exact absurd h (by simp)
  | run k =>
      obtain rfl := Option.some.inj hl
      simp only [step, advance] at h
      split at h
      · next c pt act next fail hi =>
          cases act with
          | read =>
              cases h
              exact ⟨_, _, hi, rfl, .read c pt next fail⟩
          | lock mode row =>
              simp only at h
              split at h
              · next hrow =>
                  cases h
                  exact ⟨_, _, hi, rfl, .pass c pt mode row next fail hrow⟩
              · next r hrow =>
                  split at h
                  · next hgranted =>
                      cases h
                      exact ⟨_, _, hi, rfl, .lock c pt mode row next fail r hrow hgranted⟩
                  · exact absurd h (by simp)
          | write u =>
              cases h
              exact ⟨_, _, hi, rfl, .write c pt u next fail⟩
          | effect u =>
              cases h
              exact ⟨_, _, hi, rfl, .effect c pt u next fail⟩
          | commit =>
              cases h
              exact ⟨_, _, hi, rfl, .commit c pt next fail⟩
          | rollback =>
              cases h
              exact ⟨_, _, hi, rfl, .rollback c pt next fail⟩
      · exact absurd h (by simp)

/-- The value session `i` has returned. -/
def returned (Y : System σ κ τ ε ρ) (i : Nat) : Option ρ :=
  match Y.sessions[i]? with
  | some ⟨_, .pure a⟩ => some a
  | _ => none

/-- The statement session `i` is about to execute. -/
def next (Y : System σ κ τ ε ρ) (i : Nat) : Option (τ × Act σ κ) :=
  match Y.sessions[i]? with
  | some ⟨_, .step pt act _ _⟩ => some (pt, act)
  | _ => none

/-- The statement that a label executes. -/
def executes (Y : System σ κ τ ε ρ) : Label σ κ τ ε ρ → Option (τ × Act σ κ)
  | .run i => Y.next i
  | .lose i => Y.next i
  | _ => none

/-- The point of the commit or outside write that a label makes visible, if it makes one. -/
def publishes (Y : System σ κ τ ε ρ) (l : Label σ κ τ ε ρ) : Option τ :=
  match Y.executes l with
  | some (pt, .commit) => some pt
  | some (pt, .effect _) => some pt
  | _ => none

omit [DecidableEq κ] in
theorem next_eq {Y : System σ κ τ ε ρ} {i : Nat} {c : Ctx σ κ} {pt : τ} {act : Act σ κ}
    {next : σ → Code σ κ τ ε ρ} {fail : Code σ κ τ ε ρ}
    (h : Y.sessions[i]? = some ⟨c, .step pt act next fail⟩) : Y.next i = some (pt, act) := by
  simp only [System.next, h]

omit [DecidableEq κ] in
theorem publishes_of_executes {Y : System σ κ τ ε ρ} {l : Label σ κ τ ε ρ} {pt : τ} {act : Act σ κ}
    (h : Y.executes l = some (pt, act)) : Y.publishes l = if act.isPublic then some pt else none := by
  unfold publishes
  rw [h]
  cases act <;> rfl

end System

/-! ## Runs -/

/-- `n` statements of session `i`. -/
def Label.runs (i n : Nat) : List (Label σ κ τ ε ρ) :=
  List.replicate n (.run i)

/-- Who may join a run: which programs start (with which fresh names, in which states), what the
    unmodelled rest of the world does, and whether an acknowledgement of a commit can be lost. -/
structure Setting (σ κ τ ε ρ : Type) where
  starts : Rights κ → Code σ κ τ ε ρ → σ → Prop
  env : σ → σ → Prop
  lossy : Prop

def Setting.Allows (W : Setting σ κ τ ε ρ) (Y : System σ κ τ ε ρ) : Label σ κ τ ε ρ → Prop
  | .start base code => W.starts base code Y.shared
  | .lose _ => W.lossy
  | .env s => W.env Y.shared s
  | _ => True

/-- A run from `Y`, its steps in order, each with the system it was taken in. -/
inductive Run [DecidableEq κ] [Faulty ε] (W : Setting σ κ τ ε ρ) (Y : System σ κ τ ε ρ) :
    List (System σ κ τ ε ρ × Label σ κ τ ε ρ) → System σ κ τ ε ρ → Prop where
  | nil : Run W Y [] Y
  | snoc {steps : List (System σ κ τ ε ρ × Label σ κ τ ε ρ)} {Z Z' : System σ κ τ ε ρ}
      {l : Label σ κ τ ε ρ} (before : Run W Y steps Z) (allowed : W.Allows Z l)
      (taken : Z.step l = some Z') : Run W Y (steps ++ [(Z, l)]) Z'

theorem Setting.allows_runs {W : Setting σ κ τ ε ρ} {i n : Nat} :
    ∀ l ∈ (Label.runs i n : List (Label σ κ τ ε ρ)), ∀ Y, W.Allows Y l := by
  intro l hl Y
  rw [List.eq_of_mem_replicate hl]
  trivial

theorem Run.cons [DecidableEq κ] [Faulty ε] {W : Setting σ κ τ ε ρ} {Y Y' Z : System σ κ τ ε ρ}
    {l : Label σ κ τ ε ρ} {steps : List (System σ κ τ ε ρ × Label σ κ τ ε ρ)} (allowed : W.Allows Y l)
    (taken : Y.step l = some Y') (after : Run W Y' steps Z) : Run W Y ((Y, l) :: steps) Z := by
  induction after with
  | nil => exact .snoc .nil allowed taken
  | snoc _ allowed' taken' ih => exact .snoc ih allowed' taken'

/-- A run, and a run from where it ends. -/
theorem Run.append [DecidableEq κ] [Faulty ε] {W : Setting σ κ τ ε ρ} {X Y Z : System σ κ τ ε ρ}
    {past future : List (System σ κ τ ε ρ × Label σ κ τ ε ρ)} (before : Run W Y past X) (after : Run W X future Z) :
    Run W Y (past ++ future) Z := by
  induction after with
  | nil => rwa [List.append_nil]
  | snoc _ allowed taken ih =>
      rw [← List.append_assoc]
      exact .snoc ih allowed taken

/-- A run up to one of its steps, the step, and the run from there. -/
theorem Run.split [DecidableEq κ] [Faulty ε] {W : Setting σ κ τ ε ρ} {Y Z : System σ κ τ ε ρ}
    {past future : List (System σ κ τ ε ρ × Label σ κ τ ε ρ)} {x : System σ κ τ ε ρ × Label σ κ τ ε ρ}
    (h : Run W Y (past ++ x :: future) Z) :
    Run W Y past x.1 ∧ W.Allows x.1 x.2 ∧ ∃ X', x.1.step x.2 = some X' ∧ Run W X' future Z := by
  generalize hsteps : past ++ x :: future = steps at h
  induction h generalizing future with
  | nil => exact absurd hsteps (by simp)
  | @snoc steps X Z l before allowed taken ih =>
      rcases List.eq_nil_or_concat future with rfl | ⟨rest, last, rfl⟩
      · obtain ⟨rfl, hx⟩ := List.append_inj' hsteps rfl
        obtain rfl := List.head_eq_of_cons_eq hx
        exact ⟨before, allowed, Z, taken, .nil⟩
      · rw [List.concat_eq_append, ← List.cons_append, ← List.append_assoc] at hsteps
        obtain ⟨hinit, hlast⟩ := List.append_inj' hsteps rfl
        obtain rfl := List.head_eq_of_cons_eq hlast
        obtain ⟨hpast, hallow, X', hstep, hrest⟩ := ih hinit
        refine ⟨hpast, hallow, X', hstep, ?_⟩
        rw [List.concat_eq_append]
        exact .snoc hrest allowed taken

/-- Every step of a run was allowed, and was taken. -/
theorem Run.allows [DecidableEq κ] [Faulty ε] {W : Setting σ κ τ ε ρ} {Y Z : System σ κ τ ε ρ}
    {steps : List (System σ κ τ ε ρ × Label σ κ τ ε ρ)} {x : System σ κ τ ε ρ × Label σ κ τ ε ρ}
    (h : Run W Y steps Z) (hx : x ∈ steps) : W.Allows x.1 x.2 ∧ ∃ X', x.1.step x.2 = some X' := by
  obtain ⟨past, future, rfl⟩ := List.append_of_mem hx
  obtain ⟨-, hallow, X', hstep, -⟩ := h.split
  exact ⟨hallow, X', hstep⟩

/-! ### Replaying labels -/

/-- Take the labels in order: the steps taken, and where they lead. -/
def System.replay [DecidableEq κ] [Faulty ε] (Y : System σ κ τ ε ρ) : List (Label σ κ τ ε ρ) →
    Option (List (System σ κ τ ε ρ × Label σ κ τ ε ρ) × System σ κ τ ε ρ)
  | [] => some ([], Y)
  | l :: rest => (Y.step l).bind fun Y' => (Y'.replay rest).map fun r => ((Y, l) :: r.1, r.2)

theorem System.replay_labels [DecidableEq κ] [Faulty ε] {labels : List (Label σ κ τ ε ρ)}
    {Y Z : System σ κ τ ε ρ} {steps : List (System σ κ τ ε ρ × Label σ κ τ ε ρ)}
    (h : Y.replay labels = some (steps, Z)) : steps.map Prod.snd = labels := by
  induction labels generalizing Y steps with
  | nil =>
      obtain ⟨rfl, rfl⟩ := Prod.mk.inj (Option.some.inj h)
      rfl
  | cons l rest ih =>
      obtain ⟨Y', -, h⟩ := Option.bind_eq_some_iff.1 h
      obtain ⟨⟨steps', Z'⟩, hrest, h⟩ := Option.map_eq_some_iff.1 h
      obtain ⟨rfl, rfl⟩ := Prod.mk.inj h
      rw [List.map_cons, ih hrest]

/-- Labels that are allowed where they are taken replay as a run. -/
theorem System.replay_steps_run [DecidableEq κ] [Faulty ε] {W : Setting σ κ τ ε ρ}
    {labels : List (Label σ κ τ ε ρ)} {Y Z : System σ κ τ ε ρ}
    {steps : List (System σ κ τ ε ρ × Label σ κ τ ε ρ)} (h : Y.replay labels = some (steps, Z))
    (hallow : ∀ x ∈ steps, W.Allows x.1 x.2) : Run W Y steps Z := by
  induction labels generalizing Y steps with
  | nil =>
      obtain ⟨rfl, rfl⟩ := Prod.mk.inj (Option.some.inj h)
      exact .nil
  | cons l rest ih =>
      obtain ⟨Y', hY', h⟩ := Option.bind_eq_some_iff.1 h
      obtain ⟨⟨steps', Z'⟩, hrest, h⟩ := Option.map_eq_some_iff.1 h
      obtain ⟨rfl, rfl⟩ := Prod.mk.inj h
      exact .cons (hallow _ List.mem_cons_self) hY'
        (ih hrest fun x hx => hallow x (List.mem_cons_of_mem _ hx))

/-- Labels that are allowed wherever they are taken replay as a run. -/
theorem System.replay_run [DecidableEq κ] [Faulty ε] {W : Setting σ κ τ ε ρ}
    {labels : List (Label σ κ τ ε ρ)} (hallow : ∀ l ∈ labels, ∀ Y, W.Allows Y l)
    {Y Z : System σ κ τ ε ρ} {steps : List (System σ κ τ ε ρ × Label σ κ τ ε ρ)}
    (h : Y.replay labels = some (steps, Z)) : Run W Y steps Z := by
  refine replay_steps_run h fun x hx => hallow x.2 ?_ x.1
  rw [← System.replay_labels h]
  exact List.mem_map_of_mem hx

/-- What a replay is computed to satisfy, the run it replays satisfies. -/
theorem System.exists_replay [DecidableEq κ] [Faulty ε] {Y : System σ κ τ ε ρ}
    (labels : List (Label σ κ τ ε ρ))
    {p : List (System σ κ τ ε ρ × Label σ κ τ ε ρ) → System σ κ τ ε ρ → Bool}
    (h : (Y.replay labels).any (fun r => p r.1 r.2) = true) :
    ∃ steps Z, Y.replay labels = some (steps, Z) ∧ p steps Z = true := by
  cases hr : Y.replay labels with
  | none => simp [hr] at h
  | some r => exact ⟨r.1, r.2, rfl, by simpa [hr] using h⟩

end Transactions
