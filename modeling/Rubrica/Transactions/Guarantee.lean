import Mathlib.Logic.Relation
import Rubrica.Transactions.Program

set_option autoImplicit false

/-! # Rely–guarantee reasoning about transactions

A `Protocol` says what every session promises (`guar`: what a commit or an outside write may do, and
under which row locks) and what holds of the shared state between statements (`inv`). What a session
may then *rely* on is the converse: between two of its statements the state only moves by promises
of sessions whose rights are compatible with its own. `Protocol.wp` is the weakest precondition of a
program under that interference, and `Protocol.sound` is the point of it: if every program keeps the
protocol, so does every run, statement by statement.

A protocol may be conditional: `cond` restricts the states in which the statement at a point is
executed, and the theorem then speaks about the runs that meet it. -/

namespace Transactions

variable {σ κ τ ε α β ρ : Type}

/-! ## Compatible rights -/

/-- Rights that two sessions can hold at the same time. -/
def Rights.Compatible (H H' : Rights κ) : Prop :=
  ∀ h ∈ H, ∀ h' ∈ H', h.1 = h'.1 → h.2.conflicts h'.2 = false

theorem LockMode.conflicts_comm (m m' : LockMode) : m.conflicts m' = m'.conflicts m := by
  cases m <;> cases m' <;> rfl

theorem Rights.Compatible.symm {H H' : Rights κ} (h : H.Compatible H') : H'.Compatible H :=
  fun a ha b hb hab => by rw [LockMode.conflicts_comm]; exact h b hb a ha hab.symm

theorem Rights.Compatible.mono {H H' K : Rights κ} (h : H.Compatible H') (hK : K ⊆ H) :
    K.Compatible H' :=
  fun a ha => h a (hK ha)

/-- Who holds a row exclusively shares it with nobody. -/
theorem Rights.Compatible.ne_of_exclusive {H H' : Rights κ} (h : H.Compatible H') {k k' : κ}
    {m : LockMode} (hk : (k, LockMode.exclusive) ∈ H) (hk' : (k', m) ∈ H') : k' ≠ k := by
  rintro rfl
  have := h _ hk _ hk' rfl
  cases m <;> simp [LockMode.conflicts] at this

theorem Rights.compatible_cons_iff {H H' : Rights κ} {k : κ} {m : LockMode} :
    Rights.Compatible ((k, m) :: H) H' ↔
      (∀ h' ∈ H', k = h'.1 → m.conflicts h'.2 = false) ∧ H.Compatible H' := by
  simp [Rights.Compatible]

theorem Rights.admits_iff [DecidableEq κ] {H : Rights κ} {k : κ} {m : LockMode} :
    H.admits k m = true ↔ ∀ h ∈ H, h.1 = k → h.2.conflicts m = false := by
  simp only [Rights.admits, List.all_eq_true, Bool.or_eq_true, decide_eq_true_eq,
    Bool.not_eq_true', ne_eq]
  exact forall₂_congr fun h _ => by rw [← imp_iff_not_or]

/-! ## Protocols -/

structure Protocol (σ κ τ : Type) where
  /-- What holds of the shared state between statements. -/
  inv : σ → Prop
  /-- What the commit or outside write at a point may do, by a holder of some rights. -/
  guar : τ → Rights κ → σ → σ → Prop
  /-- What the rest of the world may do. -/
  env : σ → σ → Prop
  /-- When the statement at a point is executed in a state, in the runs considered. -/
  cond : τ → σ → Prop
  /-- Whether the acknowledgement of a commit can be lost. -/
  lossy : Prop

namespace Protocol

variable (P : Protocol σ κ τ)

/-- One step of somebody else, as a holder of `H` sees it. -/
def Interferes (H : Rights κ) (s s' : σ) : Prop :=
  P.inv s ∧ P.inv s' ∧
    (P.env s s' ∨ ∃ pt H', H.Compatible H' ∧ P.cond pt s ∧ P.guar pt H' s s')

/-- What the others do between two statements of a holder of `H`. -/
def Rely (H : Rights κ) : σ → σ → Prop :=
  Relation.ReflTransGen (P.Interferes H)

variable {P}

theorem Interferes.anti {H K : Rights κ} {s s' : σ} (h : P.Interferes K s s') (hH : H ⊆ K) :
    P.Interferes H s s' :=
  ⟨h.1, h.2.1, h.2.2.imp_right fun ⟨pt, H', hc, hg⟩ => ⟨pt, H', hc.mono hH, hg⟩⟩

variable (P)

/-- An assertion that survives the interference a holder of `H` is exposed to. -/
def Stable (H : Rights κ) (A : σ → Prop) : Prop :=
  ∀ s s', P.Interferes H s s' → A s → A s'

variable {P}

theorem Stable.rely {H : Rights κ} {A : σ → Prop} (h : P.Stable H A) {s s' : σ}
    (hr : P.Rely H s s') (hs : A s) : A s' := by
  induction hr with
  | refl => exact hs
  | tail _ hi ih => exact h _ _ hi ih

theorem Stable.and {H : Rights κ} {A B : σ → Prop} (hA : P.Stable H A) (hB : P.Stable H B) :
    P.Stable H (fun s => A s ∧ B s) :=
  fun s s' hi h => ⟨hA s s' hi h.1, hB s s' hi h.2⟩

theorem Stable.anti {H K : Rights κ} {A : σ → Prop} (h : P.Stable H A) (hK : H ⊆ K) :
    P.Stable K A :=
  fun s s' hi => h s s' (hi.anti hK)

theorem stable_const (H : Rights κ) (p : Prop) : P.Stable H (fun _ => p) :=
  fun _ _ _ h => h

/-! ## Weakest preconditions -/

variable (P)

/-- From `s`, and whatever the others do between its statements, the program keeps the protocol,
    ends with `Q` where it returns and with `E` where it raises. -/
def wp : Code σ κ τ ε α → (α → Ctx σ κ → σ → Prop) → (ε → Ctx σ κ → σ → Prop) → Ctx σ κ → σ → Prop
  | .pure a, Q, _, c, s => Q a c s
  | .raise e, _, E, c, s => E e c s
  | .step pt act next fail, Q, E, c, s =>
      ∀ s', P.Rely c.held s s' → P.inv s' → wp fail Q E c.reset s' ∧ (P.cond pt s' →
        match act with
        | .read => wp (next (c.pending s')) Q E c s'
        | .lock mode row =>
            match row (c.pending s') with
            | none => wp (next (c.pending s')) Q E c s'
            | some r => wp (next (c.pending s')) Q E (c.take r mode) s'
        | .write u => wp (next (u (c.pending s'))) Q E (c.buffer u) s'
        | .effect u =>
            P.inv (u s') ∧ P.guar pt c.held s' (u s') ∧ wp (next (c.pending s')) Q E c (u s')
        | .commit =>
            P.inv (c.pending s') ∧ P.guar pt c.held s' (c.pending s') ∧
              wp (next (c.pending s')) Q E c.reset (c.pending s') ∧
              (P.lossy → wp fail Q E c.reset (c.pending s'))
        | .rollback => wp (next s') Q E c.reset s')

/-- A postcondition that the others cannot break. -/
def Lasting (Q : α → Ctx σ κ → σ → Prop) : Prop :=
  ∀ a c s s', P.Rely c.held s s' → Q a c s → Q a c s'

variable {P}

theorem lasting_true : P.Lasting (fun (_ : α) (_ : Ctx σ κ) _ => True) :=
  fun _ _ _ _ _ _ => trivial

/-- Interference before the first statement is interference the program already tolerates. -/
theorem wp_rely {Q : α → Ctx σ κ → σ → Prop} {E : ε → Ctx σ κ → σ → Prop} (hQ : P.Lasting Q)
    (hE : P.Lasting E) {x : Code σ κ τ ε α} {c : Ctx σ κ} {s s' : σ} (hr : P.Rely c.held s s')
    (h : P.wp x Q E c s) : P.wp x Q E c s' := by
  cases x with
  | pure a => exact hQ a c s s' hr h
  | raise e => exact hE e c s s' hr h
  | step pt act next fail => exact fun t ht => h t (hr.trans ht)

theorem wp_bind (x : Code σ κ τ ε α) (f : α → Code σ κ τ ε β) (Q : β → Ctx σ κ → σ → Prop)
    (E : ε → Ctx σ κ → σ → Prop) (c : Ctx σ κ) (s : σ) :
    P.wp (x.bind f) Q E c s = P.wp x (fun a c s => P.wp (f a) Q E c s) E c s := by
  induction x generalizing c s with
  | pure a => rfl
  | raise e => rfl
  | step pt act next fail ihn ihf =>
      simp only [Code.bind, wp, ihn, ihf]

theorem wp_tryCatch (x : Code σ κ τ ε α) (h : ε → Code σ κ τ ε α) (Q : α → Ctx σ κ → σ → Prop)
    (E : ε → Ctx σ κ → σ → Prop) (c : Ctx σ κ) (s : σ) :
    P.wp (x.tryCatch h) Q E c s = P.wp x Q (fun e c s => P.wp (h e) Q E c s) c s := by
  induction x generalizing c s with
  | pure a => rfl
  | raise e => rfl
  | step pt act next fail ihn ihf =>
      simp only [Code.tryCatch, wp, ihn, ihf]

/-! ## Runs of programs that keep the protocol -/

variable (P)

/-- The system invariant: rights of different sessions are compatible, and what is left of every
    session's program still keeps the protocol. -/
structure Good (Q : ρ → Ctx σ κ → σ → Prop) (E : ε → Ctx σ κ → σ → Prop)
    (Y : System σ κ τ ε ρ) : Prop where
  inv : P.inv Y.shared
  compatible : ∀ (i j : Nat) (t u : Session σ κ τ ε ρ), i ≠ j → Y.sessions[i]? = some t →
    Y.sessions[j]? = some u → t.ctx.held.Compatible u.ctx.held
  base : ∀ (i : Nat) t, Y.sessions[i]? = some t → t.ctx.base ⊆ t.ctx.held
  wp : ∀ (i : Nat) t, Y.sessions[i]? = some t → P.wp t.code Q E t.ctx Y.shared

/-- A system in which no session has started yet is good as soon as its state is. -/
theorem good_of_idle {Q : ρ → Ctx σ κ → σ → Prop} {E : ε → Ctx σ κ → σ → Prop}
    {Y : System σ κ τ ε ρ} (h : P.inv Y.shared) (hs : Y.sessions = []) : P.Good Q E Y := by
  refine ⟨h, ?_, ?_, ?_⟩ <;> simp [hs]

/-- The condition holds at the statement this label executes. -/
def Meets (Y : System σ κ τ ε ρ) (l : Label σ κ τ ε ρ) : Prop :=
  ∀ pt act, Y.executes l = some (pt, act) → P.cond pt Y.shared

variable {P} in
theorem Meets.publishes {Y : System σ κ τ ε ρ} {l : Label σ κ τ ε ρ} {pt : τ} (h : P.Meets Y l)
    (hp : Y.publishes l = some pt) : P.cond pt Y.shared := by
  unfold System.publishes at hp
  split at hp
  · next hex => exact h _ _ (Option.some.inj hp ▸ hex)
  · next hex => exact h _ _ (Option.some.inj hp ▸ hex)
  · exact absurd hp (by simp)

/-- What one step does to the shared state: nothing, somebody else's change, or what the protocol
    promises at the point of the commit or outside write that was executed. -/
def Moves (Y : System σ κ τ ε ρ) (l : Label σ κ τ ε ρ) (s' : σ) : Prop :=
  match Y.publishes l with
  | some pt => ∃ H, P.guar pt H Y.shared s'
  | none => s' = Y.shared ∨ P.env Y.shared s'

variable {P} {Q : ρ → Ctx σ κ → σ → Prop} {E : ε → Ctx σ κ → σ → Prop}
  {Y : System σ κ τ ε ρ}

/-- Replacing one session keeps the invariant when its new rights are compatible with the others',
    its new program is safe where the state now is, and the others could rely on the move. -/
theorem Good.replace (h : P.Good Q E Y) (hQ : P.Lasting Q) (hE : P.Lasting E) {i : Nat}
    {t t' : Session σ κ τ ε ρ} {s' : σ} (hi : Y.sessions[i]? = some t) (hinv : P.inv s')
    (hcompat : ∀ j u, j ≠ i → Y.sessions[j]? = some u → t'.ctx.held.Compatible u.ctx.held)
    (hbase : t'.ctx.base ⊆ t'.ctx.held) (hwp : P.wp t'.code Q E t'.ctx s')
    (hrely : ∀ j u, j ≠ i → Y.sessions[j]? = some u → P.Rely u.ctx.held Y.shared s') :
    P.Good Q E (Y.replace i t' s') := by
  have hlt : i < Y.sessions.length := (List.getElem?_eq_some_iff.1 hi).1
  have hget : ∀ (j : Nat) u, (Y.replace i t' s').sessions[j]? = some u →
      (j = i ∧ u = t') ∨ (j ≠ i ∧ Y.sessions[j]? = some u) := by
    intro j u hu
    simp only [System.replace, List.getElem?_set] at hu
    split at hu
    · next hji =>
        subst hji
        exact Or.inl ⟨rfl, (Option.some.inj hu).symm⟩
    · next hji => exact Or.inr ⟨fun he => hji he.symm, hu⟩
  refine ⟨hinv, ?_, ?_, ?_⟩
  · intro j k u v hjk hu hv
    rcases hget j u hu with ⟨rfl, rfl⟩ | ⟨hj, hu'⟩ <;> rcases hget k v hv with ⟨rfl, rfl⟩ | ⟨hk, hv'⟩
    · exact absurd rfl hjk
    · exact hcompat k v hk hv'
    · exact (hcompat j u hj hu').symm
    · exact h.compatible j k u v hjk hu' hv'
  · intro j u hu
    rcases hget j u hu with ⟨rfl, rfl⟩ | ⟨hj, hu'⟩
    · exact hbase
    · exact h.base j u hu'
  · intro j u hu
    rcases hget j u hu with ⟨rfl, rfl⟩ | ⟨hj, hu'⟩
    · exact hwp
    · exact wp_rely hQ hE (hrely j u hj hu') (h.wp j u hu')

/-- A move of session `i` that its promise covers is one the other sessions rely on. -/
theorem Good.relied (h : P.Good Q E Y) {i : Nat} {t : Session σ κ τ ε ρ} {s' : σ} {pt : τ}
    (hi : Y.sessions[i]? = some t) (hinv : P.inv s') (hcond : P.cond pt Y.shared)
    (hg : P.guar pt t.ctx.held Y.shared s') :
    ∀ j u, j ≠ i → Y.sessions[j]? = some u → P.Rely u.ctx.held Y.shared s' :=
  fun j u hj hu => Relation.ReflTransGen.single
    ⟨h.inv, hinv, Or.inr ⟨pt, _, h.compatible j i u t hj hu hi, hcond, hg⟩⟩

theorem Good.held (h : P.Good Q E Y) {i : Nat} {t : Session σ κ τ ε ρ}
    (hi : Y.sessions[i]? = some t) :
    ∀ j u, j ≠ i → Y.sessions[j]? = some u → t.ctx.held.Compatible u.ctx.held :=
  fun j u hj hu => h.compatible i j t u hj.symm hi hu

theorem Good.reset (h : P.Good Q E Y) {i : Nat} {t : Session σ κ τ ε ρ}
    (hi : Y.sessions[i]? = some t) :
    ∀ j u, j ≠ i → Y.sessions[j]? = some u → t.ctx.reset.held.Compatible u.ctx.held :=
  fun j u hj hu => (h.held hi j u hj hu).mono (h.base i t hi)

variable [DecidableEq κ]

/-- A lock that is granted is compatible with what the others hold. -/
theorem Good.granted (h : P.Good Q E Y) {i : Nat} {t : Session σ κ τ ε ρ} {r : κ} {m : LockMode}
    (hi : Y.sessions[i]? = some t) (hg : Y.grants i r m = true) :
    ∀ j u, j ≠ i → Y.sessions[j]? = some u → (t.ctx.take r m).held.Compatible u.ctx.held := by
  intro j u hj hu
  rw [Ctx.take_held, Rights.compatible_cons_iff]
  refine ⟨fun h' hh' hr => ?_, h.held hi j u hj hu⟩
  have hadm : u.ctx.held.admits r m = true := by
    rw [System.grants, List.all_eq_true] at hg
    exact hg u (List.mem_eraseIdx_iff_getElem?.2 ⟨j, hj, hu⟩)
  rw [LockMode.conflicts_comm]
  exact Rights.admits_iff.1 hadm h' hh' hr.symm

/-! ### The session that takes a step -/

/-- What a step can make of the context of its session. -/
inductive Turns (Y : System σ κ τ ε ρ) (i : Nat) (c : Ctx σ κ) : Ctx σ κ → Prop where
  | same : Turns Y i c c
  | reset : Turns Y i c c.reset
  | take (r : κ) (m : LockMode) (granted : Y.grants i r m = true) : Turns Y i c (c.take r m)
  | buffer (u : σ → σ) : Turns Y i c (c.buffer u)

/-- What a session holds for life it keeps. -/
theorem Turns.base {i : Nat} {c c' : Ctx σ κ} (h : Turns Y i c c') (hbase : c.base ⊆ c.held) : c'.base ⊆ c'.held := by
  cases h with
  | same => exact hbase
  | reset => exact fun _ h => h
  | take => exact fun _ h => List.mem_cons_of_mem _ (hbase h)
  | buffer => exact hbase

omit [DecidableEq κ] in
variable (P) in
/-- What a holder of `H` promises of its step: nothing changes unless others see the step. -/
def Promised (H : Rights κ) (Y : System σ κ τ ε ρ) (l : Label σ κ τ ε ρ) (s' : σ) : Prop :=
  match Y.publishes l with
  | some pt => P.cond pt Y.shared ∧ P.inv s' ∧ P.guar pt H Y.shared s'
  | none => s' = Y.shared

variable [Faulty ε]

variable (P) in
/-- What a step means to the session that takes it: its program stays safe, for whatever it was safe, and
    the shared state moves as it promises. -/
def Steps (Y : System σ κ τ ε ρ) (l : Label σ κ τ ε ρ) (s' : σ) (t t' : Session σ κ τ ε ρ) : Prop :=
  ∀ (Q : ρ → Ctx σ κ → σ → Prop) (E : ε → Ctx σ κ → σ → Prop), (∀ c s, P.inv s → E Faulty.fault c s) →
    P.wp t.code Q E t.ctx Y.shared →
      P.wp t'.code Q E t'.ctx s' ∧ P.Promised t.ctx.held Y l s'

theorem turns_of_turn {l : Label σ κ τ ε ρ} {i : Nat} {t t' : Session σ κ τ ε ρ} {s' : σ}
    (h : Y.Turn i l t t' s') : Turns Y i t.ctx t'.ctx := by
  cases h with
  | crash => exact .reset
  | fail => exact .reset
  | lose => exact .reset
  | read => exact .same
  | pass => exact .same
  | lock c pt mode row next fail r found granted => exact .take r mode granted
  | write c pt u => exact .buffer u
  | effect => exact .same
  | commit => exact .reset
  | rollback => exact .reset

omit [DecidableEq κ] [Faulty ε] in
/-- A statement that nobody sees promises nothing. -/
theorem promised_quiet {H : Rights κ} {l : Label σ κ τ ε ρ} (h : Y.publishes l = none) :
    P.Promised H Y l Y.shared := by
  unfold Promised
  rw [h]

omit [DecidableEq κ] [Faulty ε] in
theorem promised_seen {H : Rights κ} {l : Label σ κ τ ε ρ} {pt : τ} {s' : σ} (h : Y.publishes l = some pt)
    (hcond : P.cond pt Y.shared) (hinv : P.inv s') (hg : P.guar pt H Y.shared s') : P.Promised H Y l s' := by
  unfold Promised
  rw [h]
  exact ⟨hcond, hinv, hg⟩

theorem steps_of_turn {l : Label σ κ τ ε ρ} {i : Nat} {t t' : Session σ κ τ ε ρ} {s' : σ}
    (h : Y.Turn i l t t' s') (hi : Y.sessions[i]? = some t) (hinv : P.inv Y.shared) (hmeets : P.Meets Y l)
    (hlossy : l = .lose i → P.lossy) : P.Steps Y l s' t t' := by
  intro Q E hfault hw
  -- What the program owes at the statement it is about to execute.
  have owes := fun pt act next fail (hcode : t.code = Code.step pt act next fail)
      (hex : Y.executes l = some (pt, act)) =>
    (hcode ▸ hw : P.wp (Code.step pt act next fail) Q E t.ctx Y.shared) Y.shared
      Relation.ReflTransGen.refl hinv |>.2 (hmeets pt act hex)
  cases h with
  | crash => exact ⟨hfault _ _ hinv, promised_quiet rfl⟩
  | fail => exact ⟨(hw Y.shared Relation.ReflTransGen.refl hinv).1, promised_quiet rfl⟩
  | lose c pt next fail =>
      have hex : Y.executes (.lose i) = some (pt, .commit) := System.next_eq hi
      obtain ⟨hinv', hg, -, hlost⟩ := owes pt _ next fail rfl hex
      exact ⟨hlost (hlossy rfl),
        promised_seen (System.publishes_of_executes hex) (hmeets pt _ hex) hinv' hg⟩
  | read c pt next fail =>
      have hex : Y.executes (.run i) = some (pt, .read) := System.next_eq hi
      exact ⟨owes pt _ next fail rfl hex, promised_quiet (System.publishes_of_executes hex)⟩
  | pass c pt mode row next fail absent =>
      have hex : Y.executes (.run i) = some (pt, .lock mode row) := System.next_eq hi
      have hgo := owes pt _ next fail rfl hex
      simp only [absent] at hgo
      exact ⟨hgo, promised_quiet (System.publishes_of_executes hex)⟩
  | lock c pt mode row next fail r found granted =>
      have hex : Y.executes (.run i) = some (pt, .lock mode row) := System.next_eq hi
      have hgo := owes pt _ next fail rfl hex
      simp only [found] at hgo
      exact ⟨hgo, promised_quiet (System.publishes_of_executes hex)⟩
  | write c pt u next fail =>
      have hex : Y.executes (.run i) = some (pt, .write u) := System.next_eq hi
      exact ⟨owes pt _ next fail rfl hex, promised_quiet (System.publishes_of_executes hex)⟩
  | effect c pt u next fail =>
      have hex : Y.executes (.run i) = some (pt, .effect u) := System.next_eq hi
      obtain ⟨hinv', hg, hgo⟩ := owes pt _ next fail rfl hex
      exact ⟨hgo, promised_seen (System.publishes_of_executes hex) (hmeets pt _ hex) hinv' hg⟩
  | commit c pt next fail =>
      have hex : Y.executes (.run i) = some (pt, .commit) := System.next_eq hi
      obtain ⟨hinv', hg, hgo, -⟩ := owes pt _ next fail rfl hex
      exact ⟨hgo, promised_seen (System.publishes_of_executes hex) (hmeets pt _ hex) hinv' hg⟩
  | rollback c pt next fail =>
      have hex : Y.executes (.run i) = some (pt, .rollback) := System.next_eq hi
      exact ⟨owes pt _ next fail rfl hex, promised_quiet (System.publishes_of_executes hex)⟩

theorem session_step {l : Label σ κ τ ε ρ} {Y' : System σ κ τ ε ρ} {i : Nat} (hl : l.session = some i)
    (hinv : P.inv Y.shared) (hmeets : P.Meets Y l) (hlossy : l = .lose i → P.lossy)
    (hstep : Y.step l = some Y') :
    ∃ t t', Y.sessions[i]? = some t ∧ Y' = Y.replace i t' Y'.shared ∧ Turns Y i t.ctx t'.ctx ∧
      P.Steps Y l Y'.shared t t' := by
  obtain ⟨t, t', hi, heq, hturn⟩ := System.step_turn hl hstep
  exact ⟨t, t', hi, heq, turns_of_turn hturn, steps_of_turn hturn hi hinv hmeets hlossy⟩

omit [Faulty ε] in
theorem Good.turns (h : P.Good Q E Y) {i : Nat} {t : Session σ κ τ ε ρ} {c' : Ctx σ κ}
    (hi : Y.sessions[i]? = some t) (ht : Turns Y i t.ctx c') :
    (∀ j u, j ≠ i → Y.sessions[j]? = some u → c'.held.Compatible u.ctx.held) ∧ c'.base ⊆ c'.held := by
  refine ⟨?_, ht.base (h.base i t hi)⟩
  cases ht with
  | same => exact h.held hi
  | reset => exact h.reset hi
  | take r m hg => exact h.granted hi hg
  | buffer u => exact h.held hi

omit [DecidableEq κ] [Faulty ε] in
/-- The other sessions rely on what the one that takes a step promises. -/
theorem Good.promised (h : P.Good Q E Y) {i : Nat} {t : Session σ κ τ ε ρ} {l : Label σ κ τ ε ρ} {s' : σ}
    (hi : Y.sessions[i]? = some t) (hp : P.Promised t.ctx.held Y l s') :
    P.inv s' ∧ P.Moves Y l s' ∧
      ∀ j u, j ≠ i → Y.sessions[j]? = some u → P.Rely u.ctx.held Y.shared s' := by
  unfold Promised at hp
  unfold Moves
  cases hpub : Y.publishes l with
  | none =>
      rw [hpub] at hp
      obtain rfl := hp
      exact ⟨h.inv, Or.inl rfl, fun _ _ _ _ => Relation.ReflTransGen.refl⟩
  | some pt =>
      rw [hpub] at hp
      obtain ⟨hcond, hinv, hg⟩ := hp
      exact ⟨hinv, ⟨_, hg⟩, h.relied hi hinv hcond hg⟩

/-- What makes a protocol speak about a setting: every program that may start keeps it, it allows for
    what the rest of the world does, and its postconditions last. -/
structure Governs (P : Protocol σ κ τ) (Q : ρ → Ctx σ κ → σ → Prop) (E : ε → Ctx σ κ → σ → Prop)
    (W : Setting σ κ τ ε ρ) : Prop where
  lasting : P.Lasting Q
  lasting_raise : P.Lasting E
  starts : ∀ base code s, P.inv s → W.starts base code s → P.wp code Q E (.start base) s
  env : ∀ s s', P.inv s → W.env s s' → P.env s s' ∧ P.inv s'
  lossy : W.lossy → P.lossy
  fault : ∀ c s, P.inv s → E Faulty.fault c s

variable {W : Setting σ κ τ ε ρ}

/-- A session that starts leaves the others as they are. -/
theorem Good.start (hW : P.Governs Q E W) (h : P.Good Q E Y) {base : Rights κ} {code : Code σ κ τ ε ρ}
    {Y' : System σ κ τ ε ρ} (hallow : W.starts base code Y.shared)
    (hstep : Y.step (.start base code) = some Y') :
    Y' = ⟨Y.shared, Y.sessions ++ [⟨.start base, code⟩]⟩ ∧ P.Good Q E Y' := by
  simp only [System.step] at hstep
  split at hstep
  · next hgr =>
      cases hstep
      refine ⟨rfl, h.inv, ?_, ?_, ?_⟩
      · have hnew : ∀ (j : Nat) u, Y.sessions[j]? = some u → base.Compatible u.ctx.held := by
          intro j u hu b hb h' hh' hr
          have hall := List.all_eq_true.1 hgr u (List.mem_of_getElem? hu)
          rw [LockMode.conflicts_comm]
          exact Rights.admits_iff.1 (List.all_eq_true.1 hall b hb) h' hh' hr.symm
        intro i j t u hij hi hj
        simp only [List.getElem?_append] at hi hj
        split at hi <;> split at hj
        · exact h.compatible i j t u hij hi hj
        · obtain rfl := List.mem_singleton.1 (List.mem_of_getElem? hj)
          exact (hnew i t hi).symm
        · obtain rfl := List.mem_singleton.1 (List.mem_of_getElem? hi)
          exact hnew j u hj
        · have hi0 := (List.getElem?_eq_some_iff.1 hi).1
          have hj0 := (List.getElem?_eq_some_iff.1 hj).1
          simp only [List.length_singleton] at hi0 hj0
          omega
      · intro i t hi
        simp only [List.getElem?_append] at hi
        split at hi
        · exact h.base i t hi
        · obtain rfl := List.mem_singleton.1 (List.mem_of_getElem? hi)
          exact fun _ hx => hx
      · intro i t hi
        simp only [List.getElem?_append] at hi
        split at hi
        · exact h.wp i t hi
        · obtain rfl := List.mem_singleton.1 (List.mem_of_getElem? hi)
          exact hW.starts base code Y.shared h.inv hallow
  · exact absurd hstep (by simp)

/-- **One step.** In a system whose sessions keep the protocol, a step that meets the condition keeps
    them so, and moves the shared state only as promised. -/
theorem Good.step (hW : P.Governs Q E W) (h : P.Good Q E Y) {l : Label σ κ τ ε ρ}
    {Y' : System σ κ τ ε ρ} (hallow : W.Allows Y l) (hmeets : P.Meets Y l)
    (hstep : Y.step l = some Y') : P.Good Q E Y' ∧ P.Moves Y l Y'.shared := by
  cases hl : l.session with
  | some i =>
      have hlossy : l = .lose i → P.lossy := fun he => hW.lossy (by rw [he] at hallow; exact hallow)
      obtain ⟨t, t', hi, heq, hturns, hsteps⟩ := session_step hl h.inv hmeets hlossy hstep
      obtain ⟨hwp, hp⟩ := hsteps Q E hW.fault (h.wp i t hi)
      obtain ⟨hinv, hmove, hrely⟩ := h.promised hi hp
      obtain ⟨hcompat, hbase⟩ := h.turns hi hturns
      refine ⟨?_, hmove⟩
      rw [heq]
      exact h.replace hW.lasting hW.lasting_raise hi hinv hcompat hbase hwp hrely
  | none =>
      cases l with
      | start base code =>
          obtain ⟨rfl, hgood⟩ := h.start hW hallow hstep
          exact ⟨hgood, Or.inl rfl⟩
      | env s =>
          cases hstep
          obtain ⟨he, hinv⟩ := hW.env Y.shared s h.inv hallow
          refine ⟨⟨hinv, h.compatible, h.base, fun i t hi => ?_⟩, Or.inr he⟩
          exact wp_rely hW.lasting hW.lasting_raise
            (Relation.ReflTransGen.single ⟨h.inv, hinv, Or.inl he⟩) (h.wp i t hi)
      | run i => exact absurd hl (by simp [Label.session])
      | fail i => exact absurd hl (by simp [Label.session])
      | lose i => exact absurd hl (by simp [Label.session])
      | crash i => exact absurd hl (by simp [Label.session])

/-- One step, as a session sees it of which more is known than of the others. -/
theorem Good.follow_step (hW : P.Governs Q E W) (h : P.Good Q E Y) {Q' : ρ → Ctx σ κ → σ → Prop}
    {E' : ε → Ctx σ κ → σ → Prop} (hQ' : P.Lasting Q') (hE' : P.Lasting E')
    (hfault : ∀ c s, P.inv s → E' Faulty.fault c s) {l : Label σ κ τ ε ρ} {Y' : System σ κ τ ε ρ}
    (hallow : W.Allows Y l) (hmeets : P.Meets Y l) (hstep : Y.step l = some Y') {j : Nat}
    {t : Session σ κ τ ε ρ} (hj : Y.sessions[j]? = some t) (hwp : P.wp t.code Q' E' t.ctx Y.shared) :
    ∃ t', Y'.sessions[j]? = some t' ∧ P.wp t'.code Q' E' t'.ctx Y'.shared := by
  cases hl : l.session with
  | some i =>
      have hlossy : l = .lose i → P.lossy := fun he => hW.lossy (by rw [he] at hallow; exact hallow)
      obtain ⟨u, u', hi, heq, hturns, hsteps⟩ := session_step hl h.inv hmeets hlossy hstep
      by_cases hij : i = j
      · subst hij
        obtain rfl := Option.some.inj (hi.symm.trans hj)
        refine ⟨u', ?_, (hsteps Q' E' hfault hwp).1⟩
        rw [heq]
        exact List.getElem?_set_self (List.getElem?_eq_some_iff.1 hi).1
      · obtain ⟨-, hp⟩ := hsteps Q E hW.fault (h.wp i u hi)
        obtain ⟨-, -, hrely⟩ := h.promised hi hp
        refine ⟨t, ?_, wp_rely hQ' hE' (hrely j t (Ne.symm hij) hj) hwp⟩
        rw [heq]
        exact (List.getElem?_set_ne hij).trans hj
  | none =>
      cases l with
      | start base code =>
          obtain ⟨rfl, -⟩ := h.start hW hallow hstep
          exact ⟨t, List.getElem?_append_left (List.getElem?_eq_some_iff.1 hj).1 ▸ hj, hwp⟩
      | env s =>
          cases hstep
          obtain ⟨he, hinv⟩ := hW.env Y.shared s h.inv hallow
          exact ⟨t, hj, wp_rely hQ' hE' (Relation.ReflTransGen.single ⟨h.inv, hinv, Or.inl he⟩) hwp⟩
      | run i => exact absurd hl (by simp [Label.session])
      | fail i => exact absurd hl (by simp [Label.session])
      | lose i => exact absurd hl (by simp [Label.session])
      | crash i => exact absurd hl (by simp [Label.session])

variable {steps : List (System σ κ τ ε ρ × Label σ κ τ ε ρ)} {Z : System σ κ τ ε ρ}

/-- **Soundness.** Along a run whose steps meet the condition, the system stays good: the invariant
    holds, every program left keeps the protocol, and a finished session is in its postcondition. -/
theorem Governs.good (hW : P.Governs Q E W) (h0 : P.Good Q E Y) (hrun : Run W Y steps Z)
    (hmeets : ∀ x ∈ steps, P.Meets x.1 x.2) : P.Good Q E Z := by
  induction hrun with
  | nil => exact h0
  | snoc before allowed taken ih =>
      have hZ := ih fun x hx => hmeets x (List.mem_append_left _ hx)
      have hl := hmeets _ (List.mem_append_right _ (List.mem_singleton.2 rfl))
      exact (hZ.step hW allowed hl taken).1

/-- A session of which more is known at the start of a run than of the others: it is still known when the
    session has returned. -/
theorem Governs.follow (hW : P.Governs Q E W) (h0 : P.Good Q E Y) (hrun : Run W Y steps Z)
    (hmeets : ∀ x ∈ steps, P.Meets x.1 x.2) {Q' : ρ → Ctx σ κ → σ → Prop} (hQ' : P.Lasting Q') {j : Nat}
    {t : Session σ κ τ ε ρ} (hj : Y.sessions[j]? = some t)
    (hwp : P.wp t.code Q' (fun _ _ _ => True) t.ctx Y.shared) {a : ρ} (hret : Z.returned j = some a) :
    ∃ c, Q' a c Z.shared := by
  have key : ∃ t', Z.sessions[j]? = some t' ∧ P.wp t'.code Q' (fun _ _ _ => True) t'.ctx Z.shared := by
    clear hret
    induction hrun with
    | nil => exact ⟨t, hj, hwp⟩
    | @snoc past X X' l before allowed taken ih =>
        have hpast : ∀ x ∈ past, P.Meets x.1 x.2 := fun x hx => hmeets x (List.mem_append_left _ hx)
        have hl := hmeets (X, l) (List.mem_append_right _ (List.mem_singleton.2 rfl))
        obtain ⟨t', hj', hwp'⟩ := ih hpast
        exact (hW.good h0 before hpast).follow_step hW hQ' lasting_true (fun _ _ _ => trivial) allowed hl
          taken hj' hwp'
  obtain ⟨t', hj', hwp'⟩ := key
  unfold System.returned at hret
  rw [hj'] at hret
  split at hret
  · next c b hi =>
      obtain rfl := Option.some.inj hi
      obtain rfl := Option.some.inj hret
      exact ⟨c, hwp'⟩
  · exact absurd hret (by simp)

/-- A session that has returned is in the postcondition. -/
theorem Governs.returned (hW : P.Governs Q E W) (h0 : P.Good Q E Y) (hrun : Run W Y steps Z)
    (hmeets : ∀ x ∈ steps, P.Meets x.1 x.2) {i : Nat} {a : ρ} (hret : Z.returned i = some a) :
    ∃ c, Q a c Z.shared := by
  unfold System.returned at hret
  split at hret
  · next c b hi =>
      obtain rfl := Option.some.inj hret
      exact ⟨c, (hW.good h0 hrun hmeets).wp i _ hi⟩
  · exact absurd hret (by simp)

/-- Every step of a run moves the shared state only as promised. -/
theorem Governs.moves (hW : P.Governs Q E W) (h0 : P.Good Q E Y) (hrun : Run W Y steps Z)
    (hmeets : ∀ x ∈ steps, P.Meets x.1 x.2) {x : System σ κ τ ε ρ × Label σ κ τ ε ρ} (hx : x ∈ steps)
    {X' : System σ κ τ ε ρ} (hstep : x.1.step x.2 = some X') : P.Moves x.1 x.2 X'.shared := by
  induction hrun with
  | nil => exact absurd hx (by simp)
  | @snoc past X X'' l before allowed taken ih =>
      have hpast : ∀ x ∈ past, P.Meets x.1 x.2 := fun x hx => hmeets x (List.mem_append_left _ hx)
      rcases List.mem_append.1 hx with hx | hx
      · exact ih hpast hx
      · obtain rfl := List.mem_singleton.1 hx
        have hl := hmeets (X, l) (List.mem_append_right _ (List.mem_singleton.2 rfl))
        exact ((hW.good h0 before hpast).step hW allowed hl hstep).2

omit [DecidableEq κ] [Faulty ε] in
/-- A promised move is one that somebody without rights has to expect. -/
theorem Moves.rely {l : Label σ κ τ ε ρ} {s' : σ} (h : P.Moves Y l s') (hinv : P.inv Y.shared) (hinv' : P.inv s')
    (hmeets : P.Meets Y l) : P.Rely [] Y.shared s' := by
  unfold Moves at h
  split at h
  · next pt hpub =>
      obtain ⟨H, hg⟩ := h
      exact Relation.ReflTransGen.single ⟨hinv, hinv', Or.inr ⟨pt, H, fun _ ha => absurd ha List.not_mem_nil,
        hmeets.publishes hpub, hg⟩⟩
  · rcases h with rfl | he
    · exact Relation.ReflTransGen.refl
    · exact Relation.ReflTransGen.single ⟨hinv, hinv', Or.inl he⟩

/-- A whole run, to somebody without rights. -/
theorem Governs.rely (hW : P.Governs Q E W) (h0 : P.Good Q E Y) (hrun : Run W Y steps Z)
    (hmeets : ∀ x ∈ steps, P.Meets x.1 x.2) : P.Rely [] Y.shared Z.shared := by
  induction hrun with
  | nil => exact Relation.ReflTransGen.refl
  | @snoc past X X' l before allowed taken ih =>
      have hpast : ∀ x ∈ past, P.Meets x.1 x.2 := fun x hx => hmeets x (List.mem_append_left _ hx)
      have hl := hmeets (X, l) (List.mem_append_right _ (List.mem_singleton.2 rfl))
      have hX := hW.good h0 before hpast
      obtain ⟨hX', hmove⟩ := hX.step hW allowed hl taken
      exact (ih hpast).trans (hmove.rely hX.inv hX'.inv hl)

/-- Induction over the shared states of a run: a property of the past and the present holds at the
    end when it holds at the start and every promised move keeps it. -/
theorem Governs.induct (hW : P.Governs Q E W) (h0 : P.Good Q E Y) (hrun : Run W Y steps Z)
    (hmeets : ∀ x ∈ steps, P.Meets x.1 x.2)
    {motive : List (System σ κ τ ε ρ × Label σ κ τ ε ρ) → σ → Prop} (base : motive [] Y.shared)
    (move : ∀ past (X : System σ κ τ ε ρ) l s', motive past X.shared → P.inv X.shared → P.inv s' →
      P.Meets X l → P.Moves X l s' → motive (past ++ [(X, l)]) s') :
    motive steps Z.shared := by
  induction hrun with
  | nil => exact base
  | @snoc past X X' l before allowed taken ih =>
      have hpast : ∀ x ∈ past, P.Meets x.1 x.2 := fun x hx => hmeets x (List.mem_append_left _ hx)
      have hl := hmeets _ (List.mem_append_right _ (List.mem_singleton.2 rfl))
      have hX := hW.good h0 before hpast
      obtain ⟨hX', hmove⟩ := hX.step hW allowed hl taken
      exact move past X l _ (ih hpast) hX.inv hX'.inv hl hmove

end Protocol

end Transactions
