import Rubrica.Transactions.Rules

set_option autoImplicit false

/-! # What a session knows

Between two statements a session holds rights, knows a fact that nobody can break while it holds them, and
has buffered writes that come to something. `Protocol.Knows` says all three, and each rule below takes it
over one statement, or over a stretch whose writes nobody looks at. -/

namespace Transactions

variable {σ κ τ ε α γ : Type}

namespace Protocol

/-- The session holds `K` and knows `A`; seen through `view`, its writes come to what `M` says; where it
    raises, `D` holds. -/
structure Knows (P : Protocol σ κ τ) (view : σ → γ) (D : σ → Prop) (K : Rights κ) (A : σ → Prop)
    (M : σ → γ → Prop) (c : Ctx σ κ) (s : σ) : Prop where
  held : K ⊆ c.held
  stable : P.Stable K A
  now : A s
  raises : ∀ v, A v → D v
  pending : ∀ v, A v → M v (view (c.pending v))

/-- A write that is not seen through `view`. -/
def Unseen (view : σ → γ) (u : σ → σ) : Prop :=
  ∀ v, view (u v) = view v

variable {P : Protocol σ κ τ} {view : σ → γ} {D : σ → Prop} {K : Rights κ} {A A' : σ → Prop}
  {M N : σ → γ → Prop} {c c' : Ctx σ κ} {s s' : σ} {Q : α → Ctx σ κ → σ → Prop}

/-- At the start of a transaction. -/
theorem Knows.start (hA : P.Stable c.held A) (hs : A s) (hD : ∀ v, A v → D v) (hc : c.pending = id) :
    P.Knows view D c.held A (fun v x => x = view v) c s :=
  ⟨fun _ h => h, hA, hs, hD, fun v _ => by rw [hc]; rfl⟩

theorem Knows.grow (h : P.Knows view D K A M c s) (hc : c.Grows (Unseen view) c') (hs : A s') :
    P.Knows view D K A M c' s' :=
  ⟨fun _ hk => hc.held (h.held hk), h.stable, hs, h.raises,
    fun v hv => by rw [hc.project (fun _ hu w => hu w) v]; exact h.pending v hv⟩

/-- What is known, replaced by something that implies it. -/
theorem Knows.refine (h : P.Knows view D K A M c s) (hA' : P.Stable K A') (hs : A' s) (hA : ∀ v, A' v → A v) :
    P.Knows view D K A' M c s :=
  ⟨h.held, hA', hs, fun v hv => h.raises v (hA v hv), fun v hv => h.pending v (hA v hv)⟩

/-- Something else is known as well. -/
theorem Knows.learn (h : P.Knows view D K A M c s) (hA' : P.Stable K A') (hs : A' s) :
    P.Knows view D K (fun v => A v ∧ A' v) M c s :=
  ⟨h.held, h.stable.and hA', ⟨h.now, hs⟩, fun v hv => h.raises v hv.1, fun v hv => h.pending v hv.1⟩

/-- Something else is known as well, thanks to a lock that was taken. -/
theorem Knows.take {r : κ} {m : LockMode} (h : P.Knows view D K A M c s)
    (hA' : P.Stable ((r, m) :: K) A') (hs : A' s) :
    P.Knows view D ((r, m) :: K) (fun v => A v ∧ A' v) M (c.take r m) s :=
  ⟨List.cons_subset_cons _ h.held, (h.stable.anti (List.subset_cons_self _ _)).and hA', ⟨h.now, hs⟩,
    fun v hv => h.raises v hv.1, fun v hv => h.pending v hv.1⟩

/-- What the writes come to, said in another way. -/
theorem Knows.means (h : P.Knows view D K A M c s) (hM : ∀ v x, A v → M v x → N v x) :
    P.Knows view D K A N c s :=
  ⟨h.held, h.stable, h.now, h.raises, fun v hv => hM v _ hv (h.pending v hv)⟩

/-- Something else holds where the session raises from now on. -/
theorem Knows.raising {L : σ → Prop} (h : P.Knows view D K A M c s) (hL : ∀ v, A v → L v) :
    P.Knows view L K A M c s :=
  ⟨h.held, h.stable, h.now, hL, h.pending⟩

/-! ## Rules -/

/-- A stretch without writes to be seen. -/
theorem wp_knowing {x : Code σ κ τ ε α} (hx : x.Local (Unseen view)) (h : P.Knows view D K A M c s)
    (hQ : ∀ a c' s', P.Knows view D K A M c' s' → Q a c' s') : P.wp x Q (fun _ _ s => D s) c s :=
  wp_local hx (h.stable.anti h.held) h.now (fun a c' s' hc hs => hQ a c' s' (h.grow hc hs))
    fun _ _ s' _ hs => h.raises s' hs

theorem wp_knowingRequire {p : Prop} [Decidable p] {e : ε} {Q : Unit → Ctx σ κ → σ → Prop}
    (h : P.Knows view D K A M c s) (hQ : p → Q () c s) :
    P.wp (Code.require p e : Code σ κ τ ε Unit) Q (fun _ _ s => D s) c s :=
  wp_require hQ fun _ => h.raises s h.now

theorem wp_knowingOrRaise {a : Option α} {e : ε} (h : P.Knows view D K A M c s)
    (hQ : ∀ x, a = some x → Q x c s) :
    P.wp (Code.orRaise a e : Code σ κ τ ε α) Q (fun _ _ s => D s) c s :=
  wp_orRaise hQ fun _ => h.raises s h.now

section Statements

variable [Faulty ε] {point : τ}

theorem wp_knowingSelect {query : σ → α} (h : P.Knows view D K A M c s)
    (hQ : ∀ s', P.Knows view D K A M c s' → Q (query (c.pending s')) c s') :
    P.wp (Code.select point query : Code σ κ τ ε α) Q (fun _ _ s => D s) c s :=
  wp_select (h.stable.anti h.held) h.now
    (fun s' hs _ _ => hQ s' ⟨h.held, h.stable, hs, h.raises, h.pending⟩) fun s' hs _ => h.raises s' hs

theorem wp_knowingLock {mode : LockMode} {row : σ → Option κ} {query : σ → α}
    (h : P.Knows view D K A M c s)
    (hnone : ∀ s', P.Knows view D K A M c s' → row (c.pending s') = none → Q (query (c.pending s')) c s')
    (hsome : ∀ s' r, P.Knows view D K A M c s' → row (c.pending s') = some r →
      Q (query (c.pending s')) (c.take r mode) s') :
    P.wp (Code.selectLocking point mode row query : Code σ κ τ ε α) Q (fun _ _ s => D s) c s :=
  wp_selectLocking (h.stable.anti h.held) h.now
    (fun s' hs _ _ hrow => hnone s' ⟨h.held, h.stable, hs, h.raises, h.pending⟩ hrow)
    (fun s' r hs _ _ hrow => hsome s' r ⟨h.held, h.stable, hs, h.raises, h.pending⟩ hrow)
    fun s' hs _ => h.raises s' hs

theorem wp_knowingWrite {u : σ → σ} {Q : Unit → Ctx σ κ → σ → Prop} (h : P.Knows view D K A M c s)
    (hM : ∀ v w, A v → M v (view w) → N v (view (u w)))
    (hQ : ∀ c' s', P.Knows view D K A N c' s' → Q () c' s') :
    P.wp (Code.write point u : Code σ κ τ ε Unit) Q (fun _ _ s => D s) c s :=
  wp_write (h.stable.anti h.held) h.now
    (fun s' hs _ _ => hQ _ s' ⟨h.held, h.stable, hs, h.raises, fun v hv => hM v _ hv (h.pending v hv)⟩)
    fun s' hs _ => h.raises s' hs

/-- A commit does to what is seen what the writes come to. -/
theorem commits_knowing {R : Ctx σ κ → σ → Prop} (h : P.Knows view D K A M c s)
    (hguar : ∀ v v', A v → P.inv v → P.cond point v → M v (view v') →
      P.inv v' ∧ P.guar point c.held v v' ∧ R c.reset v' ∧ (P.lossy → D v')) :
    P.CommitsAt point D R c s :=
  commitsAt_of (h.stable.anti h.held) h.now h.raises fun v hv hinv hcond =>
    hguar v _ hv hinv hcond (h.pending v hv)

end Statements

end Protocol

end Transactions
