import Rubrica.Accounts.Issuing
import Rubrica.Sessions.Rotation

set_option autoImplicit false

/-! # Account tokens

Of a user and a purpose at most one token is to be good: who issues one consumes those that are still pending. It
consumes those that it finds, and a token that another call is about to commit it does not find. -/

namespace Rubrica

open Transactions

variable {B Page : Type}

/-! ## What is to hold -/

/-- The token that is accepted in a step, and the purpose it is accepted for. -/
def accepts (x : AccountStep B) : Option (Nat × String) :=
  match x.1.executes x.2 with
  | some (.accepted token purpose, _) => some (token, purpose)
  | _ => none

/-- The token that the statement commits for the user and the purpose. -/
def AccountPoint.issuedTo (user : UUID) (purpose : String) : AccountPoint → Option Nat
  | issued u p token => if u = user ∧ p = purpose then some token else none
  | _ => none

/-- The token of the user and the purpose that was committed last. -/
def lastIssued (user : UUID) (purpose : String) (past : List (AccountStep B)) : Option Nat :=
  (past.filterMap fun x => (x.1.executes x.2).bind fun y => y.1.issuedTo user purpose).getLast?

/-- A token that is accepted has not been accepted before. Its call asks for the token's purpose, and there is a
    statement of the call at whose time the token had not expired. -/
structure AcceptedOnce (past : List (AccountStep B)) (x : AccountStep B) (token : Nat) (purpose : String) :
    Prop where
  once : ∀ y ∈ past, ∀ p, accepts y ≠ some (token, p)
  row : ∃ t, x.1.shared.accountTokens.get? token = some t ∧ t.purpose = purpose ∧ t.consumedAt = none ∧
    t.deletedAt = none ∧ ∃ y ∈ past, y.2.session = x.2.session ∧
      (y.1.executes y.2).isSome ∧ y.1.shared.clock < t.expiresAt
  issued : ∀ y ∈ past, ∀ user p act, y.1.executes y.2 = some (.issued user p token, act) → p = purpose

/-- No other token of the user and the purpose has been committed since. -/
def IsNewest (past : List (AccountStep B)) (x : AccountStep B) (token : Nat) : Prop :=
  ∀ t newer, x.1.shared.accountTokens.get? token = some t → lastIssued t.userId t.purpose past = some newer →
    newer = token

/-- A call that commits a token has found, and locked, every token of the user and the purpose that is pending. -/
def findsPending (x : AccountStep B) : Bool :=
  match x.2.session, x.1.executes x.2 with
  | some i, some (.issued user purpose _, _) =>
      (x.1.shared.accountTokens.select fun _ t => t.isPending user purpose).all fun y =>
        decide ((.accountToken y.1, .exclusive) ∈ x.1.heldBy i)
  | _, _ => true

theorem AccountToken.isPending_iff {user : UUID} {purpose : String} {t : AccountToken} :
    t.isPending user purpose = true ↔ t.userId = user ∧ t.purpose = purpose ∧ t.consumedAt = none := by
  simp [AccountToken.isPending, and_assoc]

/-! ## The story of the tokens -/

inductive AccountNote where
  | idle
  /-- Is to issue a token. -/
  | drawn (token : Nat)
  /-- Has issued it, or has failed to. -/
  | spent (token : Nat)
  /-- Has read the clock. -/
  | looking (now : Int)
  /-- Has found the row of a token, and holds it. -/
  | consuming (token : Nat) (t : AccountToken)

namespace AccountNote

/-- What the session holds for life. -/
def rights : AccountNote → Rights AccountKey
  | drawn token => [(.newToken token, .exclusive)]
  | spent token => [(.newToken token, .exclusive)]
  | _ => []

/-- The note once the transaction is over. -/
def ended : AccountNote → AccountNote
  | drawn token => .spent token
  | spent token => .spent token
  | _ => .idle

@[simp] theorem rights_ended (g : AccountNote) : g.ended.rights = g.rights := by
  cases g <;> rfl

/-- Where a session with the note may stand. -/
def fits : AccountNote → Option AccountPoint → Prop
  | drawn token, some (.issued _ _ token') => token' = token
  | consuming token t, some (.accepted token' purpose) => token' = token ∧ purpose = t.purpose
  | _, some (.issued _ _ _) => False
  | _, some (.accepted _ _) => False
  | _, _ => True

theorem fits_plain (g : AccountNote) : g.fits (some .plain) := by
  cases g <;> trivial

theorem fits_none (g : AccountNote) : g.fits none := by
  cases g <;> trivial

/-- What the note says of session `i`, which holds `H`. -/
def Says (i : Nat) (told : List (Nat × AccountPoint × Int)) (H : Rights AccountKey) (w : AccountWorld B) :
    AccountNote → Prop
  | drawn token => w.accountTokens.get? token = none
  | looking now => ∃ y ∈ told, y.1 = i ∧ y.2.2 = now
  | consuming token t => (.accountToken token, .exclusive) ∈ H ∧ w.accountTokens.get? token = some t ∧
      t.consumedAt = none ∧ t.deletedAt = none ∧ ∃ y ∈ told, y.1 = i ∧ y.2.2 < t.expiresAt
  | _ => True

theorem noted_ended (g : AccountNote) {i : Nat} {told : List (Nat × AccountPoint × Int)} {H : Rights AccountKey}
    {w : AccountWorld B} : g.ended.Says i told H w := by
  cases g <;> trivial

end AccountNote

theorem AccountNote.Says.more {i : Nat} {told : List (Nat × AccountPoint × Int)} {H H' : Rights AccountKey}
    {w w' : AccountWorld B} {g : AccountNote} (h : g.Says i told H w) (hH : H ⊆ H')
    (hw : w'.accountTokens = w.accountTokens) (more : List (Nat × AccountPoint × Int)) :
    g.Says i (told ++ more) H' w' := by
  cases g with
  | drawn token =>
      rw [Says, hw]
      exact h
  | looking now =>
      obtain ⟨y, hy, hsaid⟩ := h
      exact ⟨y, List.mem_append_left _ hy, hsaid⟩
  | consuming token t =>
      obtain ⟨hlock, hrow, hconsumed, hdeleted, y, hy, hsaid⟩ := h
      exact ⟨hH hlock, hw ▸ hrow, hconsumed, hdeleted, y, List.mem_append_left _ hy, hsaid⟩
  | _ => exact h

abbrev AccountScene (B : Type) := Scene (AccountWorld B) AccountKey AccountNote (AccountPoint × Int)

/-- The token of the user and the purpose that has been told of last. -/
def lastTold (user : UUID) (purpose : String) (told : List (Nat × AccountPoint × Int)) : Option Nat :=
  (told.filterMap fun y => y.2.1.issuedTo user purpose).getLast?

theorem lastTold_snoc {user : UUID} {purpose : String} {told : List (Nat × AccountPoint × Int)} {i : Nat}
    {pt : AccountPoint} {now : Int} : lastTold user purpose (told ++ [(i, pt, now)]) =
      (pt.issuedTo user purpose).or (lastTold user purpose told) := by
  unfold lastTold
  rw [List.filterMap_append, List.getLast?_append]
  cases h : pt.issuedTo user purpose <;> simp [h]

section Story

variable {strict : Prop} {S : AccountScene B} {i : Nat} {w : AccountWorld B} {H : Rights AccountKey}
  {g : AccountNote} {m : Option (AccountPoint × Int)}

/-- Each token accepted once; where `strict`, only the last one of a user and a purpose is pending. -/
structure KeepsTokens (strict : Prop) (S : AccountScene B) : Prop where
  exclusive : S.Exclusive
  rights : ∀ i, (S.note i).rights ⊆ S.held i
  notes : ∀ i, (S.note i).Says i S.told (S.held i) S.shared
  issued : ∀ i user purpose token now, (i, .issued user purpose token, now) ∈ S.told →
    ∃ t, S.shared.accountTokens.get? token = some t ∧ t.purpose = purpose
  accepted : ∀ i token purpose now, (i, .accepted token purpose, now) ∈ S.told →
    ∃ t, S.shared.accountTokens.get? token = some t ∧ t.consumedAt ≠ none
  newest : strict → ∀ user purpose token t newer, S.shared.accountTokens.get? token = some t →
    t.isPending user purpose = true → lastTold user purpose S.told = some newer → newer = token

/-- What session `i` makes of the tokens: it consumes tokens that it has locked, and adds the one it has drawn. -/
structure SettlesTokens (S : AccountScene B) (i : Nat) (w : AccountWorld B) : Prop where
  row : ∀ token t, S.shared.accountTokens.get? token = some t → ∃ t', w.accountTokens.get? token = some t' ∧
    (t' = t ∨ (.accountToken token, .exclusive) ∈ S.held i ∧ ∃ now, t' = { t with consumedAt := some now })
  new : ∀ token t, w.accountTokens.get? token = some t → S.shared.accountTokens.get? token = none →
    S.note i = .drawn token

theorem SettlesTokens.same (hw : w.accountTokens = S.shared.accountTokens) : SettlesTokens S i w where
  row token t ht := ⟨t, hw ▸ ht, Or.inl rfl⟩
  new token t ht hnone := by
    rw [hw, hnone] at ht
    exact absurd ht (by simp)

/-- What the others note stays true. -/
theorem KeepsTokens.noted (h : KeepsTokens strict S) (hw : SettlesTokens S i w) {j : Nat} (hj : j ≠ i)
    (told : List (Nat × AccountPoint × Int)) : (S.note j).Says j (S.told ++ told) (S.held j) w := by
  have hnoted := h.notes j
  have hright := h.rights j
  cases hnote : S.note j with
  | idle => trivial
  | spent token => trivial
  | drawn token =>
      rw [hnote] at hnoted hright
      rw [AccountNote.Says, Option.eq_none_iff_forall_ne_some]
      intro t ht
      have hmine := h.rights i
      rw [hw.new token t ht hnoted] at hmine
      exact h.exclusive j i _ .exclusive hj (hright List.mem_cons_self) (hmine List.mem_cons_self)
  | looking now =>
      rw [hnote] at hnoted
      obtain ⟨y, hy, hsaid⟩ := hnoted
      exact ⟨y, List.mem_append_left _ hy, hsaid⟩
  | consuming token t =>
      rw [hnote] at hnoted
      obtain ⟨hlock, hrow, hconsumed, hdeleted, y, hy, hsaid⟩ := hnoted
      obtain ⟨t', hrow', rfl | ⟨hlocked, -⟩⟩ := hw.row token t hrow
      · exact ⟨hlock, hrow', hconsumed, hdeleted, y, List.mem_append_left _ hy, hsaid⟩
      · exact absurd hlocked (h.exclusive j i _ _ hj hlock)

/-- A turn. -/
theorem KeepsTokens.turn (h : KeepsTokens strict S) (hw : SettlesTokens S i w)
    (hH : ∀ y ∈ H, y ∈ S.held i ∨ ∀ j, j ≠ i → ∀ x ∈ S.held j, x.1 = y.1 → x.2.conflicts y.2 = false)
    (hrights : g.rights ⊆ H) (hnoted : g.Says i (S.told ++ (m.map fun x => (i, x)).toList) H w)
    (hissued : ∀ user purpose token now, m = some (.issued user purpose token, now) →
      ∃ t, w.accountTokens.get? token = some t ∧ t.purpose = purpose)
    (haccepted : ∀ token purpose now, m = some (.accepted token purpose, now) →
      ∃ t, w.accountTokens.get? token = some t ∧ t.consumedAt ≠ none)
    (hnewest : strict → ∀ user purpose token t newer, w.accountTokens.get? token = some t →
      t.isPending user purpose = true →
        lastTold user purpose (S.told ++ (m.map fun x => (i, x)).toList) = some newer → newer = token) :
    KeepsTokens strict (S.turn i m w H g) where
  exclusive := h.exclusive.turn hH m w g
  rights j := by
    rw [Scene.turn_note, Scene.turn_held]
    split
    · exact hrights
    · exact h.rights j
  notes j := by
    rw [Scene.turn_note, Scene.turn_held]
    split
    · next hj =>
      subst hj
      exact hnoted
    · next hj => exact h.noted hw hj _
  issued j user purpose token now hmem := by
    rcases List.mem_append.1 hmem with hold | hnew
    · obtain ⟨t, ht, hpurpose⟩ := h.issued j user purpose token now hold
      obtain ⟨t', ht', rfl | ⟨-, now', rfl⟩⟩ := hw.row token t ht
      · exact ⟨t', ht', hpurpose⟩
      · exact ⟨_, ht', hpurpose⟩
    · cases m with
      | none => exact absurd hnew List.not_mem_nil
      | some x =>
          cases List.mem_singleton.1 hnew
          exact hissued user purpose token now rfl
  accepted j token purpose now hmem := by
    rcases List.mem_append.1 hmem with hold | hnew
    · obtain ⟨t, ht, hconsumed⟩ := h.accepted j token purpose now hold
      obtain ⟨t', ht', rfl | ⟨-, now', rfl⟩⟩ := hw.row token t ht
      · exact ⟨t', ht', hconsumed⟩
      · exact ⟨_, ht', by simp⟩
    · cases m with
      | none => exact absurd hnew List.not_mem_nil
      | some x =>
          cases List.mem_singleton.1 hnew
          exact haccepted token purpose now rfl
  newest := hnewest

/-- A turn in which the tokens stay as they are. -/
theorem KeepsTokens.quiet (h : KeepsTokens strict S) (hw : w.accountTokens = S.shared.accountTokens)
    (hm : ∀ y ∈ m, y.1 = .plain)
    (hH : ∀ y ∈ H, y ∈ S.held i ∨ ∀ j, j ≠ i → ∀ x ∈ S.held j, x.1 = y.1 → x.2.conflicts y.2 = false)
    (hrights : g.rights ⊆ H) (hnoted : g.Says i (S.told ++ (m.map fun x => (i, x)).toList) H w) :
    KeepsTokens strict (S.turn i m w H g) := by
  refine h.turn (.same hw) hH hrights hnoted (fun user purpose token now he => ?_) (fun token purpose now he => ?_)
    fun hs user purpose token t newer ht hpending hlast => ?_
  · exact absurd (hm _ he) (by simp)
  · exact absurd (hm _ he) (by simp)
  · rw [hw] at ht
    refine h.newest hs user purpose token t newer ht hpending ?_
    cases m with
    | none => simpa using hlast
    | some x =>
        obtain ⟨pt, now⟩ := x
        obtain rfl : pt = .plain := hm _ rfl
        have hlast : lastTold user purpose (S.told ++ [(i, .plain, now)]) = some newer := hlast
        rw [lastTold_snoc] at hlast
        exact hlast

/-- The transaction of a session is over without a commit. -/
theorem KeepsTokens.abandon (h : KeepsTokens strict S) (hg : S.note i = g) (hm : ∀ y ∈ m, y.1 = .plain) :
    KeepsTokens strict (S.turn i m S.shared g.rights g.ended) :=
  h.quiet rfl hm (fun y hy => Or.inl (h.rights i (hg ▸ hy))) (by simp) (AccountNote.noted_ended g)

/-- A statement that leaves the tokens as they are, and of which nothing is noted. -/
theorem KeepsTokens.stay (h : KeepsTokens strict S) (hg : S.note i = g)
    (hw : w.accountTokens = S.shared.accountTokens)
    (hH : ∀ y ∈ H, y ∈ S.held i ∨ ∀ j, j ≠ i → ∀ x ∈ S.held j, x.1 = y.1 → x.2.conflicts y.2 = false)
    (hheld : S.held i ⊆ H) : KeepsTokens strict (S.turn i (some (.plain, S.shared.clock)) w H g) := by
  refine h.quiet hw (by rintro y ⟨⟩; rfl) hH (fun y hy => hheld (h.rights i (hg ▸ hy))) ?_
  have hnoted := h.notes i
  rw [hg] at hnoted
  exact hnoted.more hheld hw _

/-- Where `strict`, a call that commits a token holds every token of the user and the purpose that is pending. -/
def tokenStory (strict : Prop) :
    Story (AccountWorld B) AccountKey AccountPoint AccountNote (AccountPoint × Int) where
  inv := KeepsTokens strict
  tell pt w := some (pt, w.clock)
  fits := AccountNote.fits
  cond pt S :=
    match pt with
    | .issued user purpose token => strict → ∃ i, S.note i = .drawn token ∧
        ∀ k t, S.shared.accountTokens.get? k = some t → t.isPending user purpose = true →
          (.accountToken k, .exclusive) ∈ S.held i
    | _ => True
  fails _ := True
  crashes := True

end Story

/-! ## Programs -/

section Programs

variable {σ κ τ α β : Type} {T : σ → Table Nat AccountToken} {k : κ → AccountKey} {f : τ → AccountPoint}

/-- A stretch of a program over a part that leaves the tokens and their rows alone. -/
structure TokenAside (T : σ → Table Nat AccountToken) (k : κ → AccountKey) (f : τ → AccountPoint)
    (x : Code σ κ τ Failure α) : Prop where
  keeps : x.Local fun u => ∀ s, T (u s) = T s
  plain : x.Within fun pt => f pt = .plain
  rows : x.LocksOnly fun r => ∀ token, k r ≠ .accountToken token

theorem aside_pure (a : α) : TokenAside T k f (pure a : Code σ κ τ Failure α) :=
  ⟨trivial, trivial, trivial⟩

theorem aside_raise (e : Failure) : TokenAside T k f (.raise e : Code σ κ τ Failure α) :=
  ⟨trivial, trivial, trivial⟩

theorem aside_bind {x : Code σ κ τ Failure α} {h : α → Code σ κ τ Failure β} (hx : TokenAside T k f x)
    (hh : ∀ a, TokenAside T k f (h a)) : TokenAside T k f (x >>= h) :=
  ⟨Code.local_bind hx.keeps fun a => (hh a).keeps, Code.within_bind hx.plain fun a => (hh a).plain,
    Code.locksOnly_bind hx.rows fun a => (hh a).rows⟩

theorem aside_require (p : Prop) [Decidable p] (e : Failure) :
    TokenAside T k f (Code.require p e : Code σ κ τ Failure Unit) := by
  unfold Code.require
  split
  · exact aside_pure ()
  · exact aside_raise e

theorem aside_orRaise (o : Option α) (e : Failure) :
    TokenAside T k f (Code.orRaise o e : Code σ κ τ Failure α) := by
  cases o with
  | none => exact aside_raise e
  | some a => exact aside_pure a

theorem aside_select {point : τ} (hpoint : f point = .plain) (query : σ → α) :
    TokenAside T k f (Code.select point query : Code σ κ τ Failure α) :=
  ⟨Code.local_select _ _, ⟨hpoint, fun _ => trivial, trivial⟩, Code.locksOnly_select _ _⟩

theorem aside_selectLocking {point : τ} (hpoint : f point = .plain) {mode : LockMode} {row : σ → Option κ}
    (query : σ → α) (hrow : ∀ s r, row s = some r → ∀ token, k r ≠ .accountToken token) :
    TokenAside T k f (Code.selectLocking point mode row query : Code σ κ τ Failure α) :=
  ⟨Code.local_selectLocking _ _ _ _, ⟨hpoint, fun _ => trivial, trivial⟩, Code.locksOnly_selectLocking _ _ _ hrow⟩

theorem aside_write {point : τ} (hpoint : f point = .plain) {u : σ → σ} (hu : ∀ s, T (u s) = T s) :
    TokenAside T k f (Code.write point u : Code σ κ τ Failure Unit) :=
  ⟨Code.local_write _ hu, ⟨hpoint, fun _ => trivial, trivial⟩, Code.locksOnly_write _ _⟩

/-- A handler that raises again. -/
theorem aside_tryCatch {x : Code σ κ τ Failure α} {h : Failure → Code σ κ τ Failure α} (hx : TokenAside T k f x)
    (hh : ∀ e, ∃ e', h e = .raise e') : TokenAside T k f (x.tryCatch h) := by
  refine ⟨Code.local_tryCatch hx.keeps hh, Code.within_tryCatch hx.plain fun e => ?_,
    Code.locksOnly_tryCatch hx.rows fun e => ?_⟩
  · obtain ⟨e', he⟩ := hh e
    rw [he]
    trivial
  · obtain ⟨e', he⟩ := hh e
    rw [he]
    trivial

end Programs

section Follows

variable {strict : Prop} {i : Nat} {α σ κ τ : Type} {c : Ctx (AccountWorld B) AccountKey} {g : AccountNote}
  {L : Part σ (AccountWorld B)} {T : σ → Table Nat AccountToken} {k : κ → AccountKey} {f : τ → AccountPoint}

/-- What a stretch of a program leaves as it was. -/
structure Later (c c' : Ctx (AccountWorld B) AccountKey) : Prop where
  base : c'.base = c.base
  keeps : ∀ w, (c'.pending w).accountTokens = (c.pending w).accountTokens
  locks : ∀ token mode, (.accountToken token, mode) ∈ c'.held ↔ (.accountToken token, mode) ∈ c.held

/-- A stretch that leaves the tokens alone. -/
theorem follows_tokenAside (hT : ∀ w, T (L.get w) = w.accountTokens) {x : Code σ κ τ Failure α}
    (hx : TokenAside T k f x) (hbase : c.base = g.rights)
    {Q : α → Ctx (AccountWorld B) AccountKey → AccountNote → Prop}
    (hQ : ∀ a c', Later c c' → Q a c' g) :
    (tokenStory strict).follows i (x.zoom L k f) Q (fun _ c g => c.base = g.rights) c g := by
  have hW : ∀ u : σ → σ, (∀ s, T (u s) = T s) → ∀ w, (L.lift u w).accountTokens = w.accountTokens := by
    intro u hu w
    rw [← hT, L.get_lift, hu, hT]
  refine Story.follows_local
    (Code.local_zoom (V := fun u => ∀ w, (u w).accountTokens = w.accountTokens) hW hx.keeps)
    (Code.within_zoom (V := (· = .plain)) hx.plain)
    (Code.locksOnly_zoom (R := fun r => ∀ token, r ≠ .accountToken token) hx.rows) ?_ ?_ ?_ ?_ ?_ ?_
  · rintro pt rfl
    exact g.fits_plain
  · rintro S _ rfl hinv hg
    exact hinv.stay hg rfl (fun y hy => Or.inl hy) fun y hy => hy
  · rintro S _ r rfl _ hinv hg hfree
    refine hinv.stay hg rfl (fun y hy => ?_) (List.subset_cons_self _ _)
    rcases List.mem_cons.1 hy with rfl | hy
    · exact Or.inr hfree
    · exact Or.inl hy
  · intro e S hinv hg
    refine ⟨g.ended, ?_, hbase.trans g.rights_ended.symm⟩
    rw [hbase]
    exact hinv.abandon hg (by simp)
  · intro a c' hc hrows
    refine hQ a c' ⟨hc.base, fun w => hc.project (fun u hu w => hu w) w, fun token mode =>
      ⟨fun h => ?_, fun h => hc.held h⟩⟩
    rcases hrows _ h with hold | hnew
    · exact hold
    · exact absurd rfl (hnew token)
  · intro e c' hc
    rw [hc.base]
    exact hbase

/-- A rollback. -/
theorem follows_rollback {e : Failure} {Q : α → Ctx (AccountWorld B) AccountKey → AccountNote → Prop}
    (hbase : c.base = g.rights) :
    (tokenStory strict).follows i (.step .plain .rollback (fun _ => .raise e) (.raise e)) Q (fun _ _ _ => True)
      c g := by
  refine ⟨g.fits_plain, fun S hinv hH hg => ⟨fun _ => ⟨g.ended, ?_, trivial⟩, fun _ => ⟨g.ended, ?_, trivial⟩⟩⟩
  · rw [hbase]
    exact hinv.abandon hg (by simp)
  · rw [hbase]
    exact hinv.abandon hg (by rintro y ⟨⟩; rfl)

/-- A statement that leaves the tokens as they are, and of which nothing is noted. -/
theorem turns_stay {S : AccountScene B} {w : AccountWorld B} {next : AccountNote → Prop}
    (hinv : KeepsTokens strict S) (hH : S.held i = c.held) (hg : S.note i = g)
    (hw : w.accountTokens = S.shared.accountTokens) (hnext : next g) :
    (tokenStory strict).Turns i S (some (.plain, S.shared.clock)) w c.held next :=
  ⟨g, hinv.stay hg hw (fun _ hy => Or.inl (hH ▸ hy)) (hH ▸ fun _ h => h), hnext⟩

theorem fails_any {pt : AccountPoint} (hbase : c.base = g.rights) :
    (tokenStory strict).Fails i pt (fun (_ : Failure) c g => c.base = g.rights) c g := by
  intro _ S hinv _ hg
  refine ⟨g.ended, ?_, hbase.trans g.rights_ended.symm⟩
  rw [hbase]
  exact hinv.abandon hg (by simp)

/-- What a transaction owes where it commits. -/
structure Commits (strict : Prop) (i : Nat) (pt : AccountPoint) (c : Ctx (AccountWorld B) AccountKey)
    (g : AccountNote) : Prop where
  base : c.base = g.rights
  fits : g.fits (some pt)
  turn : ∀ S, KeepsTokens strict S → S.held i = c.held → S.note i = g → (tokenStory strict).cond pt S →
    KeepsTokens strict (S.turn i (some (pt, S.shared.clock)) (c.pending S.shared) c.base g.ended)

theorem follows_committing {quiet : τ} {body : Code σ κ τ Failure (α × τ)}
    {Q : α → Ctx (AccountWorld B) AccountKey → AccountNote → Prop} (hquiet : f quiet = .plain)
    (hbody : (tokenStory strict).follows i (body.zoom L k f)
      (fun r c g => Commits strict i (f r.2) c g ∧ Q r.1 c.reset g.ended) (fun _ c g => c.base = g.rights) c g) :
    (tokenStory strict).follows i ((Code.transaction quiet body).zoom L k f) Q (fun _ _ _ => True) c g := by
  refine Story.follows_zoom_transaction (Story.follows_mono hbody (fun r c g h => ?_) fun e c g hbase => ?_)
  · obtain ⟨hcommits, hQ⟩ := h
    rw [hquiet]
    refine ⟨hcommits.fits, fun _ S hinv hH hg => ⟨g.ended, ?_, follows_rollback ?_⟩, fun S hinv hH hg hcond => ?_⟩
    · rw [hcommits.base]
      exact hinv.abandon hg (by simp)
    · rw [AccountNote.rights_ended]
      exact hcommits.base
    · have hturn := hcommits.turn S hinv hH hg hcond
      refine ⟨⟨g.ended, hturn, hQ⟩, ⟨g.ended, hturn, follows_rollback ?_⟩⟩
      rw [AccountNote.rights_ended]
      exact hcommits.base
  · rw [hquiet]
    exact follows_rollback hbase

theorem commits_plain (hbase : c.base = g.rights) (hkeeps : ∀ w, (c.pending w).accountTokens = w.accountTokens) :
    Commits strict i .plain c g where
  base := hbase
  fits := g.fits_plain
  turn S hinv _ hg _ := hinv.quiet (hkeeps S.shared) (by rintro y ⟨⟩; rfl)
    (fun y hy => Or.inl (hinv.rights i (hg ▸ hbase ▸ hy)))
    (by rw [hbase, AccountNote.rights_ended]; exact fun _ h => h) (AccountNote.noted_ended g)

/-! ### Issuing -/

/-- The rows of the tokens, consumed. -/
def consumeAll (now : Int) (ids : List Nat) (T : Table Nat AccountToken) : Table Nat AccountToken :=
  ids.foldl (fun T token => T.update token fun t => { t with consumedAt := some now }) T

theorem get?_consumeAll {now : Int} {ids : List Nat} {T : Table Nat AccountToken} {token : Nat} :
    (consumeAll now ids T).get? token =
      (T.get? token).map fun t => if token ∈ ids then { t with consumedAt := some now } else t := by
  induction ids generalizing T with
  | nil => simp [consumeAll]
  | cons id ids ih =>
      show (consumeAll now ids (T.update id fun t => { t with consumedAt := some now })).get? token = _
      rw [ih, Table.get?_update]
      by_cases hid : token = id
      · subst hid
        cases T.get? token <;> simp
      · cases T.get? token <;> simp [hid]

/-- The call has consumed what it has locked, and added a token. -/
structure Issues (c : Ctx (AccountWorld B) AccountKey) (user : UUID) (purpose : String) (token : Nat) : Prop where
  base : c.base = [(.newToken token, .exclusive)]
  writes : ∃ now ids expires, (∀ w, (c.pending w).accountTokens =
      (consumeAll now ids w.accountTokens).insert token ⟨user, purpose, expires, none, none⟩) ∧
    ∀ k, (.accountToken k, .exclusive) ∈ c.held ↔ k ∈ ids

theorem Commits.issued {user : UUID} {purpose : String} {token : Nat} (h : Issues c user purpose token) :
    Commits strict i (.issued user purpose token) c (.drawn token) where
  base := h.base
  fits := rfl
  turn S hinv hH hg hcond := by
    obtain ⟨now, ids, expires, hwrites, hlocks⟩ := h.writes
    have hnone : S.shared.accountTokens.get? token = none := by
      have hnoted := hinv.notes i
      rw [hg] at hnoted
      exact hnoted
    have hfree : (consumeAll now ids S.shared.accountTokens).get? token = none := by
      rw [get?_consumeAll, hnone]
      rfl
    have hself : (c.pending S.shared).accountTokens.get? token = some ⟨user, purpose, expires, none, none⟩ := by
      rw [hwrites, Table.get?_insert_self hfree]
    have hother : ∀ {k}, k ≠ token → (c.pending S.shared).accountTokens.get? k =
        (S.shared.accountTokens.get? k).map fun t => if k ∈ ids then { t with consumedAt := some now } else t := by
      intro k hk
      rw [hwrites, Table.get?_insert_of_ne _ hk, get?_consumeAll]
    have hsettles : SettlesTokens S i (c.pending S.shared) := by
      refine ⟨fun k t ht => ?_, fun k t ht hk => ?_⟩
      · have hk : k ≠ token := by
          rintro rfl
          rw [hnone] at ht
          exact absurd ht (by simp)
        rw [hother hk, ht]
        by_cases hids : k ∈ ids
        · exact ⟨_, rfl, Or.inr ⟨hH ▸ (hlocks k).2 hids, now, if_pos hids⟩⟩
        · exact ⟨_, rfl, Or.inl (if_neg hids)⟩
      · by_cases hk' : k = token
        · rw [hg, hk']
        · rw [hother hk', hk] at ht
          exact absurd ht (by simp)
    have hheld : c.base ⊆ S.held i := by
      have hrights := hinv.rights i
      rw [hg] at hrights
      rw [h.base]
      exact hrights
    refine hinv.turn hsettles (fun y hy => Or.inl (hheld hy)) (by rw [h.base]; exact fun _ h => h) trivial ?_
      (by rintro _ _ _ ⟨⟩) ?_
    · rintro u p t n ⟨⟩
      exact ⟨_, hself, rfl⟩
    · intro hs u p k t newer ht hpending hlast
      have hlast : lastTold u p (S.told ++ [(i, .issued user purpose token, S.shared.clock)]) = some newer := hlast
      rw [lastTold_snoc] at hlast
      by_cases hk : k = token
      · subst hk
        rw [hself] at ht
        cases ht
        obtain ⟨hu, hp, -⟩ := AccountToken.isPending_iff.1 hpending
        rw [AccountPoint.issuedTo, if_pos ⟨hu, hp⟩] at hlast
        exact (Option.some.inj hlast).symm
      · rw [hother hk] at ht
        obtain ⟨t', ht', rfl⟩ := Option.map_eq_some_iff.1 ht
        -- It has not been consumed, so the call had not locked it.
        by_cases hids : k ∈ ids
        · rw [if_pos hids] at hpending
          exact absurd (AccountToken.isPending_iff.1 hpending).2.2 (by simp)
        · rw [if_neg hids] at hpending
          by_cases hsame : user = u ∧ purpose = p
          · obtain ⟨rfl, rfl⟩ := hsame
            obtain ⟨j, hj, hfound⟩ := hcond hs
            have hmine := hinv.rights i
            rw [hg] at hmine
            have hyours := hinv.rights j
            rw [hj] at hyours
            have hji : j = i := by
              by_contra hne
              exact hinv.exclusive j i _ .exclusive hne (hyours List.mem_cons_self) (hmine List.mem_cons_self)
            subst hji
            exact absurd ((hlocks k).1 (hH ▸ hfound k t' ht' hpending)) hids
          · rw [AccountPoint.issuedTo, if_neg hsame] at hlast
            exact hinv.newest hs u p k t' newer ht' hpending hlast

/-- The `UPDATE` of `_issue_token`, when it has changed the rows `ids`. -/
theorem follows_consumePending {user : UUID} {purpose : String} {now : Int} {token : Nat} (found ids : List Nat)
    {Q : Unit → Ctx (AccountWorld B) AccountKey → AccountNote → Prop}
    (hbase : c.base = [(.newToken token, .exclusive)])
    (hwrites : ∀ w, (c.pending w).accountTokens = consumeAll now ids w.accountTokens)
    (hlocks : ∀ k, (.accountToken k, .exclusive) ∈ c.held ↔ k ∈ ids)
    (hQ : ∀ c' ids', c'.base = c.base → (∀ w, (c'.pending w).accountTokens = consumeAll now ids' w.accountTokens) →
      (∀ k, (.accountToken k, .exclusive) ∈ c'.held ↔ k ∈ ids') → Q () c' (.drawn token)) :
    (tokenStory strict).follows i (onDirectory (consumePending user purpose now found)) Q
      (fun _ c g => c.base = g.rights) c (.drawn token) := by
  induction found generalizing c ids with
  | nil => exact hQ c ids rfl hwrites hlocks
  | cons k rest ih =>
      refine Story.follows_zoom_bind.2 ?_
      rw [Code.zoom_selectLocking]
      have hrow : ∀ w : AccountWorld B, ((Directory.pendingToken user purpose k w.directory).map
          fun _ => DirectoryKey.accountToken k).map DirectoryKey.account =
            (Directory.pendingToken user purpose k w.directory).map fun _ => .accountToken k := by
        intro w
        cases Directory.pendingToken user purpose k w.directory <;> rfl
      refine Story.follows_selectLocking trivial (fails_any hbase) ?_ ?_
      · intro S hinv hH hg _ hnone
        have hnone := Option.map_eq_none_iff.1 ((hrow _).symm.trans hnone)
        refine turns_stay hinv hH hg rfl ?_
        have hfound : (c.pending S.shared).directory.pendingToken user purpose k = none := hnone
        show (tokenStory strict).follows i ((Code.onlyIf
          (((c.pending S.shared).directory.pendingToken user purpose k).isSome = true) _ >>= fun _ => _).zoom
            _ _ _) _ _ _ _
        rw [hfound]
        exact ih ids hbase hwrites hlocks hQ
      · intro S r hinv hH hg _ hsome hfree
        obtain ⟨t, ht, rfl⟩ := Option.map_eq_some_iff.1 ((hrow _).symm.trans hsome)
        refine ⟨.drawn token, hinv.stay hg rfl (fun y hy => ?_) (hH ▸ List.subset_cons_self _ _), ?_⟩
        · rcases List.mem_cons.1 hy with rfl | hy
          · exact Or.inr hfree
          · exact Or.inl (hH ▸ hy)
        have hfound : (c.pending S.shared).directory.pendingToken user purpose k = some t := ht
        show (tokenStory strict).follows i ((Code.onlyIf
          (((c.pending S.shared).directory.pendingToken user purpose k).isSome = true) _ >>= fun _ => _).zoom
            _ _ _) _ _ _ _
        rw [hfound]
        refine Story.follows_zoom_bind.2 ?_
        refine Story.follows_write (u := directoryPart.lift (Directory.consume k now)) trivial (fails_any hbase)
          fun S hinv hH hg _ => turns_stay hinv hH hg rfl ?_
        refine ih (ids ++ [k]) hbase (fun w => ?_) (fun k' => ?_) hQ
        · have hupdate : (directoryPart.lift (Directory.consume k now) (c.pending w)).accountTokens =
              (c.pending w).accountTokens.update k fun t => { t with consumedAt := some now } := rfl
          refine hupdate.trans ?_
          rw [hwrites, consumeAll, consumeAll, List.foldl_append]
          rfl
        · simp [Ctx.buffer, Ctx.take, hlocks k', or_comm]

/-- A transaction that has left the tokens and their rows alone so far. -/
structure LeftAlone (token : Nat) (c : Ctx (AccountWorld B) AccountKey) : Prop where
  base : c.base = [(.newToken token, .exclusive)]
  keeps : ∀ w, (c.pending w).accountTokens = w.accountTokens
  free : ∀ k, (.accountToken k, .exclusive) ∉ c.held

theorem leftAlone_start {token : Nat} : LeftAlone (B := B) token (.start [(.newToken token, .exclusive)]) :=
  ⟨rfl, fun _ => rfl, fun _ => by simp [Ctx.start]⟩

theorem LeftAlone.later {token : Nat} {c' : Ctx (AccountWorld B) AccountKey} (h : LeftAlone token c)
    (hc : Later c c') : LeftAlone token c' :=
  ⟨hc.base.trans h.base, fun w => (hc.keeps w).trans (h.keeps w), fun k hk => h.free k ((hc.locks k _).1 hk)⟩

/-- The directory's programs that leave the tokens and their rows alone. -/
abbrev DirectoryAside (x : RegistrationTx B α) : Prop :=
  TokenAside Directory.accountTokens DirectoryKey.account RegistrationPoint.account x

theorem follows_directory {x : RegistrationTx B α} (hx : DirectoryAside x) {token : Nat} (hc : LeftAlone token c)
    {Q : α → Ctx (AccountWorld B) AccountKey → AccountNote → Prop}
    (hQ : ∀ a c', LeftAlone token c' → Q a c' (.drawn token)) :
    (tokenStory strict).follows i (onDirectory x) Q (fun _ c g => c.base = g.rights) c (.drawn token) :=
  follows_tokenAside (fun _ => rfl) hx hc.base fun a c' hc' => hQ a c' (hc.later hc')

theorem Issues.later {user : UUID} {purpose : String} {token : Nat} {c' : Ctx (AccountWorld B) AccountKey}
    (h : Issues c user purpose token) (hc : Later c c') : Issues c' user purpose token := by
  obtain ⟨now, ids, expires, hwrites, hlocks⟩ := h.writes
  exact ⟨hc.base.trans h.base, now, ids, expires, fun w => (hc.keeps w).trans (hwrites w),
    fun k => (hc.locks k _).trans (hlocks k)⟩

theorem follows_issueToken {user : UUID} {purpose : String} {ttl : Int} {token : Nat} (hc : LeftAlone token c)
    {Q : Unit → Ctx (AccountWorld B) AccountKey → AccountNote → Prop}
    (hQ : ∀ c', Issues c' user purpose token → Q () c' (.drawn token)) :
    (tokenStory strict).follows i (onDirectory (issueToken user purpose ttl token)) Q
      (fun _ c g => c.base = g.rights) c (.drawn token) := by
  refine Story.follows_zoom_bind.2 (follows_directory (aside_select rfl _) hc fun now c1 hc1 => ?_)
  refine Story.follows_zoom_bind.2 (follows_directory (aside_select rfl _) hc1 fun found c2 hc2 => ?_)
  refine Story.follows_zoom_bind.2 (follows_consumePending found [] hc2.base hc2.keeps
    (fun k => ⟨fun hk => absurd hk (hc2.free k), fun hk => absurd hk List.not_mem_nil⟩)
    fun c3 ids hbase3 hwrites hlocks => ?_)
  have hbase3 := hbase3.trans hc2.base
  refine Story.follows_zoom_bind.2 (follows_tokenAside (T := Directory.accountTokens) (fun _ => rfl)
    (aside_select rfl _) hbase3 fun now' c4 hc4 => ?_)
  have hbase4 := hc4.base.trans hbase3
  refine Story.follows_write (u := directoryPart.lift (Directory.insertToken token _)) trivial (fails_any hbase4)
    fun S hinv hH hg _ => turns_stay hinv hH hg rfl ?_
  refine hQ _ ⟨hbase4, now, ids, now' + ttl, fun w => ?_, fun k => (hc4.locks k _).trans (hlocks k)⟩
  have hinsert : ∀ t, (directoryPart.lift (Directory.insertToken token t) (c4.pending w)).accountTokens =
      (c4.pending w).accountTokens.insert token t := fun _ => rfl
  refine (hinsert _).trans ?_
  rw [hc4.keeps, hwrites]

variable {Page : Type} {host : Host B Page} {cfg : AccountSettings} {payload : PublicRegistration}
  {names : RegistrationNames}

theorem aside_claimEntry {entry : DirectoryKey} (hentry : ∀ token, entry.account ≠ .accountToken token)
    (taken : Directory B → Bool) : DirectoryAside (claimEntry entry taken) :=
  aside_bind (aside_selectLocking rfl _ (by rintro s r ⟨⟩; exact hentry)) fun _ => aside_require _ _

theorem aside_addUser : DirectoryAside (addUser host payload names) :=
  aside_bind (aside_claimEntry (by simp [DirectoryKey.account]) _) fun _ => aside_write rfl fun _ => rfl

theorem aside_flushIdentifier (id : UUID) (row : UserIdentifier) :
    DirectoryAside (flushIdentifier id row : RegistrationTx B Unit) :=
  aside_bind (aside_claimEntry (by simp [DirectoryKey.account]) _) fun _ => aside_write rfl fun _ => rfl

theorem aside_identify {settings : RegistrationSettings} :
    DirectoryAside (identify host settings payload names) := by
  unfold identify
  cases payload.identityDocument with
  | none => exact aside_pure ()
  | some document => exact aside_tryCatch (aside_flushIdentifier _ _) fun _ => ⟨_, rfl⟩

theorem aside_invitedUser {invitation : InternalMemberInvitation} {found : Option (UUID × User)} :
    DirectoryAside (AccountService.invitedUser host cfg.registration invitation names found) := by
  unfold AccountService.invitedUser
  cases found with
  | some user => exact aside_pure user
  | none =>
      exact aside_bind aside_addUser fun _ => aside_bind (aside_write rfl fun _ => rfl) fun _ =>
        aside_bind (aside_flushIdentifier _ _) fun _ => aside_pure _

theorem aside_sendVerification : DirectoryAside (sendVerification : RegistrationTx B Unit) :=
  aside_select rfl _

theorem follows_provisionAccountTenant (hbase : c.base = g.rights)
    {Q : Unit → Ctx (AccountWorld B) AccountKey → AccountNote → Prop} (hQ : ∀ c', Later c c' → Q () c' g) :
    (tokenStory strict).follows i (onDirectory (provisionAccountTenant host payload names)) Q
      (fun _ c g => c.base = g.rights) c g := by
  refine Story.follows_zoom_bind.2 ?_
  refine Story.follows_effect (u := directoryPart.lift _) g.fits_plain (fails_any hbase) fun S hinv hH hg _ =>
    turns_stay hinv hH hg rfl ?_
  exact follows_tokenAside (T := Directory.accountTokens) (fun _ => rfl)
    (aside_bind (aside_select rfl _) fun _ => aside_require _ _) hbase fun _ => hQ

theorem follows_register {settings : RegistrationSettings} :
    (tokenStory strict).follows i (onDirectory (register host settings payload names)) (fun _ _ _ => True)
      (fun _ _ _ => True) (.start [(.newToken names.token, .exclusive)]) (.drawn names.token) := by
  refine follows_committing rfl ?_
  refine Story.follows_zoom_bind.2 (follows_directory (aside_tryCatch aside_addUser fun _ => ⟨_, rfl⟩) leftAlone_start
    fun _ c1 hc1 => ?_)
  refine Story.follows_zoom_bind.2 (follows_directory (aside_write rfl (by exact fun _ => rfl)) hc1
    fun _ c2 hc2 => ?_)
  refine Story.follows_zoom_bind.2 (follows_directory aside_identify hc2 fun _ c3 hc3 => ?_)
  refine Story.follows_zoom_bind.2 (follows_issueToken hc3 fun c4 hc4 => ?_)
  refine Story.follows_zoom_bind.2 (follows_provisionAccountTenant hc4.base fun c5 hc5 => ?_)
  have hbase5 : c5.base = (AccountNote.drawn names.token).rights := hc5.base.trans hc4.base
  refine Story.follows_zoom_bind.2 (follows_tokenAside (T := Directory.accountTokens) (fun _ => rfl)
    aside_sendVerification hbase5 fun _ c6 hc6 => ?_)
  exact ⟨.issued ((hc4.later hc5).later hc6), trivial⟩

theorem follows_issueIf {wanted : Bool} {user : UUID} {purpose : String} {ttl : Int} {token : Nat}
    (hc : LeftAlone token c) {Q : Bool × RegistrationPoint → Ctx (AccountWorld B) AccountKey → AccountNote → Prop}
    (hQ : ∀ r c', Commits strict i r.2.account c' (.drawn token) → Q r c' (.drawn token)) :
    (tokenStory strict).follows i (onDirectory (AccountService.issueIf wanted user purpose ttl token)) Q
      (fun _ c g => c.base = g.rights) c (.drawn token) := by
  cases wanted with
  | false => exact hQ _ _ (commits_plain hc.base hc.keeps)
  | true => exact Story.follows_zoom_bind.2 (follows_issueToken hc fun c' hc' => hQ _ _ (.issued hc'))

/-- The e-mail that follows the commit. -/
theorem follows_sent {p : Prop} [Decidable p] {token : Nat} (hbase : c.base = [(.newToken token, .exclusive)]) :
    (tokenStory strict).follows i (onDirectory (Code.onlyIf p sendVerification)) (fun _ _ _ => True)
      (fun _ _ _ => True) c (.spent token) := by
  have hbase : c.base = (AccountNote.spent token).rights := hbase
  unfold Code.onlyIf
  split
  · exact Story.follows_mono (follows_tokenAside (T := Directory.accountTokens) (Q := fun _ _ _ => True) (fun _ => rfl)
      aside_sendVerification hbase fun _ _ _ => trivial) (fun _ _ _ _ => trivial) fun _ _ _ _ => trivial
  · trivial

theorem follows_inviteMember {invitation : InternalMemberInvitation} :
    (tokenStory strict).follows i (onDirectory (AccountService.inviteMember host cfg invitation names))
      (fun _ _ _ => True) (fun _ _ _ => True) (.start [(.newToken names.token, .exclusive)])
      (.drawn names.token) := by
  refine Story.follows_zoom_bind.2 (follows_committing rfl ?_)
  refine Story.follows_zoom_bind.2 (follows_directory (aside_select rfl _) leftAlone_start fun found c1 hc1 => ?_)
  refine Story.follows_zoom_bind.2 (follows_directory aside_invitedUser hc1 fun user c2 hc2 => ?_)
  refine Story.follows_zoom_bind.2 (follows_issueIf hc2 fun sent c3 hc3 => ⟨hc3, ?_⟩)
  exact Story.follows_zoom_bind.2 (Story.follows_mono (follows_sent hc3.base) (fun _ _ _ _ => trivial)
    fun _ _ _ _ => trivial)

theorem follows_requestToken {email : String} {refuses : User → Bool} {purpose : String} {ttl : Int} {token : Nat} :
    (tokenStory strict).follows i (onDirectory (AccountService.requestToken host email refuses purpose ttl token))
      (fun _ _ _ => True) (fun _ _ _ => True) (.start [(.newToken token, .exclusive)]) (.drawn token) := by
  refine Story.follows_zoom_bind.2 (follows_committing rfl ?_)
  refine Story.follows_zoom_bind.2 (follows_directory (aside_select rfl _) leftAlone_start fun found c1 hc1 => ?_)
  cases found with
  | none => exact ⟨commits_plain hc1.base hc1.keeps, follows_sent hc1.base⟩
  | some user => exact follows_issueIf hc1 fun sent c2 hc2 => ⟨hc2, follows_sent hc2.base⟩

/-! ### Consuming -/

/-- The call has consumed the token that it holds. -/
structure Consumes (c : Ctx (AccountWorld B) AccountKey) (token : Nat) : Prop where
  base : c.base = []
  writes : ∃ now, ∀ w, (c.pending w).accountTokens =
    w.accountTokens.update token fun t => { t with consumedAt := some now }

theorem Consumes.later {token : Nat} {c' : Ctx (AccountWorld B) AccountKey} (h : Consumes c token)
    (hc : Later c c') : Consumes c' token := by
  obtain ⟨now, hwrites⟩ := h.writes
  exact ⟨hc.base.trans h.base, now, fun w => (hc.keeps w).trans (hwrites w)⟩

theorem Commits.accepted {token : Nat} {t : AccountToken} (h : Consumes c token) :
    Commits strict i (.accepted token t.purpose) c (.consuming token t) where
  base := h.base
  fits := ⟨rfl, rfl⟩
  turn S hinv hH hg _ := by
    obtain ⟨now, hwrites⟩ := h.writes
    have hnoted := hinv.notes i
    rw [hg] at hnoted
    obtain ⟨hlock, hrow, -⟩ := hnoted
    have hget : ∀ k, (c.pending S.shared).accountTokens.get? k =
        if k = token then (S.shared.accountTokens.get? k).map fun t => { t with consumedAt := some now }
        else S.shared.accountTokens.get? k := by
      intro k
      rw [hwrites, Table.get?_update]
    have hsettles : SettlesTokens S i (c.pending S.shared) := by
      refine ⟨fun k t' ht' => ?_, fun k t' ht' hk => ?_⟩
      · rw [hget]
        by_cases hk : k = token
        · subst hk
          rw [if_pos rfl, ht']
          exact ⟨_, rfl, Or.inr ⟨hlock, now, rfl⟩⟩
        · rw [if_neg hk]
          exact ⟨t', ht', Or.inl rfl⟩
      · rw [hget] at ht'
        split at ht' <;> simp [hk] at ht'
    refine hinv.turn hsettles (by simp [h.base]) (by simp [AccountNote.ended, AccountNote.rights]) trivial
      (by rintro _ _ _ _ ⟨⟩) ?_ ?_
    · rintro k purpose n ⟨⟩
      exact ⟨_, by rw [hget, if_pos rfl, hrow]; rfl, by simp⟩
    · intro hs user purpose k t' newer ht' hpending hlast
      have hlast : lastTold user purpose (S.told ++ [(i, .accepted token t.purpose, S.shared.clock)]) =
          some newer := hlast
      rw [lastTold_snoc] at hlast
      rw [hget] at ht'
      by_cases hk : k = token
      · rw [if_pos hk] at ht'
        obtain ⟨t0, -, rfl⟩ := Option.map_eq_some_iff.1 ht'
        exact absurd (AccountToken.isPending_iff.1 hpending).2.2 (by simp)
      · rw [if_neg hk] at ht'
        exact hinv.newest hs user purpose k t' newer ht' hpending hlast

/-- The sessions' programs that leave the tokens and their rows alone. -/
abbrev AuthAside (token : Nat) (purpose : String) (x : AuthTx α) : Prop :=
  TokenAside AuthWorld.accountTokens AuthKey.account (AuthPoint.account token purpose) x

theorem follows_auth {token : Nat} {purpose : String} {t : AccountToken} {x : AuthTx α}
    (hx : AuthAside token purpose x) (hc : Consumes c token)
    {Q : α → Ctx (AccountWorld B) AccountKey → AccountNote → Prop}
    (hQ : ∀ a c', Consumes c' token → Q a c' (.consuming token t)) :
    (tokenStory strict).follows i (onAuth token purpose x) Q (fun _ c g => c.base = g.rights) c
      (.consuming token t) :=
  follows_tokenAside (fun _ => rfl) hx hc.base fun a c' hc' => hQ a c' (hc.later hc')

theorem AuthWorld.liveToken_eq_some {raw : Nat} {purpose : String} {now : Int} {w : AuthWorld} {t : AccountToken}
    (h : w.liveToken raw purpose now = some t) : w.accountTokens.get? raw = some t ∧
      t.purpose = purpose ∧ t.consumedAt = none ∧ now < t.expiresAt ∧ t.deletedAt = none := by
  simpa [AuthWorld.liveToken, Option.filter_eq_some_iff, and_assoc] using h

theorem follows_consumeToken {raw : Nat} {purpose : String}
    {Q : AccountToken → Ctx (AccountWorld B) AccountKey → AccountNote → Prop}
    (hQ : ∀ t c', t.purpose = purpose → Consumes c' raw → Q t c' (.consuming raw t)) :
    (tokenStory strict).follows i (onAuth raw purpose (consumeToken raw purpose)) Q (fun _ c g => c.base = g.rights)
      (.start []) .idle := by
  refine Story.follows_zoom_bind.2 (Story.follows_select trivial (fails_any rfl) fun S hinv hH hg _ =>
    ⟨.looking S.shared.clock, ?_, ?_⟩)
  · exact hinv.quiet rfl (by rintro y ⟨⟩; rfl) (by simp [Ctx.start]) (by simp [AccountNote.rights])
      ⟨(i, .plain, S.shared.clock), List.mem_append_right _ (List.mem_singleton.2 rfl), rfl, rfl⟩
  have hrow : ∀ w : AccountWorld B, ((w.auth.liveToken raw purpose S.shared.clock).map
      fun _ => AuthKey.accountToken raw).map AuthKey.account =
        (w.auth.liveToken raw purpose S.shared.clock).map fun _ => .accountToken raw := by
    intro w
    cases w.auth.liveToken raw purpose S.shared.clock <;> rfl
  refine Story.follows_zoom_bind.2 ?_
  rw [Code.zoom_selectLocking]
  refine Story.follows_selectLocking trivial (fails_any rfl) ?_ ?_
  · intro S' hinv' hH' hg' _ hnone
    have hnone := Option.map_eq_none_iff.1 ((hrow _).symm.trans hnone)
    refine turns_stay hinv' hH' hg' rfl ?_
    refine Story.follows_zoom_bind.2 (Story.follows_zoom_orRaise (fun t ht => ?_) fun _ => rfl)
    exact absurd (hnone.symm.trans ht) (by simp)
  · intro S' r hinv' hH' hg' _ hsome hfree
    obtain ⟨t, ht, rfl⟩ := Option.map_eq_some_iff.1 ((hrow _).symm.trans hsome)
    obtain ⟨hget, hlive⟩ := AuthWorld.liveToken_eq_some ht
    have hlooking := hinv'.notes i
    rw [hg'] at hlooking
    obtain ⟨y, hy, hyi, hynow⟩ := hlooking
    refine ⟨.consuming raw t, ?_, ?_⟩
    · refine hinv'.quiet rfl (by rintro y ⟨⟩; rfl) (fun y hy => ?_) (by simp [AccountNote.rights])
        ⟨List.mem_cons_self, hget, hlive.2.1, hlive.2.2.2, y, List.mem_append_left _ hy, hyi, ?_⟩
      · rcases List.mem_cons.1 hy with rfl | hy
        · exact Or.inr hfree
        · exact Or.inl (hH' ▸ hy)
      · rw [hynow]
        exact hlive.2.2.1
    · refine Story.follows_zoom_bind.2 (Story.follows_zoom_orRaise (fun t' ht' => ?_) fun _ => rfl)
      obtain rfl : t = t' := Option.some.inj (ht.symm.trans ht')
      refine Story.follows_zoom_bind.2 (follows_tokenAside (T := AuthWorld.accountTokens) (fun _ => rfl)
        (aside_select rfl _) (by exact rfl) fun now c' hc' => ?_)
      have hbase : c'.base = (AccountNote.consuming raw t).rights := hc'.base
      refine Story.follows_zoom_bind.2 (Story.follows_write (u := authPart.lift _) trivial (fails_any hbase)
        fun S hinv hH hg _ => turns_stay hinv hH hg rfl (hQ t _ hlive.1 ⟨hbase, now, fun w => ?_⟩))
      rw [← (show (c'.pending w).accountTokens = w.accountTokens from hc'.keeps w)]
      rfl

theorem follows_setPassword {auth : AuthHost} {purpose : String} {change : User → User} {raw salt : Nat}
    {newPassword : String} :
    (tokenStory (B := B) strict).follows i
      (onAuth raw purpose (setPassword auth purpose change raw newPassword salt)) (fun _ _ _ => True)
      (fun _ _ _ => True) (.start []) .idle := by
  refine follows_committing rfl (Story.follows_zoom_bind.2 (follows_consumeToken fun t c1 hpurpose hc1 => ?_))
  subst hpurpose
  refine Story.follows_zoom_bind.2 (follows_auth (aside_select rfl _) hc1 fun found c2 hc2 => ?_)
  refine Story.follows_zoom_bind.2 (follows_auth (aside_orRaise _ _) hc2 fun user c3 hc3 => ?_)
  refine Story.follows_zoom_bind.2 (follows_auth (aside_orRaise _ _) hc3 fun digest c4 hc4 => ?_)
  refine Story.follows_zoom_bind.2 (follows_auth (aside_selectLocking rfl _ fun w r hr => ?_) hc4
    fun _ c5 hc5 => ?_)
  · obtain ⟨-, -, rfl⟩ := Option.map_eq_some_iff.1 hr
    exact fun token => by simp [AuthKey.account]
  refine Story.follows_zoom_bind.2 (follows_auth (aside_write rfl (by exact fun _ => rfl)) hc5 fun _ c6 hc6 => ?_)
  exact ⟨.accepted hc6, trivial⟩

/-- The note with which a call starts. -/
def AccountCall.note (call : AccountCall) : AccountNote :=
  match call.token with
  | some token => .drawn token
  | none => .idle

theorem AccountCall.rights_note (call : AccountCall) : call.note.rights = call.rights := by
  cases call <;> rfl

theorem follows_call {auth : AuthHost} (call : AccountCall) :
    (tokenStory strict).follows i (call.run host auth cfg) (fun _ _ _ => True) (fun _ _ _ => True)
      (.start call.rights) call.note := by
  cases call with
  | register payload names => exact follows_register
  | inviteMember payload names =>
      exact Story.follows_bind.2 (Story.follows_mono follows_inviteMember (fun _ _ _ _ => trivial) fun _ _ _ h => h)
  | requestEmailVerification email token => exact follows_requestToken
  | requestPasswordRecovery email token => exact follows_requestToken
  | verifyEmail raw newPassword salt =>
      exact Story.follows_bind.2 (Story.follows_mono follows_setPassword (fun _ _ _ _ => trivial) fun _ _ _ h => h)
  | resetPassword raw newPassword salt =>
      exact Story.follows_bind.2 (Story.follows_mono follows_setPassword (fun _ _ _ _ => trivial) fun _ _ _ h => h)

end Follows

/-! ## Runs -/

section Runs

variable {Page : Type} {host : Host B Page} {auth : AuthHost} {cfg : AccountSettings} {strict : Prop}
  {Y Z : AccountSystem B} {steps : List (AccountStep B)}

theorem tokenStory_told :
    (tokenStory strict).Told (fun _ _ _ => True) .idle (accountRuns host auth cfg) where
  starts S i base code hinv hstart hheld hidle hfree := by
    obtain ⟨call, hnew, heq⟩ := hstart
    obtain ⟨rfl, rfl⟩ := Label.start.inj heq
    refine ⟨call.note, hinv.quiet rfl (by simp) (fun y hy => Or.inr fun j _ x hx hxy => ?_)
      (by rw [call.rights_note]; exact fun _ h => h) ?_, ?_⟩
    · exact hfree y.1 y.2 hy j x hx hxy
    · cases htoken : call.token with
      | none => simp only [AccountCall.note, htoken, AccountNote.Says]
      | some token => simpa only [AccountCall.note, htoken, AccountNote.Says] using hnew token htoken
    · exact Story.follows_mono (follows_call call) (fun _ _ g _ => ⟨g.fits_none, trivial⟩)
        fun _ _ g _ => g.fits_none
  env S w hinv hw := by
    have hturn : { S with shared := w } = S.turn 0 none w (S.held 0) (S.note 0) := by simp [Scene.turn]
    rw [hturn]
    have hnoted := (hinv.notes 0).more (fun _ h => h) hw []
    exact hinv.quiet hw (by simp) (fun y hy => Or.inl hy) (hinv.rights 0) hnoted
  crashes _ S i base hbase hinv :=
    ⟨.idle, hinv.quiet rfl (by simp) (fun y hy => Or.inl (hbase hy)) (by simp [AccountNote.rights]) trivial,
      trivial⟩

theorem tokenStory_meets {x : AccountStep B} (h : strict → findsPending x = true) :
    (tokenStory strict).Meets .idle x where
  cond past note i pt act hplaced hl hex := by
    cases pt with
    | issued user purpose token =>
        intro hs
        have hpending := h hs
        simp only [findsPending, hl, hex, List.all_eq_true, decide_eq_true_eq] at hpending
        obtain ⟨j, t, hj, ht, hpoint⟩ := System.pointOf_of_executes hex
        obtain rfl : i = j := Option.some.inj (hl.symm.trans hj)
        have hfits := hplaced.fits i t ht
        rw [hpoint] at hfits
        refine ⟨i, ?_, fun k t ht htp => hpending (k, t) (Table.mem_select_iff.2 ⟨ht, htp⟩)⟩
        show note i = _
        cases hnote : note i with
        | drawn token' =>
            rw [hnote] at hfits
            exact congrArg _ (Eq.symm hfits)
        | _ =>
            rw [hnote] at hfits
            exact hfits.elim
    | _ => trivial
  fails _ _ _ _ _ := trivial
  crashes _ _ := trivial

theorem mem_told {past : List (AccountStep B)} {i : Nat} {pt : AccountPoint} {now : Int} :
    (i, pt, now) ∈ toldIn (tokenStory (B := B) strict).tell past ↔
      ∃ y ∈ past, y.2.session = some i ∧ (∃ act, y.1.executes y.2 = some (pt, act)) ∧ y.1.shared.clock = now := by
  rw [mem_toldIn]
  constructor
  · rintro ⟨y, hy, hi, ⟨pt', act⟩, hex, htell⟩
    cases htell
    exact ⟨y, hy, hi, ⟨act, hex⟩, rfl⟩
  · rintro ⟨y, hy, hi, ⟨act, hex⟩, rfl⟩
    exact ⟨y, hy, hi, (pt, act), hex, rfl⟩

theorem lastTold_eq {user : UUID} {purpose : String} {past : List (AccountStep B)} :
    lastTold user purpose (toldIn (tokenStory strict).tell past) = lastIssued user purpose past := by
  unfold lastTold lastIssued toldIn
  rw [List.filterMap_filterMap]
  congr 2
  funext x
  exact toldBy_bind (f := fun y : AccountPoint × Int => y.1.issuedTo user purpose) x

theorem keepsTokens_start (strict : Prop) (w : AccountWorld B) :
    KeepsTokens strict ⟨[], w, fun _ => [], fun _ => .idle⟩ :=
  ⟨by simp [Scene.Exclusive], by simp [AccountNote.rights], fun _ => trivial, by simp, by simp, by simp [lastTold]⟩

theorem executes_of_accepts {x : AccountStep B} {token : Nat} {purpose : String}
    (h : accepts x = some (token, purpose)) : ∃ act, x.1.executes x.2 = some (.accepted token purpose, act) := by
  unfold accepts at h
  split at h
  · next t p act hex =>
    cases h
    exact ⟨act, hex⟩
  · exact absurd h (by simp)

variable (strict) in
/-- What has been executed has been told. -/
theorem told_of_executes {past : List (AccountStep B)} {y : AccountStep B} {pt : AccountPoint}
    {act : Act (AccountWorld B) AccountKey} (hy : y ∈ past) (hex : y.1.executes y.2 = some (pt, act)) :
    ∃ i, (i, pt, y.1.shared.clock) ∈ toldIn (tokenStory (B := B) strict).tell past := by
  obtain ⟨i, t, hi, -⟩ := System.pointOf_of_executes hex
  exact ⟨i, mem_told.2 ⟨y, hy, hi, ⟨act, hex⟩, rfl⟩⟩

variable (strict) in
/-- Where a token is accepted, its call holds the row. -/
theorem consuming_of_accepts {past : List (AccountStep B)} {x : AccountStep B} {token : Nat} {purpose : String}
    (hrun : Run (accountRuns host auth cfg) Y past x.1) (hidle : Y.sessions = [])
    (hpending : ∀ x ∈ past, strict → findsPending x = true) (haccepts : accepts x = some (token, purpose)) :
    ∃ note i t, KeepsTokens strict (x.1.scene (tokenStory strict).tell past note) ∧ x.2.session = some i ∧
      AccountNote.Says i (toldIn (tokenStory strict).tell past) (x.1.heldBy i) x.1.shared (.consuming token t) ∧
        t.purpose = purpose := by
  obtain ⟨note, hkeeps, -⟩ := Story.keeps_of_run tokenStory_told hrun hidle (keepsTokens_start strict Y.shared)
    fun x hx => tokenStory_meets (hpending x hx)
  obtain ⟨act, hex⟩ := executes_of_accepts haccepts
  obtain ⟨i, u, hi, hu, hpoint⟩ := System.pointOf_of_executes hex
  have hfits := fits_of_follows hu (hkeeps.follows i u hu)
  rw [hpoint] at hfits
  cases hnote : note i with
  | consuming token' t =>
      rw [hnote] at hfits
      obtain ⟨rfl, rfl⟩ := hfits
      have hnoted : AccountNote.Says i _ _ _ (note i) := hkeeps.inv.notes i
      rw [hnote] at hnoted
      exact ⟨note, i, t, hkeeps.inv, hi, hnoted, rfl⟩
  | _ =>
      rw [hnote] at hfits
      exact hfits.elim

/-- **Account tokens.** A token is accepted once at most, for its purpose and before it expires. Where every call
    that commits a token has found those that are pending, none is accepted that is not the newest. -/
theorem tokens_accepted (hrun : Run (accountRuns host auth cfg) Y steps Z) (hidle : Y.sessions = []) :
    (∀ past x future token purpose, steps = past ++ x :: future → accepts x = some (token, purpose) →
      AcceptedOnce past x token purpose) ∧
    ((∀ x ∈ steps, findsPending x = true) →
      ∀ past x future token purpose, steps = past ++ x :: future → accepts x = some (token, purpose) →
        IsNewest past x token) := by
  constructor
  · rintro past x future token purpose rfl haccepts
    obtain ⟨note, i, t, hinv, hi, hnoted, hpurpose⟩ := consuming_of_accepts False hrun.split.1 hidle
      (fun _ _ h => h.elim) haccepts
    obtain ⟨-, hrow, hconsumed, hdeleted, ⟨j, pt, now⟩, hy, rfl, hnow⟩ := hnoted
    refine ⟨fun y hy p hagain => ?_, ⟨t, hrow, hpurpose, hconsumed, hdeleted, ?_⟩, fun y hy user p act hex => ?_⟩
    · obtain ⟨act, hex⟩ := executes_of_accepts hagain
      obtain ⟨k, htold⟩ := told_of_executes False hy hex
      obtain ⟨t', hrow', hconsumed'⟩ := hinv.accepted k token p _ htold
      obtain rfl : t = t' := Option.some.inj (hrow.symm.trans hrow')
      exact hconsumed' hconsumed
    · obtain ⟨y, hmem, hj, ⟨act, hex⟩, rfl⟩ := mem_told.1 hy
      exact ⟨y, hmem, hj.trans hi.symm, by rw [hex]; rfl, hnow⟩
    · obtain ⟨k, htold⟩ := told_of_executes False hy hex
      obtain ⟨t', hrow', hpurpose'⟩ := hinv.issued k user p token _ htold
      obtain rfl : t = t' := Option.some.inj (hrow.symm.trans hrow')
      exact hpurpose'.symm.trans hpurpose
  · rintro hall past x future token purpose rfl haccepts
    obtain ⟨note, i, t, hinv, hi, hnoted, -⟩ := consuming_of_accepts True hrun.split.1 hidle
      (fun x hx _ => hall x (List.mem_append_left _ hx)) haccepts
    obtain ⟨-, hrow, hconsumed, -⟩ := hnoted
    intro t' newer hrow' hlast
    obtain rfl : t = t' := Option.some.inj (hrow.symm.trans hrow')
    exact hinv.newest trivial t.userId t.purpose token t newer hrow
      (AccountToken.isPending_iff.2 ⟨rfl, rfl, hconsumed⟩) (lastTold_eq.trans hlast)

end Runs

/-- A user who is active. -/
def activeAccount : AccountSystem SampleBytes where
  shared :=
    { directory :=
        ⟨(∅ : Table UUID User).insert 1 ⟨"a", true, false, none, none, ⟨0, "p"⟩, 1, true⟩, [], ∅, ∅,
          World.empty SampleBytes⟩
      recoveryCodes := ∅
      securityEvents := []
      redis := .empty
      history := [] }
  sessions := []

def sampleAccounts : AccountSettings := ⟨⟨"key", 60⟩, 60⟩

/-- The token of a call that begins is a new one. -/
def tokenUnused (x : AccountStep SampleBytes) : Bool :=
  match x.2 with
  | .start base _ => base.all fun y => match y.1 with
      | .newToken token => (x.1.shared.accountTokens.get? token).isNone
      | _ => true
  | _ => true

def startAccount (call : AccountCall) : AccountLabel SampleBytes :=
  call.start sampleHost sampleAuthHost sampleAccounts

theorem replay_accounts {labels : List (AccountLabel SampleBytes)} {Y Z : AccountSystem SampleBytes}
    {steps : List (AccountStep SampleBytes)}
    (hlabels : ∀ l ∈ labels, (∃ call, l = startAccount call) ∨ ∃ i, l = .run i)
    (hnew : steps.all tokenUnused = true) (h : Y.replay labels = some (steps, Z)) :
    Run (accountRuns sampleHost sampleAuthHost sampleAccounts) Y steps Z := by
  refine System.replay_steps_run h fun x hx => ?_
  have hl : x.2 ∈ labels := System.replay_labels h ▸ List.mem_map_of_mem hx
  have hx := List.all_eq_true.1 hnew x hx
  obtain ⟨X, l⟩ := x
  obtain ⟨call, rfl⟩ | ⟨i, rfl⟩ := hlabels l hl
  · refine ⟨call, fun token htoken => ?_, rfl⟩
    have hx := List.all_eq_true.1 hx (.newToken token, .exclusive) (List.mem_map_of_mem (by simpa using htoken))
    simpa using hx
  · trivial

theorem runs_accounts {i n : Nat} : ∀ l ∈ (Label.runs i n : List (AccountLabel SampleBytes)),
    (∃ call, l = startAccount call) ∨ ∃ i, l = .run i :=
  fun _ hl => Or.inr ⟨i, List.eq_of_mem_replicate hl⟩

/-- A user recovers the password twice, and uses the second token. -/
theorem tokens_accepted_second :
    ∃ steps Z, Run (accountRuns sampleHost sampleAuthHost sampleAccounts) activeAccount steps Z ∧
      ∃ past x future, steps = past ++ x :: future ∧ accepts x = some (6, "reset_password") ∧
        AcceptedOnce past x 6 "reset_password" ∧ IsNewest past x 6 := by
  obtain ⟨steps, Z, hreplay, hp⟩ := System.exists_replay (Y := activeAccount)
    (startAccount (.requestPasswordRecovery "a" 5) :: (Label.runs 0 7 ++
      startAccount (.requestPasswordRecovery "a" 6) :: (Label.runs 1 9 ++
        startAccount (.resetPassword 6 "q" 3) :: Label.runs 2 8)))
    (p := fun steps _ => (steps.all tokenUnused && steps.all findsPending) &&
      steps.any fun x => decide (accepts x = some (6, "reset_password"))) (by decide +kernel)
  simp only [Bool.and_eq_true, List.any_eq_true, decide_eq_true_eq] at hp
  obtain ⟨⟨hnew, hall⟩, x, hx, haccepts⟩ := hp
  have hrun := replay_accounts (List.forall_mem_cons.2 ⟨Or.inl ⟨_, rfl⟩, List.forall_mem_append.2 ⟨runs_accounts,
    List.forall_mem_cons.2 ⟨Or.inl ⟨_, rfl⟩, List.forall_mem_append.2 ⟨runs_accounts,
      List.forall_mem_cons.2 ⟨Or.inl ⟨_, rfl⟩, runs_accounts⟩⟩⟩⟩⟩) hnew hreplay
  obtain ⟨past, future, rfl⟩ := List.append_of_mem hx
  have hboth := tokens_accepted hrun rfl
  exact ⟨_, Z, hrun, past, x, future, rfl, haccepts, hboth.1 past x future _ _ rfl haccepts,
    hboth.2 (List.all_eq_true.1 hall) past x future _ _ rfl haccepts⟩

/-- Two calls at once recover the password: the first token is accepted after the second has been committed. -/
theorem not_tokens_accepted :
    ¬∀ (host : Host SampleBytes String) (auth : AuthHost) (cfg : AccountSettings) (Y Z : AccountSystem SampleBytes)
        (steps past future : List (AccountStep SampleBytes)) (x : AccountStep SampleBytes) (token : Nat)
        (purpose : String),
      Run (accountRuns host auth cfg) Y steps Z → Y.sessions = [] → steps = past ++ x :: future →
        accepts x = some (token, purpose) → IsNewest past x token := by
  intro h
  obtain ⟨steps, Z, hreplay, hp⟩ := System.exists_replay (Y := activeAccount)
    (startAccount (.requestPasswordRecovery "a" 5) :: startAccount (.requestPasswordRecovery "a" 6) ::
      (Label.runs 0 3 ++ (Label.runs 1 3 ++ (Label.runs 0 4 ++ (Label.runs 1 4 ++
        startAccount (.resetPassword 5 "q" 3) :: Label.runs 2 8)))))
    (p := fun steps _ => steps.all tokenUnused && steps[24]?.any fun x =>
      decide (accepts x = some (5, "reset_password")) &&
        (decide (lastIssued 1 "reset_password" (steps.take 24) = some 6) &&
          (x.1.shared.accountTokens.get? 5).any fun (t : AccountToken) =>
            decide (t.userId = 1) && decide (t.purpose = "reset_password"))) (by decide +kernel)
  simp only [Bool.and_eq_true, Option.any_eq_true, decide_eq_true_eq] at hp
  obtain ⟨hnew, x, hx, haccepts, hlast, t, ht, huser, hpurpose⟩ := hp
  have hrun := replay_accounts (List.forall_mem_cons.2 ⟨Or.inl ⟨_, rfl⟩, List.forall_mem_cons.2 ⟨Or.inl ⟨_, rfl⟩,
    List.forall_mem_append.2 ⟨runs_accounts, List.forall_mem_append.2 ⟨runs_accounts, List.forall_mem_append.2
      ⟨runs_accounts, List.forall_mem_append.2 ⟨runs_accounts,
        List.forall_mem_cons.2 ⟨Or.inl ⟨_, rfl⟩, runs_accounts⟩⟩⟩⟩⟩⟩⟩) hnew hreplay
  have hsplit : steps = steps.take 24 ++ x :: steps.drop 25 := by
    obtain ⟨hlt, hget⟩ := List.getElem?_eq_some_iff.1 hx
    rw [← hget, List.getElem_cons_drop, List.take_append_drop]
  have hnewest := h _ _ _ _ Z steps _ _ x _ _ hrun rfl hsplit haccepts t 6 ht (huser ▸ hpurpose ▸ hlast)
  exact absurd hnewest (by decide)

end Rubrica
